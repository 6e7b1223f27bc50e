import DupDistribute.Base.Family
import DupDistribute.Distribute.Handover

/-!
# Forwarding of live chunks

Receive one, send many: a chunk with the Sea or BD head is recorded and then offered to
every client in the order of the table (`util.c:148-313`). `Served` is the contract for one
chunk, stated on the trace of its handling; it mentions no earlier chunk.
-/

namespace DupDistribute.Distribute

open DupDistribute.Base DupDistribute.Wire DupDistribute.Record DupDistribute.Playback

/-! ### The contract -/

/-- The copy of the request head in `distribute_client_send`, `util.c:274`. -/
def headerCopy : ClientEvent := .copy ⟨sizeofReplayProtocol, sizeofReplayProtocol⟩

/-- What a client thread does for a live chunk: one send of the chunk when the connection is
made and the lock file of the address is missing at the check, and no send otherwise. -/
inductive Offered (info : TcpInfo) (chunk : List UInt8) : List ClientEvent → Prop where
  | unreachable (res : SocketResult) (h : ∀ fd, res ≠ .connected fd) :
      Offered info chunk [.socket info.address info.port res]
  | suspended (fd : Int) (w : Shm) (h : shmFile info.address ∈ w) :
      Offered info chunk [.socket info.address info.port (.connected fd), headerCopy,
        .access w (shmFile info.address), .close fd]
  | sent (fd : Int) (w : Shm) (res : SendResult) (h : shmFile info.address ∉ w) :
      Offered info chunk [.socket info.address info.port (.connected fd), headerCopy,
        .access w (shmFile info.address), .send fd chunk res, .close fd]

/-- What a process does with a chunk. A recorded live chunk is offered to the clients
`1` to `n` in order, each once and under its own index. -/
inductive Served (t : Table) (chunk : List UInt8) : List Event → Prop where
  | useless (hl : ¬ IsLive chunk) (hp : ¬ IsPlayback chunk) :
      Served t chunk (receiveEvents chunk)
  | unrecorded (ρ : List Record.Event) (hl : IsLive chunk) (hr : Unrecorded ρ) :
      Served t chunk (receiveEvents chunk ++ ρ.map .record)
  | forwarded (ρ : List Record.Event) (σ : List Event) (hl : IsLive chunk)
      (hr : Recorded chunk ρ)
      (hf : Fanout (fun i ↦ Offered (t i) chunk) (t 0).clientNum σ) :
      Served t chunk (receiveEvents chunk ++ ρ.map .record ++ prepareEvents chunk ++ σ)
  | playback (σ : List Event) (hp : IsPlayback chunk)
      (hf : Fanout (fun _ _ ↦ True) (t 0).clientNum σ) :
      Served t chunk (receiveEvents chunk ++ prepareEvents chunk ++ σ)

/-! ### One client thread -/

/-- How far a thread has got with a live chunk. -/
inductive Offering (info : TcpInfo) (chunk : List UInt8) : List ClientEvent → ClientPc → Prop where
  | start : Offering info chunk [] .start
  | header (fd : Int) :
      Offering info chunk [.socket info.address info.port (.connected fd)] (.header fd)
  | check (fd : Int) :
      Offering info chunk [.socket info.address info.port (.connected fd), headerCopy] (.check fd)
  | send (fd : Int) (w : Shm) (h : shmFile info.address ∉ w) :
      Offering info chunk [.socket info.address info.port (.connected fd), headerCopy,
        .access w (shmFile info.address)] (.send fd)
  | close (fd : Int) (υ : List ClientEvent) (h : Offered info chunk (υ ++ [.close fd])) :
      Offering info chunk υ (.close fd)
  | unlock (υ : List ClientEvent) (h : Offered info chunk υ) : Offering info chunk υ .unlock
  | exited (υ : List ClientEvent) (h : Offered info chunk υ) : Offering info chunk υ .exited

variable {env : Env} {t₀ : Table} {chunk : List UInt8} {param : ThreadParam}

private theorem offering_step {υ es : List ClientEvent} {pc pc' : ClientPc} {t t' : Table}
    {w w' : Shm} {a : ClientInput} (hc : param.Carries chunk) (hl : IsLive chunk)
    (hag : t.Agrees t₀) (ho : Offering (t₀ param.clientIndex) chunk υ pc)
    (h : clientStep env param w (pc, t) a = some ((pc', t'), w', es)) :
    Offering (t₀ param.clientIndex) chunk (υ ++ es) pc' := by
  obtain ⟨haddr, hport, -⟩ := hag param.clientIndex
  have hread : param.buf.read param.bufSize = chunk := by
    rw [hc.bufSize]
    exact hc.buf.read hc.bounded
  cases clientDoes_of_step h with
  | connected fd hs =>
    cases ho
    rw [haddr, hport]
    exact .header fd
  | notConnected hs =>
    cases ho
    rw [haddr, hport]
    exact .unlock _ (.unreachable _ hs)
  | enter fd hh _ =>
    rw [replayOf_eq hc.buf (.inl rfl), ReplayProtocol.ofChunk_head] at hh
    exact absurd hl hh.not_live
  | skip fd =>
    cases ho
    exact .check fd
  | session => cases ho
  | locked fd hw =>
    cases ho
    rw [haddr] at hw ⊢
    exact .close fd _ (.suspended fd w hw)
  | unlocked fd hw =>
    cases ho
    rw [haddr] at hw ⊢
    exact .send fd w hw
  | send fd =>
    rw [hread]
    cases ho with
    | send _ w hw => exact .close fd _ (.sent fd w a.send hw)
  | close fd =>
    cases ho with
    | close _ _ hof => exact .unlock _ hof
  | unlock =>
    cases ho with
    | unlock _ hof =>
      rw [List.append_nil]
      exact .exited _ hof

/-- Every run of a thread with a live chunk follows the contract. -/
theorem offering_of_open {υ : List ClientEvent} {pc : ClientPc} {t t' : Table}
    (hc : param.Carries chunk) (hl : IsLive chunk) (ht : t.Agrees t₀)
    (h : (client env param).Open (.start, t) υ (pc, t')) :
    Offering (t₀ param.clientIndex) chunk υ pc := by
  have hinv : t'.Agrees t₀ ∧ Offering (t₀ param.clientIndex) chunk υ pc :=
    h.invariant (fun υ s ↦ s.2.Agrees t₀ ∧ Offering (t₀ param.clientIndex) chunk υ s.1)
      ⟨ht, .start⟩
      (fun _ _ _ _ _ _ _ ho _ hs ↦
        ⟨clientStep_agrees ho.1 hs, offering_step hc hl ho.1 ho.2 hs⟩)
  exact hinv.2

/-- A thread that has exited has offered the chunk. -/
theorem ThreadTrace.offered {i : Nat} {υ : List ClientEvent} (hl : IsLive chunk)
    (h : ThreadTrace env t₀ chunk i υ) : Offered (t₀ i) chunk υ := by
  obtain ⟨t', param, t, ht, hc, rfl, hrun⟩ := h
  cases offering_of_open hc hl ht hrun with
  | exited _ ho => exact ho

/-- A thread under way with a live chunk can finish within the contract. -/
theorem Offering.extends {info : TcpInfo} {υ : List ClientEvent} {pc : ClientPc}
    (h : Offering info chunk υ pc) : ∃ υ', Offered info chunk (υ ++ υ') := by
  cases h with
  | start => exact ⟨_, .unreachable .connectFailed (by simp)⟩
  | header fd => exact ⟨_, .suspended fd {shmFile info.address} (Finset.mem_singleton_self _)⟩
  | check fd => exact ⟨_, .suspended fd {shmFile info.address} (Finset.mem_singleton_self _)⟩
  | send fd w hw => exact ⟨_, .sent fd w (.sent 0) hw⟩
  | close fd _ ho => exact ⟨_, ho⟩
  | unlock _ ho => exact ⟨[], by rwa [List.append_nil]⟩
  | exited _ ho => exact ⟨[], by rwa [List.append_nil]⟩

/-- A thread under way with a live chunk is never stuck before its end. -/
theorem Offering.enabled {info : TcpInfo} {υ : List ClientEvent} {pc : ClientPc}
    (h : Offering info chunk υ pc) (hx : pc ≠ .exited) (w : Shm) (t : Table)
    (a : ClientInput) : (clientStep env param w (pc, t) a).isSome := by
  cases h with
  | start =>
    simp only [clientStep]
    split <;> rfl
  | header fd =>
    simp only [clientStep]
    split <;> rfl
  | check fd =>
    simp only [clientStep]
    split <;> rfl
  | send | close | unlock => rfl
  | exited => exact absurd rfl hx

/-! ### Steps left to a live chunk -/

/-- Steps left to a recording. -/
def recordLeft : Record.Pc → Nat
  | .idle => 8
  | .accessConf => 7
  | .getDirName => 6
  | .accessDir _ => 5
  | .mkdir _ => 4
  | .createDataFile _ _ _ => 3
  | .fopen _ _ => 2
  | .opened _ => 1

/-- Steps left to a client thread outside `playback_run`. -/
def clientLeft : ClientPc → Nat
  | .start => 6
  | .header _ => 5
  | .check _ => 4
  | .send _ => 3
  | .close _ => 2
  | .unlock => 1
  | _ => 0

/-- Steps left to main; each client not yet created counts for its thread as well. -/
def mainLeft (n : Nat) (record : Record.Pc) : MainPc → Nat
  | .run => 11 * n + 13
  | .record => 11 * n + 4 + recordLeft record
  | .prepare => 11 * n + 4
  | .lock i => n + 3 + 10 * (n - i)
  | .setIndex i => n + 2 + 10 * (n - i)
  | .create i => n + 1 + 10 * (n - i)
  | .join i => 2 + (n - i)
  | .destroy => 1
  | .recv | .closed | .dead => 0

/-- Steps left to a process before it receives again, without any playback. -/
def Proc.stepsLeft (n : Nat) (p : Proc) : Nat :=
  mainLeft n p.recorder.pc p.main + ∑ j ∈ Finset.range n, clientLeft (p.threads j)

private theorem recordLeft_pos (pc : Record.Pc) : 0 < recordLeft pc := by
  cases pc <;> simp [recordLeft]

private theorem recordLeft_lt {s s' : Recorder} {st st' : Store} {a : Record.Input}
    {es : List Record.Event} (h : s.step env st a = some (s', st', es)) :
    MainPc.afterRecord s.pc s'.pc = .recv ∨ MainPc.afterRecord s.pc s'.pc = .prepare ∨
      MainPc.afterRecord s.pc s'.pc = .record ∧ recordLeft s'.pc < recordLeft s.pc := by
  cases Recorder.does_of_step h with
  | noConf | notMade | notOpened => exact .inl rfl
  | writes => exact .inr (.inl rfl)
  | _ => exact .inr (.inr ⟨rfl, by simp [recordLeft]⟩)

/-- Every step of main before the next `recv` counts. -/
theorem main_stepsLeft {n : Nat} {p p' : Proc} {w w' : World} {i : MainInput}
    {es : List Event} (hn : (p.tcpInfo 0).clientNum = n) (hm : p.main ≠ .recv)
    (hset : ∀ k, p.main = .setIndex k ∨ p.main = .create k → k < n)
    (h : p.mainStep env w i = some (p', w', es)) :
    p'.main = .recv ∨ p'.stepsLeft n < p.stepsLeft n := by
  cases Proc.mainDoes_of_step h with
  | closed hp => exact absurd hp hm
  | received chunk hp => exact absurd hp hm
  | distribute hp | playback hp =>
    right
    simp only [Proc.stepsLeft, mainLeft, recordLeft, hp]
    omega
  | record s' st' es' hp hs =>
    have hpos := recordLeft_pos p.recorder.pc
    rcases recordLeft_lt hs with hr | hr | ⟨hr, hlt⟩
    · exact .inl hr
    · right
      simp only [Proc.stepsLeft, mainLeft, hp, hr]
      omega
    · right
      simp only [Proc.stepsLeft, mainLeft, hp, hr]
      omega
  | prepare hp =>
    right
    simp only [Proc.stepsLeft, mainLeft, hp, clientLeft, Finset.sum_const_zero]
    omega
  | create k hp =>
    right
    have hk := hset k (.inr hp)
    have hsum := sum_update clientLeft hk p.threads (if i.created then .start else .absent)
    have hle : clientLeft (if i.created then .start else .absent) ≤ 6 := by
      split <;> simp [clientLeft]
    simp only [Proc.stepsLeft, mainLeft, hp]
    omega
  | lock k hp | allCreated k hp | setIndex k hp | join k hp | allJoined k hp =>
    right
    simp only [Proc.stepsLeft, mainLeft, hp]
    omega
  | destroy => exact .inl rfl

private theorem clientLeft_lt {info : TcpInfo} {υ es : List ClientEvent} {pc pc' : ClientPc}
    {t t' : Table} {w w' : Shm} {a : ClientInput} (hc : param.Carries chunk)
    (hl : IsLive chunk) (ho : Offering info chunk υ pc)
    (h : clientStep env param w (pc, t) a = some ((pc', t'), w', es)) :
    clientLeft pc' < clientLeft pc := by
  cases clientDoes_of_step h with
  | enter fd hh _ =>
    rw [replayOf_eq hc.buf (.inl rfl), ReplayProtocol.ofChunk_head] at hh
    exact absurd hl hh.not_live
  | session => cases ho
  | _ => simp [clientLeft]

/-- Every step of the thread that offers a live chunk counts. -/
private theorem client_stepsLeft {p : Proc} {m j : Nat} {pc pc' : ClientPc} {t' : Table}
    {υ es : List ClientEvent} {w w' : Shm} {i : ClientInput} (hag : p.tcpInfo.Agrees t₀)
    (hl : IsLive chunk) (hc : p.param.Carries chunk) (hth : OneByOne p.threads m pc)
    (hlt : m < (t₀ 0).clientNum) (ho : Offering (t₀ p.param.clientIndex) chunk υ pc)
    (h : clientStep env p.param w (p.threads j, p.tcpInfo) i = some ((pc', t'), w', es)) :
    (p.afterClient j pc' t').stepsLeft (t₀ 0).clientNum < p.stepsLeft (t₀ 0).clientNum := by
  by_cases hj : j = m
  · subst hj
    rw [hth.here] at h
    have hdec := clientLeft_lt hc hl ho h
    have hcr : pc' ≠ .crashed := by
      have ho' := offering_step hc hl hag ho h
      rintro rfl
      generalize υ ++ es = υ' at ho'
      cases ho'
    have hsum := sum_update clientLeft hlt p.threads pc'
    rw [hth.here] at hsum
    simp only [Proc.afterClient_of_ne hcr, Proc.stepsLeft]
    omega
  · simp [clientStep_resting (hth.other hj)] at h

/-- A process that is handling a live chunk. -/
structure Delivering (env : Env) (t₀ : Table) (p : Proc) : Prop where
  tables : p.tcpInfo.Agrees t₀
  stage : ∃ chunk cur, IsLive chunk ∧ cur.head? = some (.recv chunk) ∧ Stage env True t₀ p cur

private theorem delivering_enabled {p : Proc} (h : Delivering env t₀ p) (hm : p.main ≠ .recv)
    (w : World) : ∃ a : Act, a.Creates True ∧ ((process env).step w p a).isSome := by
  obtain ⟨hag, chunk, cur, hl, hhead, hst⟩ := h
  have main (hq : p.Resting) (hc : p.main ≠ .closed) (hd : p.main ≠ .dead) :
      ∃ a : Act, a.Creates True ∧ ((process env).step w p a).isSome :=
    ⟨.main {}, fun _ ↦ rfl, hst.main_isSome hag hq hm hc hd w⟩
  cases hst with
  | idle hw => exact absurd hw.main hm
  | closed => simp at hhead
  | running chunk' hp hr hq | recording chunk' ρ hp hq | preparing chunk' pre hp hr hq =>
    exact main hq (by simp [hp]) (by simp [hp])
  | between chunk' pre m σ hr ho hc hth hf hb =>
    apply main hth.resting <;> cases hb <;> simp_all
  | working chunk' pre m σ υ pc t hr ho hc hth hf hb hu hi hlt hx ht hrun =>
    obtain rfl : chunk' = chunk := by simpa [ho.head] using hhead
    have hof := offering_of_open hc hl ht hrun
    refine ⟨.client m {}, trivial, ?_⟩
    simp only [process, Proc.step, hth.here, Option.isSome_map]
    exact hof.enabled hx _ _ _
  | missing chunk' pre m σ hs => exact absurd trivial hs
  | dead chunk' pre m σ υ t' hp hr hq ho hf hrun =>
    obtain rfl : chunk' = chunk := by simpa [ho.head] using hhead
    obtain ⟨param, t, ht, hc, hi, hrun⟩ := hrun
    cases offering_of_open hc hl ht hrun

private theorem delivering_step {p p' : Proc} {w w' : World} {a : Act} {es : List Event}
    (h : Delivering env t₀ p) (hm : p.main ≠ .recv) (hsure : a.Creates True)
    (hs : p.step env w a = some (p', w', es)) :
    p'.main = .recv ∨ Delivering env t₀ p' ∧
      p'.stepsLeft (t₀ 0).clientNum < p.stepsLeft (t₀ 0).clientNum := by
  obtain ⟨hag, chunk, cur, hl, hhead, hst⟩ := h
  have hn : (p.tcpInfo 0).clientNum = (t₀ 0).clientNum := (hag 0).2.2.2
  rcases hst.step hag hsure hs with hst' | ⟨_, _, hst'⟩
  swap
  · exact .inl hst'.waiting.main
  have main {i : MainInput} (ha : a = .main i)
      (hset : ∀ k, p.main = .setIndex k ∨ p.main = .create k → k < (t₀ 0).clientNum) :
      p'.main = .recv ∨ Delivering env t₀ p' ∧
        p'.stepsLeft (t₀ 0).clientNum < p.stepsLeft (t₀ 0).clientNum := by
    subst ha
    refine (main_stepsLeft hn hm hset hs).imp_right (fun hlt ↦ ⟨?_, hlt⟩)
    exact ⟨Proc.step_agrees hag hs, chunk, _, hl, by simp [hhead], hst'⟩
  cases hst with
  | idle hw => exact absurd hw.main hm
  | closed => simp at hhead
  | running chunk' hp hr hq | recording chunk' ρ hp hq | preparing chunk' pre hp hr hq =>
    obtain ⟨i, rfl, -⟩ := hq.main_step hs
    exact main rfl (by simp [hp])
  | between chunk' pre m σ hr ho hc hth hf hb =>
    obtain ⟨i, rfl, -⟩ := hth.resting.main_step hs
    refine main rfl (fun k hk ↦ ?_)
    cases hb <;> simp_all
  | missing chunk' pre m σ hs => exact absurd trivial hs
  | dead chunk' pre m σ υ t' hp hr hq =>
    obtain ⟨i, rfl, -⟩ := hq.main_step hs
    exact main rfl (by simp [hp])
  | working chunk' pre m σ υ pc t hr ho hc hth hf hb hu hi hlt hx ht hrun =>
    obtain rfl : chunk' = chunk := by simpa [ho.head] using hhead
    cases a with
    | main i =>
      refine main rfl (fun k hk ↦ ?_)
      cases hb <;> simp_all
    | client j i =>
      have hof := offering_of_open hc hl ht hrun
      obtain ⟨pc', t', shm', es', hcs, rfl, -, -⟩ := Proc.client_step hs
      refine .inr ⟨⟨Proc.step_agrees hag hs, _, _, hl, by simp [ho.head], hst'⟩, ?_⟩
      exact client_stepsLeft hag hl hc hth hlt hof hcs

/-! ### Whole runs -/

/-- Whatever the clients, the lock files and the scheduler do, a live chunk gets done. -/
theorem Delivering.inevitably {p : Proc} (h : Delivering env t₀ p) :
    (process env).Inevitably (fun _ ↦ True) (Act.Creates True) (fun p ↦ p.main = .recv) p :=
  .of_measure (Proc.stepsLeft (t₀ 0).clientNum)
    (fun w _ hd hm _ ↦ delivering_enabled hd hm w)
    (fun _ _ _ _ _ _ hd hm _ hc hs ↦ delivering_step hd hm hc hs) h

/-- Threads may follow until all clients had one. -/
theorem Fanout.extends {P : Nat → List ClientEvent → Prop} {m n : Nat} {σ : List Event}
    (hp : ∀ i, ∃ υ, P i υ) (h : Fanout P m σ) (hmn : m ≤ n) : ∃ rest, Fanout P n (σ ++ rest) := by
  induction hmn with
  | refl => exact ⟨[], by rwa [List.append_nil]⟩
  | @step n _ ih =>
    obtain ⟨rest, hr⟩ := ih
    obtain ⟨υ, hu⟩ := hp (n + 1)
    exact ⟨rest ++ υ.map (.client n (n + 1)), by
      rw [← List.append_assoc]
      exact .succ n _ υ hr hu⟩

/-- What a thread owes to its client: a live chunk is offered. -/
private def Owes (t₀ : Table) (chunk : List UInt8) (i : Nat) (υ : List ClientEvent) : Prop :=
  IsLive chunk → Offered (t₀ i) chunk υ

private theorem owes_some (t₀ : Table) (chunk : List UInt8) (i : Nat) :
    ∃ υ, Owes t₀ chunk i υ :=
  ⟨_, fun _ ↦ .unreachable .connectFailed (by simp)⟩

private theorem ThreadRun.extends {i : Nat} {υ : List ClientEvent} {pc : ClientPc} {t' : Table}
    (h : ThreadRun env t₀ chunk i υ pc t') : ∃ υ', Owes t₀ chunk i (υ ++ υ') := by
  obtain ⟨param, t, ht, hc, rfl, hrun⟩ := h
  by_cases hl : IsLive chunk
  · obtain ⟨υ', ho⟩ := (offering_of_open hc hl ht hrun).extends
    exact ⟨υ', fun _ ↦ ho⟩
  · exact ⟨[], fun hl' ↦ absurd hl' hl⟩

private theorem Opening.served {pre σ : List Event} (ho : Opening chunk pre)
    (hf : Fanout (Owes t₀ chunk) (t₀ 0).clientNum σ) :
    Served t₀ chunk (pre ++ prepareEvents chunk ++ σ) := by
  cases ho with
  | live ρ hl hr => exact .forwarded ρ σ hl hr (hf.mono (fun _ _ hu ↦ hu hl))
  | playback hp => exact .playback σ hp (hf.mono (fun _ _ _ ↦ trivial))

/-- A handled chunk was served, if no thread was missing. -/
theorem Handled.served {σ : List Event} (h : Handled env True t₀ chunk σ) :
    Served t₀ chunk σ := by
  cases h with
  | useless hl hp => exact .useless hl hp
  | unrecorded ρ hl hr => exact .unrecorded ρ hl hr
  | fanned pre m σ ho hf hm =>
    obtain rfl : m = (t₀ 0).clientNum := hm.resolve_right (fun hs ↦ hs.1 trivial)
    exact ho.served (hf.mono (fun _ _ hu hl ↦ hu.offered hl))

private theorem Opening.extends {pre σ : List Event} {m : Nat} (ho : Opening chunk pre)
    (hf : Fanout (Owes t₀ chunk) m σ) (hle : m ≤ (t₀ 0).clientNum) :
    ∃ rest, Served t₀ chunk (pre ++ prepareEvents chunk ++ σ ++ rest) := by
  obtain ⟨rest, hr⟩ := hf.extends (owes_some t₀ chunk) hle
  refine ⟨rest, ?_⟩
  rw [List.append_assoc _ σ]
  exact ho.served hr

private theorem Opening.extends_start {pre : List Event} (t₀ : Table) (ho : Opening chunk pre) :
    ∃ rest, Served t₀ chunk (pre ++ rest) := by
  have hf : Fanout (Owes t₀ chunk) 0 [] := .zero
  obtain ⟨rest, hr⟩ := ho.extends hf (Nat.zero_le _)
  exact ⟨prepareEvents chunk ++ rest, by simpa using hr⟩

private theorem Opening.extends_thread {pre σ : List Event} {m : Nat} {υ : List ClientEvent}
    {pc : ClientPc} {t' : Table} (ho : Opening chunk pre)
    (hf : Fanout (ThreadTrace env t₀ chunk) m σ)
    (hrun : ThreadRun env t₀ chunk (m + 1) υ pc t') (hlt : m < (t₀ 0).clientNum) :
    ∃ rest, Served t₀ chunk
      (pre ++ prepareEvents chunk ++ σ ++ υ.map (.client m (m + 1)) ++ rest) := by
  obtain ⟨υ', hu⟩ := hrun.extends
  have hf' := hf.mono (fun _ _ hu hl ↦ hu.offered hl)
  obtain ⟨rest, hr⟩ := ho.extends (.succ m σ _ hf' hu) hlt
  exact ⟨υ'.map (.client m (m + 1)) ++ rest, by simpa using hr⟩

/-- The trace of an unfinished chunk begins the trace of a served one. -/
theorem Stage.extends {sure : Prop} {p : Proc} {cur : List Event}
    (h : Stage env sure t₀ p cur) :
    cur = [] ∨ cur = [.closed] ∨
      ∃ chunk rest, cur.head? = some (.recv chunk) ∧ Served t₀ chunk (cur ++ rest) := by
  have busy (chunk : List UInt8) {cur : List Event} (hhead : cur.head? = some (.recv chunk))
      (hs : ∃ rest, Served t₀ chunk (cur ++ rest)) :
      cur = [] ∨ cur = [.closed] ∨
        ∃ chunk rest, cur.head? = some (.recv chunk) ∧ Served t₀ chunk (cur ++ rest) := by
    obtain ⟨rest, hs⟩ := hs
    exact .inr (.inr ⟨chunk, rest, hhead, hs⟩)
  cases h with
  | idle => exact .inl rfl
  | closed => exact .inr (.inl rfl)
  | running chunk hm hr hq hl hk =>
    refine busy chunk rfl ?_
    rcases hk with ⟨-, hk⟩ | ⟨-, hk⟩
    · exact ⟨_, .unrecorded _ hk ⟨[], by simp [Quiet], rfl⟩⟩
    · exact (Opening.playback hk).extends_start t₀
  | recording chunk ρ hm hq hl hk hr =>
    refine busy chunk rfl ?_
    generalize p.recorder.pc = pc at hr
    cases hr with
    | inside _ _ hquiet =>
      refine ⟨[.record (.returned none)], ?_⟩
      have hs : Served t₀ chunk _ := .unrecorded _ hk ⟨ρ, hquiet, rfl⟩
      simpa using hs
    | opened ρ' c path hquiet =>
      have ho : Opening chunk _ := .live _ hk ⟨ρ', c, path, hquiet, rfl⟩
      obtain ⟨rest, hs⟩ := ho.extends_start t₀
      exact ⟨.record (.write path chunk) :: rest, by simpa using hs⟩
  | preparing chunk pre hm hr hq hl ho => exact busy chunk ho.head (ho.extends_start t₀)
  | between chunk pre m σ hr ho hc hth hf hb =>
    have hle : m ≤ (t₀ 0).clientNum := by cases hb <;> omega
    exact busy chunk (by simp [ho.head])
      (ho.extends (hf.mono (fun _ _ hu hl ↦ hu.offered hl)) hle)
  | working chunk pre m σ υ pc t hr ho hc hth hf hb hu hi hlt hx ht hrun =>
    exact busy chunk (by simp [ho.head])
      (ho.extends_thread hf ⟨p.param, t, ht, hc, hi, hrun⟩ hlt)
  | missing chunk pre m σ hs hr ho hth hf hb hu hlt =>
    exact busy chunk (by simp [ho.head])
      (ho.extends (hf.mono (fun _ _ hu hl ↦ hu.offered hl)) (Nat.le_of_lt hlt))
  | dead chunk pre m σ υ t' hm hr hq ho hf hrun hlt =>
    exact busy chunk (by simp [ho.head]) (ho.extends_thread hf hrun hlt)

/-- The end of a run: nothing is left of the last chunk, or the connection is closed, or a
chunk is under way that has been served so far and, when live, will be. -/
inductive Underway (env : Env) (t : Table) (p : Proc) : List Event → Prop where
  | waiting (h : p.Waiting) : Underway env t p []
  | closed : Underway env t p [.closed]
  | busy (chunk : List UInt8) (cur rest : List Event) (hc : cur.head? = some (.recv chunk))
      (hs : Served t chunk (cur ++ rest))
      (hi : IsLive chunk → (process env).Inevitably (fun _ ↦ True) (Act.Creates True)
        (fun p ↦ p.main = .recv) p) : Underway env t p cur

/-- Receive one, send many. However main and the client threads interleave, whatever
`connect` and `send` answer and whichever lock files come and go, a run is a sequence of
chunks, each served as `Served` says and each on its own; the last may be unfinished. -/
theorem receive_one_send_many {p₀ p : Proc} {τ : List Event} (h₀ : p₀.Waiting)
    (h : (process env).RunIn (fun _ _ a ↦ a.Creates True) p₀ τ p) :
    ∃ (done : List (List UInt8 × List Event)) (cur : List Event),
      τ = (done.map Prod.snd).flatten ++ cur ∧
      (∀ c ∈ done, Served p₀.tcpInfo c.1 c.2) ∧ Underway env p₀.tcpInfo p cur := by
  obtain ⟨hag, done, cur, rfl, hdone, hst⟩ := chunked_of_run h₀ h
  refine ⟨done, cur, rfl, fun c hc ↦ (hdone c hc).served, ?_⟩
  rcases hst.extends with rfl | rfl | ⟨chunk, rest, hhead, hs⟩
  · exact .waiting hst.waiting
  · exact .closed
  · exact .busy chunk cur rest hhead hs
      (fun hl ↦ Delivering.inevitably ⟨hag, chunk, cur, hl, hhead, hst⟩)

/-- The BD chunk `EB`, recorded and sent to the one client of the table. -/
theorem receive_one_send_many_one_client :
    let env : Env := ⟨['d'], fun _ ↦ ['1']⟩
    let t : Table := fun i ↦ if i = 0 then { clientNum := 1 } else { address := ['c'] }
    ∃ τ p, (process env).RunIn (fun _ _ a ↦ a.Creates True) (Proc.forked t 0) τ p ∧
      (Event.client 0 1 (.send 5 [0xEB] (.sent 1)) ∈ τ ∧ p.main = .recv) ∧
      ∃ (done : List (List UInt8 × List Event)) (cur : List Event),
        τ = (done.map Prod.snd).flatten ++ cur ∧
        (∀ c ∈ done, Served t c.1 c.2) ∧ Underway env t p cur := by
  intro env t
  let w : World := ⟨∅, ⟨{env.dayDir 0}, fun _ ↦ none⟩⟩
  let main : World × Act := (w, .main {})
  let client : World × Act := (w, .client 0 { socket := .connected 5, send := .sent 1 })
  let acts : List (World × Act) := (w, .main { chunk := some [0xEB] }) ::
    List.replicate 11 main ++ List.replicate 6 client ++ List.replicate 4 main
  obtain ⟨τ, p, hrun, hobs⟩ := Machine.exec_observe (process env)
    (fun _ _ a ↦ decide (a.Creates True)) (Proc.forked t 0) acts
    (fun p τ ↦ Event.client 0 1 (.send 5 [0xEB] (.sent 1)) ∈ τ ∧ p.main = .recv)
    (fun _ _ _ ha ↦ of_decide_eq_true ha) (by decide)
  exact ⟨τ, p, hrun, hobs, receive_one_send_many (Proc.forked_waiting t 0) hrun⟩

end DupDistribute.Distribute

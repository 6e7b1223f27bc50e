import DupDistribute.Distribute.Handover

/-!
# What a client thread leaves behind

Facts that hold along every run of one client thread, whatever the chunk, and the lemma that
brings them back to the process: every client event of a run belongs to the run of one
thread, for one of the chunks received, under the index of a client.
-/

namespace DupDistribute.Distribute

open DupDistribute.Base DupDistribute.Wire DupDistribute.Record DupDistribute.Playback

variable {env : Env} {t₀ : Table} {chunk : List UInt8} {param : ThreadParam}

/-! ### One thread -/

/-- The byte copy an event of a client thread makes. -/
def ClientEvent.copied : ClientEvent → Option Copy
  | .copy c => some c
  | .playback (.copy c) => some c
  | _ => none

/-- The client is one that the request came from. -/
def Table.Requester (t : Table) (i : Nat) : Prop := (t i).address = (t 0).acceptedAddress

/-- Some lock-file check of the trace found no lock file. -/
def FoundUnlocked (υ : List ClientEvent) : Prop :=
  ∃ w path, ClientEvent.access w path ∈ υ ∧ path ∉ w

/-- What a thread for client `i` has done when it is at `pc`. -/
structure ThreadFacts (t₀ : Table) (chunk : List UInt8) (i : Nat) (υ : List ClientEvent)
    (pc : ClientPc) : Prop where
  copies : ∀ e ∈ υ, ∀ c ∈ e.copied, c = ⟨sizeofReplayProtocol, sizeofReplayProtocol⟩ ∨
    c = ⟨sizeofReplayProtocol, chunk.length⟩ ∧ IsPlayback chunk ∧ t₀.Requester i
  session : ∀ fd s, pc = .playback fd s → s.index = i ∧ s.request = .ofChunk chunk ∧
    IsPlayback chunk ∧ t₀.Requester i ∧ s.pc.Going
  sends : ((∃ fd, pc = .send fd) ∨ ∃ fd bytes res, ClientEvent.send fd bytes res ∈ υ) ↔
    FoundUnlocked υ
  replays : ∀ fd buffer res, ClientEvent.playback (.scan (.send fd buffer res)) ∈ υ →
    t₀.Requester i ∧ ∃ path, ClientEvent.playback (.scan (.fopen path (some buffer))) ∈ υ

/-- A send is pending, or was made. -/
private def Sends (υ : List ClientEvent) (pc : ClientPc) : Prop :=
  (∃ fd, pc = .send fd) ∨ ∃ fd bytes res, ClientEvent.send fd bytes res ∈ υ

/-- A step keeps the facts when its own events respect them and every send it makes or
leaves pending comes from its own check or was pending before. -/
private theorem ThreadFacts.snoc {i : Nat} {υ es : List ClientEvent} {pc pc' : ClientPc}
    (hf : ThreadFacts t₀ chunk i υ pc)
    (copies : ∀ e ∈ es, ∀ c ∈ e.copied, c = ⟨sizeofReplayProtocol, sizeofReplayProtocol⟩ ∨
      c = ⟨sizeofReplayProtocol, chunk.length⟩ ∧ IsPlayback chunk ∧ t₀.Requester i)
    (session : ∀ fd s, pc' = .playback fd s → s.index = i ∧ s.request = .ofChunk chunk ∧
      IsPlayback chunk ∧ t₀.Requester i ∧ s.pc.Going)
    (sends : Sends es pc' ↔ FoundUnlocked es ∨ ∃ fd, pc = .send fd)
    (replays : ∀ fd buffer res, ClientEvent.playback (.scan (.send fd buffer res)) ∈ es →
      t₀.Requester i ∧ ∃ path, ClientEvent.playback (.scan (.fopen path (some buffer))) ∈ es) :
    ThreadFacts t₀ chunk i (υ ++ es) pc' := by
  refine ⟨?_, session, ?_, ?_⟩
  · intro e he
    rcases List.mem_append.mp he with he | he
    · exact hf.copies e he
    · exact copies e he
  · have hu : FoundUnlocked (υ ++ es) ↔ FoundUnlocked υ ∨ FoundUnlocked es := by
      simp only [FoundUnlocked, List.mem_append, or_and_right, exists_or]
    rw [hu, ← hf.sends]
    simp only [Sends] at sends
    simp only [List.mem_append, exists_or]
    rw [or_left_comm, sends, or_comm, or_assoc, or_comm]
  · intro fd buffer res hm
    rcases List.mem_append.mp hm with hm | hm
    · obtain ⟨hr, path, hp⟩ := hf.replays fd buffer res hm
      exact ⟨hr, path, List.mem_append_left _ hp⟩
    · obtain ⟨hr, path, hp⟩ := replays fd buffer res hm
      exact ⟨hr, path, List.mem_append_right _ hp⟩

private theorem threadFacts_step {υ es : List ClientEvent} {pc pc' : ClientPc} {t t' : Table}
    {w w' : Shm} {a : ClientInput} (hc : param.Carries chunk) (hag : t.Agrees t₀)
    (hf : ThreadFacts t₀ chunk param.clientIndex υ pc)
    (h : clientStep env param w (pc, t) a = some ((pc', t'), w', es)) :
    ThreadFacts t₀ chunk param.clientIndex (υ ++ es) pc' := by
  cases clientDoes_of_step h with
  | connected | notConnected | skip | close | unlock | locked | send =>
    refine hf.snoc ?_ ?_ ?_ ?_ <;> simp_all [ClientEvent.copied, Sends, FoundUnlocked]
  | unlocked fd hw =>
    refine hf.snoc (by simp [ClientEvent.copied]) (by simp) ?_ (by simp)
    simp [Sends, FoundUnlocked, hw]
  | enter fd hh ha =>
    rw [replayOf_eq hc.buf (.inl rfl), ReplayProtocol.ofChunk_head] at hh
    have hreq : t₀.Requester param.clientIndex := by
      rw [Table.Requester, ← (hag _).1, ha, (hag 0).2.2.1]
    rw [hc.bufSize, replayOf_eq hc.buf (.inr rfl)]
    refine hf.snoc ?_ ?_ (by simp [Sends, FoundUnlocked]) (by simp)
    · simp [ClientEvent.copied, hh, hreq]
    · intro fd' s hs
      obtain ⟨-, rfl⟩ := ClientPc.playback.inj hs
      exact ⟨rfl, rfl, hh, hreq, Session.enter_going _ _⟩
  | session fd s s' _ es' hs =>
    obtain ⟨hindex, hrequest, hcopy, hsend⟩ := Session.does_frame hs
    obtain ⟨hi, hr, hp, hreq, -⟩ := hf.session fd s rfl
    refine hf.snoc ?_ ?_ ?_ ?_
    · intro e he c hce
      obtain ⟨e', he', rfl⟩ := List.mem_map.mp he
      cases e' with
      | copy c' => exact absurd he' (hcopy c')
      | _ => simp [ClientEvent.copied] at hce
    · intro fd' s'' hpc
      simp only [ClientPc.ofSession] at hpc
      split at hpc
      · cases hpc
      · cases hpc
      · obtain ⟨-, rfl⟩ := ClientPc.playback.inj hpc
        exact ⟨hindex.trans hi, hrequest.trans hr, hp, hreq, Session.does_going hs⟩
    · have hpc (fd' : Int) : ClientPc.ofSession fd s' ≠ .send fd' := by
        simp only [ClientPc.ofSession]
        split <;> simp
      simp [Sends, FoundUnlocked, hpc]
    · intro fd' buffer res hm
      simp only [List.mem_map, ClientEvent.playback.injEq, exists_eq_right] at hm ⊢
      exact ⟨hreq, hsend fd' buffer res hm⟩

/-- The facts hold along every run of a thread. -/
theorem ThreadRun.facts {i : Nat} {υ : List ClientEvent} {pc : ClientPc} {t' : Table}
    (h : ThreadRun env t₀ chunk i υ pc t') : ThreadFacts t₀ chunk i υ pc := by
  obtain ⟨param, t, ht, hc, rfl, hrun⟩ := h
  have hinv := hrun.invariant
    (fun υ s ↦ s.2.Agrees t₀ ∧ ThreadFacts t₀ chunk param.clientIndex υ s.1)
    ⟨ht, by simp, by simp, by simp [FoundUnlocked], by simp⟩
    (fun _ _ _ _ _ _ _ hf _ hs ↦
      ⟨clientStep_agrees hf.1 hs, threadFacts_step hc hf.1 hf.2 hs⟩)
  exact hinv.2

/-! ### Back to the process -/

/-- A client event of the trace belongs to the run of a thread, all of whose events are in
the trace; the thread has exited once the chunk is `done`. -/
def Threaded (env : Env) (t₀ : Table) (done : Prop) (chunk : List UInt8) (σ : List Event) :
    Prop :=
  ∀ k i e, Event.client k i e ∈ σ → ∃ υ pc t', ThreadRun env t₀ chunk i υ pc t' ∧ e ∈ υ ∧
    (∀ e' ∈ υ, Event.client k i e' ∈ σ) ∧ (1 ≤ i ∧ i ≤ (t₀ 0).clientNum) ∧
    (done → pc = .exited)

/-- Every copy outside the client threads fills a header struct, or is the one of the chunk
into the parameter block. -/
def Copied (chunk : List UInt8) (σ : List Event) : Prop :=
  ∀ c, Event.copy c ∈ σ → c.length = c.capacity ∨ c = ⟨MAX_BUFFER_SIZE, chunk.length⟩

/-- The trace of one chunk, finished if `done`. -/
structure TraceOf (env : Env) (t₀ : Table) (done : Prop) (chunk : List UInt8)
    (σ : List Event) : Prop where
  received : Event.recv chunk ∈ σ
  copies : Copied chunk σ
  threads : Threaded env t₀ done chunk σ

private theorem Threaded.append {done : Prop} {σ σ' : List Event}
    (h : Threaded env t₀ done chunk σ) (h' : Threaded env t₀ done chunk σ') :
    Threaded env t₀ done chunk (σ ++ σ') := by
  intro k i e he
  rcases List.mem_append.mp he with he | he
  · obtain ⟨υ, pc, t', hr, hm, hall, hi⟩ := h k i e he
    exact ⟨υ, pc, t', hr, hm, fun e' he' ↦ List.mem_append_left _ (hall e' he'), hi⟩
  · obtain ⟨υ, pc, t', hr, hm, hall, hi⟩ := h' k i e he
    exact ⟨υ, pc, t', hr, hm, fun e' he' ↦ List.mem_append_right _ (hall e' he'), hi⟩

private theorem Threaded.single {done : Prop} {m : Nat} {υ : List ClientEvent} {pc : ClientPc}
    {t' : Table} (hr : ThreadRun env t₀ chunk (m + 1) υ pc t') (hlt : m < (t₀ 0).clientNum)
    (hd : done → pc = .exited) :
    Threaded env t₀ done chunk (υ.map (.client m (m + 1))) := by
  intro k i e he
  obtain ⟨e', he', h⟩ := List.mem_map.mp he
  obtain ⟨rfl, rfl, rfl⟩ := Event.client.inj h
  exact ⟨υ, pc, t', hr, he', fun _ hm ↦ List.mem_map_of_mem hm, ⟨by omega, hlt⟩, hd⟩

private theorem Fanout.threaded {done : Prop} {m : Nat} {σ : List Event}
    (h : Fanout (ThreadTrace env t₀ chunk) m σ) (hle : m ≤ (t₀ 0).clientNum) :
    Threaded env t₀ done chunk σ := by
  induction h with
  | zero => simp [Threaded]
  | succ m σ υ _ hu ih =>
    obtain ⟨t', hr⟩ := hu
    exact (ih (by omega)).append (.single hr hle (fun _ ↦ rfl))

private theorem Fanout.copied {P : Nat → List ClientEvent → Prop} {m : Nat} {σ : List Event}
    (h : Fanout P m σ) (c : Copy) : Event.copy c ∉ σ := by
  induction h with
  | zero => simp
  | succ m σ υ _ _ ih => simp [ih]

private theorem receiveEvents_traceOf (done : Prop) (chunk : List UInt8) :
    TraceOf env t₀ done chunk (receiveEvents chunk) := by
  refine ⟨by simp [receiveEvents], ?_, ?_⟩
  · intro c hc
    simp only [receiveEvents, List.mem_cons, Event.copy.injEq, reduceCtorEq, List.not_mem_nil,
      or_false, false_or] at hc
    rcases hc with rfl | rfl | rfl <;> exact .inl rfl
  · intro k i e he
    simp [receiveEvents] at he

private theorem TraceOf.append {done : Prop} {σ σ' : List Event}
    (h : TraceOf env t₀ done chunk σ) (hc : Copied chunk σ')
    (ht : Threaded env t₀ done chunk σ') : TraceOf env t₀ done chunk (σ ++ σ') := by
  refine ⟨List.mem_append_left _ h.received, ?_, h.threads.append ht⟩
  intro c hm
  rcases List.mem_append.mp hm with hm | hm
  · exact h.copies c hm
  · exact hc c hm

private theorem TraceOf.record {done : Prop} (chunk : List UInt8) (ρ : List Record.Event) :
    TraceOf env t₀ done chunk (receiveEvents chunk ++ ρ.map .record) :=
  (receiveEvents_traceOf done chunk).append (by simp [Copied]) (by simp [Threaded])

private theorem Opening.traceOf {done : Prop} {pre : List Event} (h : Opening chunk pre) :
    TraceOf env t₀ done chunk (pre ++ prepareEvents chunk) := by
  refine TraceOf.append ?_ (by simp [Copied, prepareEvents]) (by simp [Threaded, prepareEvents])
  cases h with
  | live ρ => exact .record chunk ρ
  | playback => exact receiveEvents_traceOf done chunk

private theorem Opening.fanned {done : Prop} {pre σ : List Event} {m : Nat}
    (ho : Opening chunk pre) (hf : Fanout (ThreadTrace env t₀ chunk) m σ)
    (hle : m ≤ (t₀ 0).clientNum) :
    TraceOf env t₀ done chunk (pre ++ prepareEvents chunk ++ σ) :=
  ho.traceOf.append (fun c hc ↦ absurd hc (hf.copied c)) (hf.threaded hle)

/-- The trace of a handled chunk. -/
theorem Handled.traceOf {sure done : Prop} {σ : List Event}
    (h : Handled env sure t₀ chunk σ) : TraceOf env t₀ done chunk σ := by
  cases h with
  | useless => exact receiveEvents_traceOf done chunk
  | unrecorded ρ => exact .record chunk ρ
  | fanned pre m σ ho hf hm => exact ho.fanned hf (by omega)

/-- The trace of the present chunk. -/
theorem Stage.traceOf {sure : Prop} {p : Proc} {cur : List Event}
    (h : Stage env sure t₀ p cur) :
    cur = [] ∨ cur = [.closed] ∨ ∃ chunk, TraceOf env t₀ (p.main = .recv) chunk cur := by
  cases h with
  | idle => exact .inl rfl
  | closed => exact .inr (.inl rfl)
  | running chunk => exact .inr (.inr ⟨chunk, receiveEvents_traceOf _ chunk⟩)
  | recording chunk ρ => exact .inr (.inr ⟨chunk, .record chunk ρ⟩)
  | preparing chunk pre hm hr hq hl ho =>
    refine .inr (.inr ⟨chunk, ?_⟩)
    cases ho with
    | live ρ => exact .record chunk ρ
    | playback => exact receiveEvents_traceOf _ chunk
  | between chunk pre m σ hr ho hc hth hf hb =>
    have hle : m ≤ (t₀ 0).clientNum := by cases hb <;> omega
    exact .inr (.inr ⟨chunk, ho.fanned hf hle⟩)
  | missing chunk pre m σ hs hr ho hth hf hb hu hlt =>
    exact .inr (.inr ⟨chunk, ho.fanned hf (Nat.le_of_lt hlt)⟩)
  | working chunk pre m σ υ pc t hr ho hc hth hf hb hu hi hlt hx ht hrun =>
    have hm : p.main ≠ .recv := by cases hb <;> simp_all
    exact .inr (.inr ⟨chunk, (ho.fanned hf (Nat.le_of_lt hlt)).append (by simp [Copied])
      (.single ⟨p.param, t, ht, hc, hi, hrun⟩ hlt (fun hd ↦ absurd hd hm))⟩)
  | dead chunk pre m σ υ t' hm hr hq ho hf hrun hlt =>
    exact .inr (.inr ⟨chunk, (ho.fanned hf (Nat.le_of_lt hlt)).append (by simp [Copied])
      (.single hrun hlt (fun hd ↦ by simp [hm] at hd))⟩)

/-- Every event of a run belongs to the trace of a chunk that was received. -/
theorem Chunked.event {sure : Prop} {p : Proc} {τ : List Event} (h : Chunked env sure t₀ τ p)
    {e : Event} (he : e ∈ τ) (hne : e ≠ .closed) :
    ∃ chunk σ, TraceOf env t₀ (p.main = .recv) chunk σ ∧ e ∈ σ ∧ σ ⊆ τ := by
  obtain ⟨-, done, cur, rfl, hdone, hst⟩ := h
  rcases List.mem_append.mp he with he | he
  · obtain ⟨σ, hσ, he⟩ := List.mem_flatten.mp he
    obtain ⟨c, hc, rfl⟩ := List.mem_map.mp hσ
    refine ⟨c.1, c.2, (hdone c hc).traceOf, he, fun e' he' ↦ ?_⟩
    exact List.mem_append_left _ (List.mem_flatten.mpr ⟨c.2, hσ, he'⟩)
  · rcases hst.traceOf with rfl | rfl | ⟨chunk, ht⟩
    · simp at he
    · exact absurd (List.mem_singleton.mp he) hne
    · exact ⟨chunk, cur, ht, he, fun e' he' ↦ List.mem_append_right _ he'⟩

/-- Thread `j` is the one that works: main waits for it, the index is its own, and it got
where it is for a chunk that was received. -/
structure Proc.Working (env : Env) (t₀ : Table) (p : Proc) (j : Nat) (cur : List Event) :
    Prop where
  alone : ∀ k, k ≠ j → p.threads k = .absent ∨ p.threads k = .exited
  blocked : p.Blocked (t₀ 0).clientNum j
  index : p.param.clientIndex = j + 1
  bounded : j < (t₀ 0).clientNum
  run : ∃ chunk υ, Event.recv chunk ∈ cur ∧
    ThreadRun env t₀ chunk (j + 1) υ (p.threads j) p.tcpInfo

/-- A thread that can move works alone. -/
theorem Stage.working_of_active {sure : Prop} {p : Proc} {cur : List Event} {j : Nat}
    (h : Stage env sure t₀ p cur) (hj : ¬ (p.threads j = .absent ∨ p.threads j = .exited)) :
    p.Working env t₀ j cur := by
  cases h with
  | idle hw => exact absurd (hw.resting j) hj
  | closed _ hq | running _ _ _ hq | recording _ _ _ hq | preparing _ _ _ _ hq =>
    exact absurd (hq j) hj
  | between _ _ _ _ _ _ _ hth => exact absurd (hth.resting j) hj
  | missing _ _ _ _ _ _ _ hth => exact absurd (hth.resting j) hj
  | dead _ _ _ _ _ _ _ _ hq => exact absurd (hq j) hj
  | working chunk pre m σ υ pc t hr ho hc hth hf hb hu hi hlt hx ht hrun =>
    obtain rfl : j = m := by
      by_contra hne
      exact hj (hth.other hne)
    refine ⟨fun k hk ↦ hth.other hk, hb, hi, hlt, chunk, υ, ?_, p.param, t, ht, hc, hi, ?_⟩
    · have hm : Event.recv chunk ∈ pre := List.mem_of_mem_head? ho.head
      simp [hm]
    · rw [hth.here]
      exact hrun

end DupDistribute.Distribute

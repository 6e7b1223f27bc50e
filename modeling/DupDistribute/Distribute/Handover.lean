import DupDistribute.Distribute.Process

/-!
# The hand-over between main and its client threads

All client threads of a process read one parameter block whose index main overwrites
(`util.c:231-244`). Main locks `mute` before it sets the index, and the thread created for
that index unlocks it at its end, so that one thread at a time works, under its own index.
`Stage` says this for every program point of main, together with the events that the chunk
being handled has left so far. From it a whole run splits into one trace per chunk.
-/

namespace DupDistribute.Distribute

open DupDistribute.Base DupDistribute.Wire DupDistribute.Record DupDistribute.Playback

/-! ### What a process never writes -/

/-- Tables that differ at most in the descriptors and in the flag. -/
def Table.Agrees (t t' : Table) : Prop :=
  ∀ i, (t i).address = (t' i).address ∧ (t i).port = (t' i).port ∧
    (t i).acceptedAddress = (t' i).acceptedAddress ∧ (t i).clientNum = (t' i).clientNum

/-- Every table agrees with itself. -/
theorem Table.Agrees.refl (t : Table) : t.Agrees t := fun _ ↦ ⟨rfl, rfl, rfl, rfl⟩

/-- A new descriptor keeps the agreement. -/
theorem Table.Agrees.setAcceptfd {t t₀ : Table} (h : t.Agrees t₀) (index : Nat) (fd : Int) :
    (t.setAcceptfd index fd).Agrees t₀ := by
  intro i
  by_cases hi : i = index
  · subst hi
    simpa [Table.setAcceptfd] using h i
  · simpa [Table.setAcceptfd, hi] using h i

/-- A new flag keeps the agreement. -/
theorem Table.Agrees.setFlag {t t₀ : Table} (h : t.Agrees t₀) (flag : Nat) :
    (t.setFlag flag).Agrees t₀ := by
  intro i
  by_cases hi : i = 0
  · subst hi
    simpa [Table.setFlag] using h 0
  · simpa [Table.setFlag, hi] using h i

/-- A client thread writes a descriptor at most. -/
theorem clientStep_agrees {env : Env} {param : ThreadParam} {w w' : Shm} {a : ClientInput}
    {pc pc' : ClientPc} {t t' t₀ : Table} {es : List ClientEvent} (hag : t.Agrees t₀)
    (h : clientStep env param w (pc, t) a = some ((pc', t'), w', es)) : t'.Agrees t₀ := by
  cases clientDoes_of_step h with
  | connected fd => exact hag.setAcceptfd _ fd
  | _ => exact hag

/-! ### Traces of a chunk -/

/-- Recording events before `initDataRecord` has opened a file or returned. -/
def Quiet (ρ : List Record.Event) : Prop :=
  ∀ e ∈ ρ, (∀ c path, e ≠ .fopen c path) ∧ (∀ r, e ≠ .returned r) ∧
    ∀ path bytes, e ≠ .write path bytes

/-- `initDataRecord` returned a file, and the chunk was written to it once. -/
def Recorded (chunk : List UInt8) (ρ : List Record.Event) : Prop :=
  ∃ ρ' c path, Quiet ρ' ∧
    ρ = ρ' ++ [.fopen c path, .returned (some path), .write path chunk]

/-- `initDataRecord` returned no file, and nothing was opened or written. -/
def Unrecorded (ρ : List Record.Event) : Prop :=
  ∃ ρ', Quiet ρ' ∧ ρ = ρ' ++ [.returned none]

/-- Recording under way: inside `initDataRecord`, or back from it with a file. -/
inductive Recording : List Record.Event → Record.Pc → Prop where
  | inside (ρ : List Record.Event) (pc : Record.Pc) (hq : Quiet ρ) (hi : pc ≠ .idle)
      (ho : ∀ path, pc ≠ .opened path) : Recording ρ pc
  | opened (ρ : List Record.Event) (c : Call) (path : CString) (hq : Quiet ρ) :
      Recording (ρ ++ [.fopen c path, .returned (some path)]) (.opened path)

/-- What precedes the creation of threads: a live chunk is recorded, a request is not. -/
inductive Opening (chunk : List UInt8) : List Event → Prop where
  | live (ρ : List Record.Event) (h : IsLive chunk) (hr : Recorded chunk ρ) :
      Opening chunk (receiveEvents chunk ++ ρ.map .record)
  | playback (h : IsPlayback chunk) : Opening chunk (receiveEvents chunk)

/-- The chunk is copied into the parameter block, `util.c:227`. -/
def prepareEvents (chunk : List UInt8) : List Event := [.copy ⟨MAX_BUFFER_SIZE, chunk.length⟩]

/-- The first `m` clients one after the other: thread `k` works for client `k + 1`, under
that index, and leaves events that `P` admits for it. -/
inductive Fanout (P : Nat → List ClientEvent → Prop) : Nat → List Event → Prop where
  | zero : Fanout P 0 []
  | succ (m : Nat) (σ : List Event) (υ : List ClientEvent) (hf : Fanout P m σ)
      (hu : P (m + 1) υ) : Fanout P (m + 1) (σ ++ υ.map (.client m (m + 1)))

/-- Threads that leave stronger traces also leave weaker ones. -/
theorem Fanout.mono {P Q : Nat → List ClientEvent → Prop} {m : Nat} {σ : List Event}
    (hpq : ∀ i υ, P i υ → Q i υ) (h : Fanout P m σ) : Fanout Q m σ := by
  induction h with
  | zero => exact .zero
  | succ m σ υ _ hu ih => exact .succ m σ υ ih (hpq _ _ hu)

/-- A parameter block that carries the chunk. -/
structure ThreadParam.Carries (param : ThreadParam) (chunk : List UInt8) : Prop where
  buf : Holds param.buf chunk
  bufSize : param.bufSize = chunk.length
  bounded : chunk.length ≤ MAX_BUFFER_SIZE

/-- A thread for client `i` got to `pc` with events `υ`, all under that index. -/
def ThreadRun (env : Env) (t₀ : Table) (chunk : List UInt8) (i : Nat) (υ : List ClientEvent)
    (pc : ClientPc) (t' : Table) : Prop :=
  ∃ (param : ThreadParam) (t : Table), t.Agrees t₀ ∧ param.Carries chunk ∧
    param.clientIndex = i ∧ (client env param).Open (.start, t) υ (pc, t')

/-- The trace of a thread that has run to its end. -/
def ThreadTrace (env : Env) (t₀ : Table) (chunk : List UInt8) (i : Nat)
    (υ : List ClientEvent) : Prop :=
  ∃ t', ThreadRun env t₀ chunk i υ .exited t'

/-- The trace of a chunk that has been handled. The thread of the last client may be missing,
which `sure` excludes. -/
inductive Handled (env : Env) (sure : Prop) (t₀ : Table) (chunk : List UInt8) :
    List Event → Prop where
  | useless (hl : ¬ IsLive chunk) (hp : ¬ IsPlayback chunk) :
      Handled env sure t₀ chunk (receiveEvents chunk)
  | unrecorded (ρ : List Record.Event) (hl : IsLive chunk) (hr : Unrecorded ρ) :
      Handled env sure t₀ chunk (receiveEvents chunk ++ ρ.map .record)
  | fanned (pre : List Event) (m : Nat) (σ : List Event) (ho : Opening chunk pre)
      (hf : Fanout (ThreadTrace env t₀ chunk) m σ)
      (hm : m = (t₀ 0).clientNum ∨ ¬ sure ∧ m + 1 = (t₀ 0).clientNum) :
      Handled env sure t₀ chunk (pre ++ prepareEvents chunk ++ σ)

/-! ### The invariant -/

/-- The receive buffer holds the chunk. -/
structure Proc.Loaded (p : Proc) (chunk : List UInt8) : Prop where
  buf : Holds p.receiveBuf chunk
  size : p.receiveSize = chunk.length
  bounded : chunk.length ≤ MAX_BUFFER_SIZE

/-- Threads before `m` have exited, thread `m` is at `pc`, and there are no later ones. -/
structure OneByOne (threads : Nat → ClientPc) (m : Nat) (pc : ClientPc) : Prop where
  before : ∀ j < m, threads j = .exited
  here : threads m = pc
  after : ∀ j, m < j → threads j = .absent

/-- Thread `m` moves. -/
theorem OneByOne.set {threads : Nat → ClientPc} {m : Nat} {pc : ClientPc}
    (h : OneByOne threads m pc) (pc' : ClientPc) :
    OneByOne (Function.update threads m pc') m pc' := by
  refine ⟨fun j hj ↦ ?_, Function.update_self .., fun j hj ↦ ?_⟩
  · rw [Function.update_of_ne (Nat.ne_of_lt hj)]
    exact h.before j hj
  · rw [Function.update_of_ne (Nat.ne_of_gt hj)]
    exact h.after j hj

/-- Thread `m` has exited, and the next one is not there yet. -/
theorem OneByOne.next {threads : Nat → ClientPc} {m : Nat}
    (h : OneByOne threads m .exited) : OneByOne threads (m + 1) .absent := by
  refine ⟨fun j hj ↦ ?_, h.after _ (Nat.lt_succ_self m), fun j hj ↦ h.after j (by omega)⟩
  rcases Nat.lt_succ_iff_lt_or_eq.mp hj with hj | rfl
  · exact h.before j hj
  · exact h.here

/-- Only thread `m` can be working. -/
theorem OneByOne.other {threads : Nat → ClientPc} {m j : Nat} {pc : ClientPc}
    (h : OneByOne threads m pc) (hj : j ≠ m) :
    threads j = .absent ∨ threads j = .exited := by
  rcases Nat.lt_or_gt_of_ne hj with hj | hj
  · exact .inr (h.before j hj)
  · exact .inl (h.after j hj)

/-- No thread is working while thread `m` is absent. -/
theorem OneByOne.resting {m : Nat} {p : Proc} (h : OneByOne p.threads m .absent) :
    p.Resting := by
  intro j
  by_cases hj : j = m
  · exact .inl (hj ▸ h.here)
  · exact h.other hj

/-- Main between two clients, after `m` of `n`: nobody but main holds `mute`. -/
inductive Proc.Between (n m : Nat) (p : Proc) : Prop where
  | lock (hm : p.main = .lock m) (hu : p.mute = false) (hle : m ≤ n)
  | setIndex (hm : p.main = .setIndex m) (hu : p.mute = true) (hlt : m < n)
  | create (hm : p.main = .create m) (hu : p.mute = true) (hlt : m < n)
      (hi : p.param.clientIndex = m + 1)
  | join (k : Nat) (hm : p.main = .join k) (hu : p.mute = false) (hk : k ≤ n) (he : m = n)
  | destroy (hm : p.main = .destroy) (he : m = n)

/-- Main while thread `m` holds `mute`: blocked at the next lock, or joining the threads. -/
inductive Proc.Blocked (n m : Nat) (p : Proc) : Prop where
  | lock (hm : p.main = .lock (m + 1))
  | join (k : Nat) (hm : p.main = .join k) (hk : k ≤ m) (he : m + 1 = n)

/-- Main after the creation of thread `m` has failed: it waits for `mute`, which it holds
itself, or goes on to the joins if there is no further client. -/
inductive Proc.Skipped (n m : Nat) (p : Proc) : Prop where
  | lock (hm : p.main = .lock (m + 1))
  | join (k : Nat) (hm : p.main = .join k) (hk : k ≤ n) (he : m + 1 = n)
  | destroy (hm : p.main = .destroy) (he : m + 1 = n)

/-- The state of a process and the trace of the chunk it is handling. A thread that
`pthread_create` did not make stays absent, which `sure` excludes. -/
inductive Stage (env : Env) (sure : Prop) (t₀ : Table) (p : Proc) : List Event → Prop where
  | idle (hw : p.Waiting) : Stage env sure t₀ p []
  | closed (hm : p.main = .closed) (hq : p.Resting) : Stage env sure t₀ p [.closed]
  | running (chunk : List UInt8) (hm : p.main = .run) (hr : p.recorder.pc = .idle)
      (hq : p.Resting) (hl : p.Loaded chunk)
      (hk : (p.tcpInfo 0).flag = DISTRIBUTE ∧ IsLive chunk ∨
        (p.tcpInfo 0).flag = PLAYBACK ∧ IsPlayback chunk) :
      Stage env sure t₀ p (receiveEvents chunk)
  | recording (chunk : List UInt8) (ρ : List Record.Event) (hm : p.main = .record)
      (hq : p.Resting) (hl : p.Loaded chunk) (hk : IsLive chunk)
      (hr : Recording ρ p.recorder.pc) :
      Stage env sure t₀ p (receiveEvents chunk ++ ρ.map .record)
  | preparing (chunk : List UInt8) (pre : List Event) (hm : p.main = .prepare)
      (hr : p.recorder.pc = .idle) (hq : p.Resting) (hl : p.Loaded chunk)
      (ho : Opening chunk pre) : Stage env sure t₀ p pre
  | between (chunk : List UInt8) (pre : List Event) (m : Nat) (σ : List Event)
      (hr : p.recorder.pc = .idle) (ho : Opening chunk pre) (hc : p.param.Carries chunk)
      (hth : OneByOne p.threads m .absent) (hf : Fanout (ThreadTrace env t₀ chunk) m σ)
      (hb : p.Between (t₀ 0).clientNum m) :
      Stage env sure t₀ p (pre ++ prepareEvents chunk ++ σ)
  | working (chunk : List UInt8) (pre : List Event) (m : Nat) (σ : List Event)
      (υ : List ClientEvent) (pc : ClientPc) (t : Table) (hr : p.recorder.pc = .idle)
      (ho : Opening chunk pre) (hc : p.param.Carries chunk) (hth : OneByOne p.threads m pc)
      (hf : Fanout (ThreadTrace env t₀ chunk) m σ) (hb : p.Blocked (t₀ 0).clientNum m)
      (hu : p.mute = true) (hi : p.param.clientIndex = m + 1) (hlt : m < (t₀ 0).clientNum)
      (hx : pc ≠ .exited) (ht : t.Agrees t₀)
      (hrun : (client env p.param).Open (.start, t) υ (pc, p.tcpInfo)) :
      Stage env sure t₀ p (pre ++ prepareEvents chunk ++ σ ++ υ.map (.client m (m + 1)))
  | missing (chunk : List UInt8) (pre : List Event) (m : Nat) (σ : List Event) (hs : ¬ sure)
      (hr : p.recorder.pc = .idle) (ho : Opening chunk pre) (hth : OneByOne p.threads m .absent)
      (hf : Fanout (ThreadTrace env t₀ chunk) m σ) (hb : p.Skipped (t₀ 0).clientNum m)
      (hu : p.mute = true) (hlt : m < (t₀ 0).clientNum) :
      Stage env sure t₀ p (pre ++ prepareEvents chunk ++ σ)
  | dead (chunk : List UInt8) (pre : List Event) (m : Nat) (σ : List Event)
      (υ : List ClientEvent) (t' : Table) (hm : p.main = .dead) (hr : p.recorder.pc = .idle)
      (hq : p.Resting) (ho : Opening chunk pre) (hf : Fanout (ThreadTrace env t₀ chunk) m σ)
      (hrun : ThreadRun env t₀ chunk (m + 1) υ .crashed t') (hlt : m < (t₀ 0).clientNum) :
      Stage env sure t₀ p (pre ++ prepareEvents chunk ++ σ ++ υ.map (.client m (m + 1)))

/-- The trace of a chunk begins with its receipt. -/
theorem Opening.head {chunk : List UInt8} {pre : List Event} (h : Opening chunk pre) :
    pre.head? = some (.recv chunk) := by
  cases h <;> rfl

/-- Between two chunks the process waits for the next. -/
theorem Stage.waiting {env : Env} {sure : Prop} {t₀ : Table} {p : Proc}
    (h : Stage env sure t₀ p []) : p.Waiting := by
  have busy (chunk : List UInt8) {cur : List Event} (hcur : [] = cur)
      (he : cur.head? = some (.recv chunk)) : p.Waiting := by
    rw [← hcur] at he
    cases he
  generalize hcur : ([] : List Event) = cur at h
  cases h with
  | idle hw => exact hw
  | closed => cases hcur
  | running chunk => exact busy chunk hcur rfl
  | recording chunk => exact busy chunk hcur rfl
  | preparing chunk pre hm hr hq hl ho => exact busy chunk hcur ho.head
  | between chunk pre m σ hr ho => exact busy chunk hcur (by simp [ho.head])
  | working chunk pre m σ υ pc t hr ho => exact busy chunk hcur (by simp [ho.head])
  | missing chunk pre m σ hs hr ho => exact busy chunk hcur (by simp [ho.head])
  | dead chunk pre m σ υ t' hm hr hq ho => exact busy chunk hcur (by simp [ho.head])

/-! ### One step -/

variable {env : Env} {sure : Prop} {t₀ : Table} {p p' : Proc} {w w' : World}
  {cur es : List Event}

/-- After a step: still the same chunk, or the chunk is done and the next may come. -/
def Advances (env : Env) (sure : Prop) (t₀ : Table) (p' : Proc) (cur : List Event) : Prop :=
  Stage env sure t₀ p' cur ∨ ∃ chunk, Handled env sure t₀ chunk cur ∧ Stage env sure t₀ p' []

/-- A thread that is not there, or has exited, takes no step. -/
theorem clientStep_resting {pc : ClientPc} (hpc : pc = .absent ∨ pc = .exited)
    (param : ThreadParam) (w : Shm) (t : Table) (a : ClientInput) :
    clientStep env param w (pc, t) a = none := by
  rcases hpc with rfl | rfl <;> rfl

/-- Without a working thread only main can move. -/
theorem Proc.Resting.main_step {a : Act} (hq : p.Resting)
    (h : p.step env w a = some (p', w', es)) :
    ∃ i, a = .main i ∧ p.mainStep env w i = some (p', w', es) := by
  cases a with
  | main i => exact ⟨i, rfl, h⟩
  | client j i => simp [Proc.step, clientStep_resting (hq j)] at h

private theorem stage_recv {i : MainInput} (hw : p.Waiting)
    (h : p.mainStep env w i = some (p', w', es)) : Advances env sure t₀ p' es := by
  obtain ⟨hm, hr, hq⟩ := hw
  simp only [Proc.mainStep, hm] at h
  cases hc : i.chunk with
  | none =>
    simp only [hc, Option.some.injEq, Prod.mk.injEq] at h
    obtain ⟨rfl, -, rfl⟩ := h
    exact .inl (.closed rfl hq)
  | some chunk =>
    simp only [hc] at h
    split at h
    · next hlen =>
      simp only [Option.some.injEq, Prod.mk.injEq] at h
      obtain ⟨rfl, -, rfl⟩ := h
      have hold := holds_receive p.receiveBuf chunk
      have hlive := classify_live_iff hold
      have hplay := classify_playback_iff hold
      -- The three branches of `util.c:176-188`.
      simp only [Proc.receive]
      split <;> next hk =>
        simp only [hk, true_iff, reduceCtorEq, false_iff] at hlive hplay
        first
        | exact .inl (.running chunk rfl hr hq ⟨hold, rfl, hlen.2⟩
            (.inl ⟨by simp [Table.setFlag], hlive⟩))
        | exact .inl (.running chunk rfl hr hq ⟨hold, rfl, hlen.2⟩
            (.inr ⟨by simp [Table.setFlag], hplay⟩))
        | exact .inr ⟨chunk, .useless hlive hplay, .idle ⟨hm, hr, hq⟩⟩
    · cases h

private theorem stage_run {chunk : List UInt8} {i : MainInput} (hm : p.main = .run)
    (hr : p.recorder.pc = .idle) (hq : p.Resting) (hl : p.Loaded chunk)
    (hk : (p.tcpInfo 0).flag = DISTRIBUTE ∧ IsLive chunk ∨
      (p.tcpInfo 0).flag = PLAYBACK ∧ IsPlayback chunk)
    (h : p.mainStep env w i = some (p', w', es)) :
    Advances env sure t₀ p' (receiveEvents chunk ++ es) := by
  simp only [Proc.mainStep, hm] at h
  rcases hk with ⟨hf, hlive⟩ | ⟨hf, hplay⟩
  · simp only [hf, ↓reduceIte, Option.some.injEq, Prod.mk.injEq] at h
    obtain ⟨rfl, -, rfl⟩ := h
    exact .inl (.recording chunk [] rfl hq ⟨hl.buf, hl.size, hl.bounded⟩ hlive
      (.inside [] .accessConf (by simp [Quiet]) (by simp) (by simp)))
  · have hne : PLAYBACK ≠ DISTRIBUTE := by decide
    simp only [hf, hne, ↓reduceIte, Option.some.injEq, Prod.mk.injEq] at h
    obtain ⟨rfl, -, rfl⟩ := h
    rw [List.append_nil]
    exact .inl (.preparing chunk _ rfl hr hq ⟨hl.buf, hl.size, hl.bounded⟩ (.playback hplay))

/-- A recording step under way goes on, fails, or has written the chunk. -/
theorem Recording.step {ρ : List Record.Event} {s s' : Recorder} {st st' : Store}
    {a : Record.Input} {es : List Record.Event} (hr : Recording ρ s.pc)
    (h : s.step env st a = some (s', st', es)) :
    Recording (ρ ++ es) s'.pc ∧ MainPc.afterRecord s.pc s'.pc = .record ∨
      Unrecorded (ρ ++ es) ∧ s'.pc = .idle ∧ MainPc.afterRecord s.pc s'.pc = .recv ∨
      Recorded a.bytes (ρ ++ es) ∧ s'.pc = .idle ∧ MainPc.afterRecord s.pc s'.pc = .prepare := by
  have quiet {ρ es : List Record.Event} (hρ : Quiet ρ) (hes : Quiet es) : Quiet (ρ ++ es) := by
    intro e he
    rcases List.mem_append.mp he with he | he
    · exact hρ e he
    · exact hes e he
  obtain ⟨u, pc⟩ := s
  change Recording ρ pc at hr
  cases hr with
  | inside _ _ hq hi ho =>
    cases Recorder.does_of_step h with
    | call => exact absurd rfl hi
    | conf | date | present | missing | made | name =>
      exact .inl ⟨.inside _ _ (quiet hq (by simp [Quiet])) (by simp) (by simp), rfl⟩
    | noConf | notOpened => exact .inr (.inl ⟨⟨ρ, hq, rfl⟩, rfl, rfl⟩)
    | notMade _ dir =>
      refine .inr (.inl ⟨⟨ρ ++ [.mkdir dir false], quiet hq (by simp [Quiet]), ?_⟩, rfl, rfl⟩)
      rw [List.append_assoc, List.singleton_append]
    | opens _ call path => exact .inl ⟨.opened ρ call path hq, rfl⟩
    | writes _ path => exact absurd rfl (ho path)
  | opened ρ' c path hq =>
    cases Recorder.does_of_step h with
    | writes =>
      refine .inr (.inr ⟨⟨ρ', c, path, hq, ?_⟩, rfl, rfl⟩)
      rw [List.append_assoc, List.cons_append, List.singleton_append]

private theorem stage_record {chunk : List UInt8} {ρ : List Record.Event} {i : MainInput}
    (hm : p.main = .record) (hq : p.Resting) (hl : p.Loaded chunk) (hk : IsLive chunk)
    (hr : Recording ρ p.recorder.pc) (h : p.mainStep env w i = some (p', w', es)) :
    Advances env sure t₀ p' (receiveEvents chunk ++ ρ.map .record ++ es) := by
  simp only [Proc.mainStep, hm, Option.map_eq_some_iff] at h
  obtain ⟨⟨s', st', es'⟩, hs, he⟩ := h
  simp only [Prod.mk.injEq] at he
  obtain ⟨rfl, -, rfl⟩ := he
  rw [List.append_assoc, ← List.map_append]
  rcases hr.step hs with ⟨hr', hpc⟩ | ⟨hr', hidle, hpc⟩ | ⟨hr', hidle, hpc⟩
  · exact .inl (.recording chunk _ hpc hq ⟨hl.buf, hl.size, hl.bounded⟩ hk hr')
  · exact .inr ⟨chunk, .unrecorded _ hk hr', .idle ⟨hpc, hidle, hq⟩⟩
  · simp only [hl.size, hl.buf.read hl.bounded] at hr'
    exact .inl (.preparing chunk _ hpc hidle hq ⟨hl.buf, hl.size, hl.bounded⟩ (.live _ hk hr'))

private theorem stage_prepare {chunk : List UInt8} {i : MainInput} (hm : p.main = .prepare)
    (hr : p.recorder.pc = .idle) (hl : p.Loaded chunk) (ho : Opening chunk cur)
    (h : p.mainStep env w i = some (p', w', es)) :
    Advances env sure t₀ p' (cur ++ es) := by
  simp only [Proc.mainStep, hm, hl.size, Option.some.injEq, Prod.mk.injEq] at h
  obtain ⟨rfl, -, rfl⟩ := h
  refine .inl ?_
  rw [← List.append_nil (cur ++ _)]
  exact .between chunk cur 0 [] hr ho ⟨hl.buf.memcpy, rfl, hl.bounded⟩
    ⟨by simp, rfl, fun _ _ ↦ rfl⟩ .zero (.lock rfl rfl (Nat.zero_le _))

private theorem stage_between {chunk : List UInt8} {pre σ : List Event} {m : Nat}
    {i : MainInput} (hsure : sure → i.created = true) (hag : p.tcpInfo.Agrees t₀)
    (hr : p.recorder.pc = .idle) (ho : Opening chunk pre) (hc : p.param.Carries chunk)
    (hth : OneByOne p.threads m .absent) (hf : Fanout (ThreadTrace env t₀ chunk) m σ)
    (hb : p.Between (t₀ 0).clientNum m) (h : p.mainStep env w i = some (p', w', es)) :
    Advances env sure t₀ p' (pre ++ prepareEvents chunk ++ σ ++ es) := by
  have hn : (p.tcpInfo 0).clientNum = (t₀ 0).clientNum := (hag 0).2.2.2
  cases hb with
  | lock hm hu hle =>
    simp only [Proc.mainStep, hm, hn, hu] at h
    split at h <;> next hlt =>
      simp only [Bool.false_eq_true, ↓reduceIte, Option.some.injEq, Prod.mk.injEq] at h
      obtain ⟨rfl, -, rfl⟩ := h
      rw [List.append_nil]
      first
      | exact .inl (.between chunk pre m σ hr ho hc hth hf
          (.setIndex rfl rfl hlt))
      | exact .inl (.between chunk pre m σ hr ho hc hth hf
          (.join 0 rfl rfl (Nat.zero_le _) (by omega)))
  | setIndex hm hu hlt =>
    simp only [Proc.mainStep, hm, Option.some.injEq, Prod.mk.injEq] at h
    obtain ⟨rfl, -, rfl⟩ := h
    rw [List.append_nil]
    exact .inl (.between chunk pre m σ hr ho ⟨hc.buf, hc.bufSize, hc.bounded⟩
      hth hf (.create rfl hu hlt rfl))
  | create hm hu hlt hi =>
    simp only [Proc.mainStep, hm, Option.some.injEq, Prod.mk.injEq] at h
    obtain ⟨rfl, -, rfl⟩ := h
    rw [List.append_nil]
    cases hcr : i.created with
    | true =>
      refine .inl ?_
      rw [← List.append_nil (pre ++ _ ++ σ)]
      exact .working chunk pre m σ [] .start p.tcpInfo hr ho hc (hth.set .start) hf (.lock rfl)
        hu hi hlt (by simp) hag .refl
    | false =>
      exact .inl (.missing chunk pre m σ (fun hs ↦ by simp [hsure hs] at hcr) hr ho
        (hth.set .absent) hf (.lock rfl) hu hlt)
  | join k hm hu hk he =>
    simp only [Proc.mainStep, hm, hn] at h
    split at h
    · next hlt =>
      rw [hth.before k (he ▸ hlt)] at h
      simp only [true_or, ↓reduceIte, Option.some.injEq, Prod.mk.injEq] at h
      obtain ⟨rfl, -, rfl⟩ := h
      rw [List.append_nil]
      exact .inl (.between chunk pre m σ hr ho hc hth hf
        (.join (k + 1) rfl hu hlt he))
    · simp only [Option.some.injEq, Prod.mk.injEq] at h
      obtain ⟨rfl, -, rfl⟩ := h
      rw [List.append_nil]
      exact .inl (.between chunk pre m σ hr ho hc hth hf
        (.destroy rfl he))
  | destroy hm he =>
    simp only [Proc.mainStep, hm, Option.some.injEq, Prod.mk.injEq] at h
    obtain ⟨rfl, -, rfl⟩ := h
    rw [List.append_nil]
    exact .inr ⟨chunk, .fanned pre m σ ho hf (.inl he), .idle ⟨rfl, hr, hth.resting⟩⟩

private theorem stage_missing {chunk : List UInt8} {pre σ : List Event} {m : Nat}
    {i : MainInput} (hag : p.tcpInfo.Agrees t₀) (hs : ¬ sure) (hr : p.recorder.pc = .idle)
    (ho : Opening chunk pre) (hth : OneByOne p.threads m .absent)
    (hf : Fanout (ThreadTrace env t₀ chunk) m σ) (hb : p.Skipped (t₀ 0).clientNum m)
    (hu : p.mute = true) (hlt : m < (t₀ 0).clientNum)
    (h : p.mainStep env w i = some (p', w', es)) :
    Advances env sure t₀ p' (pre ++ prepareEvents chunk ++ σ ++ es) := by
  have hn : (p.tcpInfo 0).clientNum = (t₀ 0).clientNum := (hag 0).2.2.2
  cases hb with
  | lock hm =>
    simp only [Proc.mainStep, hm, hn, hu] at h
    split at h
    · cases h
    · simp only [Option.some.injEq, Prod.mk.injEq] at h
      obtain ⟨rfl, -, rfl⟩ := h
      rw [List.append_nil]
      exact .inl (.missing chunk pre m σ hs hr ho hth hf
        (.join 0 rfl (Nat.zero_le _) (by omega)) rfl hlt)
  | join k hm hk he =>
    simp only [Proc.mainStep, hm, hn] at h
    split at h
    · next hk' =>
      split at h
      · simp only [Option.some.injEq, Prod.mk.injEq] at h
        obtain ⟨rfl, -, rfl⟩ := h
        rw [List.append_nil]
        exact .inl (.missing chunk pre m σ hs hr ho hth hf (.join (k + 1) rfl hk' he) hu hlt)
      · cases h
    · simp only [Option.some.injEq, Prod.mk.injEq] at h
      obtain ⟨rfl, -, rfl⟩ := h
      rw [List.append_nil]
      exact .inl (.missing chunk pre m σ hs hr ho hth hf (.destroy rfl he) hu hlt)
  | destroy hm he =>
    simp only [Proc.mainStep, hm, Option.some.injEq, Prod.mk.injEq] at h
    obtain ⟨rfl, -, rfl⟩ := h
    rw [List.append_nil]
    exact .inr ⟨chunk, .fanned pre m σ ho hf (.inr ⟨hs, he⟩), .idle ⟨rfl, hr, hth.resting⟩⟩

/-- While thread `m` is at work, main gets no further than to the join of it. -/
theorem Proc.Blocked.main_step {n m : Nat} {pc : ClientPc} {i : MainInput}
    (hb : p.Blocked n m) (hn : (p.tcpInfo 0).clientNum = n) (hu : p.mute = true)
    (hth : OneByOne p.threads m pc) (hx : p.main = .join m → pc ≠ .exited ∧ pc ≠ .absent)
    (hlt : m < n) (h : p.mainStep env w i = some (p', w', es)) :
    (∃ main, p' = { p with main := main }) ∧ es = [] ∧ p'.Blocked n m := by
  cases hb with
  | lock hm =>
    simp only [Proc.mainStep, hm, hn] at h
    split at h
    · cases h
    · simp only [Option.some.injEq, Prod.mk.injEq] at h
      obtain ⟨rfl, -, rfl⟩ := h
      exact ⟨⟨_, rfl⟩, rfl, .join 0 rfl (Nat.zero_le m) (by omega)⟩
  | join k hm hk he =>
    simp only [Proc.mainStep, hm, hn, show k < n by omega, ↓reduceIte] at h
    split at h
    · next hex =>
      simp only [Option.some.injEq, Prod.mk.injEq] at h
      obtain ⟨rfl, -, rfl⟩ := h
      have hkm : k ≠ m := by
        rintro rfl
        rw [hth.here] at hex
        exact hex.elim (hx hm).1 (fun ha ↦ (hx hm).2 ha.1)
      exact ⟨⟨_, rfl⟩, rfl, .join (k + 1) rfl (by omega) he⟩
    · cases h

private theorem ClientPc.ofSession_ne (fd : Int) (s : Session) :
    ClientPc.ofSession fd s ≠ .exited ∧ ClientPc.ofSession fd s ≠ .absent := by
  simp only [ClientPc.ofSession]
  split <;> simp

/-- A thread exits by the step that unlocks `mute`, and by no other. -/
theorem ClientDoes.exited_iff {param : ThreadParam} {w w' : Shm} {a : ClientInput}
    {t t' : Table} {pc pc' : ClientPc} {es : List ClientEvent}
    (h : ClientDoes env param w a t pc pc' t' w' es) : pc' = .exited ↔ pc = .unlock := by
  cases h with
  | session fd s s' => simp [ClientPc.ofSession_ne fd s']
  | _ => simp

/-- No step makes a thread disappear. -/
theorem ClientDoes.not_absent {param : ThreadParam} {w w' : Shm} {a : ClientInput}
    {t t' : Table} {pc pc' : ClientPc} {es : List ClientEvent}
    (h : ClientDoes env param w a t pc pc' t' w' es) : pc' ≠ .absent := by
  cases h with
  | session fd s s' => exact (ClientPc.ofSession_ne fd s').2
  | _ => simp

/-- A thread that was created stays there. -/
theorem client_not_absent {param : ThreadParam} {t t' : Table} {υ : List ClientEvent}
    {pc : ClientPc} (h : (client env param).Open (.start, t) υ (pc, t')) : pc ≠ .absent :=
  h.invariant (fun _ s ↦ s.1 ≠ .absent) (by simp)
    (fun _ _ _ _ _ _ _ _ _ hs ↦ (clientDoes_of_step hs).not_absent)

private theorem stage_client {chunk : List UInt8} {pre σ : List Event} {m : Nat}
    {υ : List ClientEvent} {pc : ClientPc} {t : Table} {a : ClientInput}
    (hr : p.recorder.pc = .idle) (ho : Opening chunk pre) (hc : p.param.Carries chunk)
    (hth : OneByOne p.threads m pc) (hf : Fanout (ThreadTrace env t₀ chunk) m σ)
    (hb : p.Blocked (t₀ 0).clientNum m) (hu : p.mute = true)
    (hi : p.param.clientIndex = m + 1) (hlt : m < (t₀ 0).clientNum) (ht : t.Agrees t₀)
    (hrun : (client env p.param).Open (.start, t) υ (pc, p.tcpInfo))
    (h : p.step env w (.client m a) = some (p', w', es)) :
    Stage env sure t₀ p' (pre ++ prepareEvents chunk ++ σ ++ υ.map (.client m (m + 1)) ++ es) := by
  obtain ⟨pc', t', shm', es', hs, rfl, -, rfl⟩ := Proc.client_step h
  rw [hth.here] at hs
  have hrun' := Machine.RunIn.snoc hrun trivial hs
  have hex := (clientDoes_of_step hs).exited_iff
  rw [hi, List.append_assoc _ (υ.map _), ← List.map_append]
  by_cases hcr : pc' = .crashed
  · subst hcr
    exact .dead chunk pre m σ _ t' rfl hr (fun _ ↦ .inl rfl) ho hf
      ⟨p.param, t, ht, hc, hi, hrun'⟩ hlt
  rw [Proc.afterClient_of_ne hcr, hth.here]
  by_cases hx : pc' = .exited
  · -- The thread unlocked `mute`: main goes on with the next client.
    subst hx
    have hpc : pc = .unlock := hex.mp rfl
    rw [if_pos hpc, List.append_assoc _ σ]
    refine .between chunk pre (m + 1) _ hr ho hc (hth.set .exited).next
      (.succ m σ _ hf ⟨t', p.param, t, ht, hc, hi, hrun'⟩) ?_
    cases hb with
    | lock hm => exact .lock hm rfl hlt
    | join k hm hk hn => exact .join k hm rfl (by omega) hn
  · have hpc : pc ≠ .unlock := fun hpc ↦ hx (hex.mpr hpc)
    rw [if_neg hpc]
    refine .working chunk pre m σ _ pc' t hr ho hc (hth.set pc') hf ?_ hu hi hlt hx ht hrun'
    cases hb with
    | lock hm => exact .lock hm
    | join k hm hk hn => exact .join k hm hk hn

/-- No step writes more of the table than descriptors and the flag. -/
theorem Proc.step_agrees {a : Act} (hag : p.tcpInfo.Agrees t₀)
    (h : p.step env w a = some (p', w', es)) : p'.tcpInfo.Agrees t₀ := by
  cases a with
  | client j i =>
    obtain ⟨pc', t', shm', es', hs, rfl, -, -⟩ := Proc.client_step h
    have hag' := clientStep_agrees hag hs
    simp only [Proc.afterClient]
    split <;> exact hag'
  | main i =>
    cases Proc.mainDoes_of_step h with
    | received chunk =>
      simp only [Proc.receive]
      split
      · exact hag.setFlag _
      · exact hag.setFlag _
      · exact hag
    | _ => exact hag

/-- Every step advances the stage or ends the chunk. -/
theorem Stage.step {a : Act} (hst : Stage env sure t₀ p cur) (hag : p.tcpInfo.Agrees t₀)
    (hsure : a.Creates sure) (h : p.step env w a = some (p', w', es)) :
    Advances env sure t₀ p' (cur ++ es) := by
  have hn : (p.tcpInfo 0).clientNum = (t₀ 0).clientNum := (hag 0).2.2.2
  cases hst with
  | idle hw =>
    obtain ⟨i, rfl, hi⟩ := hw.resting.main_step h
    exact stage_recv hw hi
  | closed hm hq =>
    obtain ⟨i, rfl, hi⟩ := hq.main_step h
    simp [Proc.mainStep, hm] at hi
  | running chunk hm hr hq hl hk =>
    obtain ⟨i, rfl, hi⟩ := hq.main_step h
    exact stage_run hm hr hq hl hk hi
  | recording chunk ρ hm hq hl hk hr =>
    obtain ⟨i, rfl, hi⟩ := hq.main_step h
    exact stage_record hm hq hl hk hr hi
  | preparing chunk pre hm hr hq hl ho =>
    obtain ⟨i, rfl, hi⟩ := hq.main_step h
    exact stage_prepare hm hr hl ho hi
  | between chunk pre m σ hr ho hc hth hf hb =>
    obtain ⟨i, rfl, hi⟩ := hth.resting.main_step h
    exact stage_between hsure hag hr ho hc hth hf hb hi
  | working chunk pre m σ υ pc t hr ho hc hth hf hb hu hi hlt hx ht hrun =>
    cases a with
    | main i =>
      obtain ⟨⟨main, rfl⟩, rfl, hb'⟩ := hb.main_step hn hu hth
        (fun _ ↦ ⟨hx, client_not_absent hrun⟩) hlt h
      rw [List.append_nil]
      exact .inl (.working chunk pre m σ υ pc t hr ho hc hth hf hb' hu hi hlt hx ht hrun)
    | client j i =>
      by_cases hj : j = m
      · subst hj
        exact .inl (stage_client hr ho hc hth hf hb hu hi hlt ht hrun h)
      · simp [Proc.step, clientStep_resting (hth.other hj)] at h
  | missing chunk pre m σ hs hr ho hth hf hb hu hlt =>
    obtain ⟨i, rfl, hi⟩ := hth.resting.main_step h
    exact stage_missing hag hs hr ho hth hf hb hu hlt hi
  | dead chunk pre m σ υ t' hm hr hq ho hf hrun hlt =>
    obtain ⟨i, rfl, hi⟩ := hq.main_step h
    simp [Proc.mainStep, hm] at hi

private theorem Proc.Between.main_ne {n m : Nat} (h : p.Between n m) :
    p.main ≠ .recv ∧ p.main ≠ .run := by
  cases h <;> simp_all

private theorem Proc.Blocked.main_ne {n m : Nat} (h : p.Blocked n m) :
    p.main ≠ .recv ∧ p.main ≠ .run := by
  cases h <;> simp_all

private theorem Proc.Skipped.main_ne {n m : Nat} (h : p.Skipped n m) :
    p.main ≠ .recv ∧ p.main ≠ .run := by
  cases h <;> simp_all

/-- A process that waits for a chunk has handled all it received. -/
theorem Stage.nil_of_recv {cur : List Event} (h : Stage env sure t₀ p cur)
    (hm : p.main = .recv) : cur = [] := by
  cases h with
  | idle => rfl
  | between _ _ _ _ _ _ _ _ _ hb => exact absurd hm hb.main_ne.1
  | working _ _ _ _ _ _ _ _ _ _ _ _ hb => exact absurd hm hb.main_ne.1
  | missing _ _ _ _ _ _ _ _ _ hb => exact absurd hm hb.main_ne.1
  | closed | running | recording | preparing | dead => simp_all

/-- At the entry of `distribute_run` the chunk has been received, and nothing else. -/
theorem Stage.receiveEvents_of_run {cur : List Event} (h : Stage env sure t₀ p cur)
    (hm : p.main = .run) : ∃ chunk, cur = receiveEvents chunk := by
  cases h with
  | running chunk => exact ⟨chunk, rfl⟩
  | idle hw => exact absurd (hw.main.symm.trans hm) (by simp)
  | between _ _ _ _ _ _ _ _ _ hb => exact absurd hm hb.main_ne.2
  | working _ _ _ _ _ _ _ _ _ _ _ _ hb => exact absurd hm hb.main_ne.2
  | missing _ _ _ _ _ _ _ _ _ hb => exact absurd hm hb.main_ne.2
  | closed | recording | preparing | dead => simp_all

/-- Main is never stuck while no thread is at work and none is missing. -/
theorem Stage.main_isSome (h : Stage env True t₀ p cur) (hag : p.tcpInfo.Agrees t₀)
    (hq : p.Resting) (hm : p.main ≠ .recv) (hc : p.main ≠ .closed) (hd : p.main ≠ .dead)
    (w : World) : (p.mainStep env w {}).isSome := by
  have hn : (p.tcpInfo 0).clientNum = (t₀ 0).clientNum := (hag 0).2.2.2
  cases h with
  | idle hw => exact absurd hw.main hm
  | closed hp => exact absurd hp hc
  | running chunk hp =>
    simp only [Proc.mainStep, hp]
    split <;> rfl
  | recording chunk ρ hp =>
    simp only [Proc.mainStep, hp, Option.isSome_map]
    exact Recorder.step_isSome env _ _ _
  | preparing chunk pre hp => simp only [Proc.mainStep, hp, Option.isSome_some]
  | between chunk pre m σ hr ho hcar hth hf hb =>
    cases hb with
    | lock hp hu =>
      simp only [Proc.mainStep, hp, hu]
      split <;> rfl
    | join k hp hu hk he =>
      simp only [Proc.mainStep, hp, hn]
      split
      · next hlt => simp [hth.before k (he ▸ hlt)]
      · rfl
    | setIndex hp | create hp | destroy hp => simp only [Proc.mainStep, hp, Option.isSome_some]
  | working chunk pre m σ υ pc t hr ho hcar hth hf hb hu hi hlt hx ht hrun =>
    rcases hth.here ▸ hq m with ha | he
    · exact absurd ha (client_not_absent hrun)
    · exact absurd he hx
  | missing chunk pre m σ hs => exact absurd trivial hs
  | dead chunk pre m σ υ t' hp => exact absurd hp hd

/-- A process in some stage, with the table it started from. -/
structure Proc.Sound (env : Env) (t₀ : Table) (p : Proc) : Prop where
  tables : p.tcpInfo.Agrees t₀
  stage : ∃ cur, Stage env False t₀ p cur

/-- A process that waits for a chunk is in its first stage. -/
theorem Proc.Waiting.sound (h : p.Waiting) : p.Sound env p.tcpInfo :=
  ⟨.refl _, [], .idle h⟩

/-- Every step leads to a stage. -/
theorem Proc.Sound.step {a : Act} (h : p.Sound env t₀)
    (hs : p.step env w a = some (p', w', es)) : p'.Sound env t₀ := by
  obtain ⟨hag, cur, hst⟩ := h
  refine ⟨Proc.step_agrees hag hs, ?_⟩
  rcases hst.step hag a.creates_false hs with hst' | ⟨-, -, hst'⟩
  · exact ⟨_, hst'⟩
  · exact ⟨[], hst'⟩

/-! ### Whole runs -/

/-- A run so far: a trace for each chunk that was handled, then that of the present one. -/
structure Chunked (env : Env) (sure : Prop) (t₀ : Table) (τ : List Event) (p : Proc) :
    Prop where
  tables : p.tcpInfo.Agrees t₀
  chunks : ∃ (done : List (List UInt8 × List Event)) (cur : List Event),
    τ = (done.map Prod.snd).flatten ++ cur ∧ (∀ c ∈ done, Handled env sure t₀ c.1 c.2) ∧
      Stage env sure t₀ p cur

/-- In every environment, a run of a process handles its chunks one after the other. -/
theorem chunked_of_run {p₀ p : Proc} {τ : List Event} (h₀ : p₀.Waiting)
    (h : (process env).RunIn (fun _ _ a ↦ a.Creates sure) p₀ τ p) :
    Chunked env sure p₀.tcpInfo τ p := by
  refine h.invariant (Chunked env sure p₀.tcpInfo)
    ⟨.refl _, [], [], rfl, by simp, .idle h₀⟩ ?_
  intro τ p w a p' w' es hch hsure hs
  obtain ⟨hag, done, cur, rfl, hdone, hst⟩ := hch
  refine ⟨Proc.step_agrees hag hs, ?_⟩
  rcases hst.step hag hsure hs with hst' | ⟨chunk, hh, hst'⟩
  · exact ⟨done, cur ++ es, by rw [List.append_assoc], hdone, hst'⟩
  · refine ⟨done ++ [(chunk, cur ++ es)], [], by simp, ?_, hst'⟩
    intro c hc
    rcases List.mem_append.mp hc with hc | hc
    · exact hdone c hc
    · rw [List.mem_singleton.mp hc]
      exact hh

/-- The same where `pthread_create` may fail. -/
theorem chunked_of_open {p₀ p : Proc} {τ : List Event} (h₀ : p₀.Waiting)
    (h : (process env).Open p₀ τ p) : Chunked env False p₀.tcpInfo τ p :=
  chunked_of_run h₀ (h.mono (fun _ _ a _ ↦ a.creates_false))

end DupDistribute.Distribute

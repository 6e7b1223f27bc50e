import DupDistribute.Distribute.Client

/-!
# A connection process

`distribute_receive` (`util.c:148-195`) and `distribute_run` (`util.c:200-249`) in one child
process: the main thread, the client threads it creates, the parameter block they share,
and the mutex `mute` that main locks before a creation and the created thread unlocks at its
end. The main thread and every client thread take separate steps, in any order the mutex
and `pthread_join` allow. `pthread_create` reports a failure by a positive number, which the
source does not recognise: main goes on, and there is no thread. `pthread_join` then gets an
id that nothing has set; whether that call returns is left to the environment. Logging is
left out.
-/

namespace DupDistribute.Distribute

open DupDistribute.Base DupDistribute.Wire DupDistribute.Record DupDistribute.Playback

/-- `DISTRIBUTE` and `PLAYBACK`, `util.h:26-27`. -/
def DISTRIBUTE : Nat := 1

/-- See `DISTRIBUTE`. -/
def PLAYBACK : Nat := 2

/-- Assignment to `distributeTcpInfo[0].flag`. -/
def Table.setFlag (t : Table) (flag : Nat) : Table :=
  Function.update t 0 { t 0 with flag := flag }

/-- What processes share: the lock files and the record store. -/
structure World where
  shm : Shm
  store : Store

/-- Where the main thread is. `run` is the entry of `distribute_run`; the loop over clients
is at `lock`, `setIndex` or `create`; `dead` after a crash of any thread. -/
inductive MainPc where
  | recv
  | run
  | record
  | prepare
  | lock (i : Nat)
  | setIndex (i : Nat)
  | create (i : Nat)
  | join (i : Nat)
  | destroy
  | closed
  | dead
  deriving DecidableEq, Repr

/-- Memory and threads of a process. -/
structure Proc where
  tcpInfo : Table
  recorder : Recorder
  receiveBuf : Memory
  receiveSize : Nat
  main : MainPc
  param : ThreadParam
  mute : Bool
  threads : Nat → ClientPc

/-- Outcomes the environment chooses for a main step: the chunk that `recv` stores (`none`
when it returns 0 or -1), those of a recording step, whether `pthread_create` works, and
whether `pthread_join` returns for a thread that was never created. -/
structure MainInput where
  chunk : Option (List UInt8) := none
  record : Record.Input := {}
  created : Bool := true
  joined : Bool := false

/-- Which thread moves, and with which outcomes. -/
inductive Act where
  | main (a : MainInput)
  | client (thread : Nat) (a : ClientInput)

/-- No `send` of the step raises `SIGPIPE`. -/
def Act.Unsignalled : Act → Prop
  | .main _ => True
  | .client _ a => a.Unsignalled

instance : (a : Act) → Decidable a.Unsignalled
  | .main _ => inferInstanceAs (Decidable True)
  | .client _ a => inferInstanceAs (Decidable a.Unsignalled)

/-- What a step of the process does. A client thread's event carries the table index that
the thread reads from the shared parameter block at that step. -/
inductive Event where
  | recv (chunk : List UInt8)
  | copy (c : Copy)
  | record (e : Record.Event)
  | client (thread index : Nat) (e : ClientEvent)
  | closed
  deriving DecidableEq

/-- A received chunk is copied into the three header structs, `util.c:162-174`. -/
def receiveEvents (chunk : List UInt8) : List Event :=
  [.recv chunk, .copy ⟨sizeofSeaCommunication, sizeofSeaCommunication⟩,
    .copy ⟨sizeofBDCommunication, sizeofBDCommunication⟩,
    .copy ⟨sizeofReplayProtocol, sizeofReplayProtocol⟩]

/-- The main thread after a chunk was received, `util.c:161-188`. -/
def Proc.receive (p : Proc) (chunk : List UInt8) : Proc :=
  let buf := (p.receiveBuf.memset MAX_BUFFER_SIZE).store chunk
  let p := { p with receiveBuf := buf, receiveSize := chunk.length }
  match classify buf with
  | .live => { p with tcpInfo := p.tcpInfo.setFlag DISTRIBUTE, main := .run }
  | .playback => { p with tcpInfo := p.tcpInfo.setFlag PLAYBACK, main := .run }
  | .useless => p

/-- The place after a recording step: `distribute_run` returns without a file, goes on after
the write, and is inside `initDataRecord` otherwise. -/
def MainPc.afterRecord (before after : Record.Pc) : MainPc :=
  match before, after with
  | .opened _, _ => .prepare
  | _, .idle => .recv
  | _, _ => .record

/-- One step of the main thread. -/
def Proc.mainStep (env : Env) (w : World) (p : Proc) (a : MainInput) :
    Option (Proc × World × List Event) :=
  match p.main with
  | .recv =>
    match a.chunk with
    | none => some ({ p with main := .closed }, w, [.closed])
    | some chunk =>
      if 0 < chunk.length ∧ chunk.length ≤ MAX_BUFFER_SIZE then
        some (p.receive chunk, w, receiveEvents chunk)
      else none
  | .run =>
    if (p.tcpInfo 0).flag = DISTRIBUTE then
      some ({ p with main := .record, recorder := { p.recorder with pc := .accessConf } }, w, [])
    else some ({ p with main := .prepare }, w, [])
  | .record =>
    (p.recorder.step env w.store
      { a.record with bytes := p.receiveBuf.read p.receiveSize }).map (fun r ↦
        ({ p with recorder := r.1, main := .afterRecord p.recorder.pc r.1.pc },
          { w with store := r.2.1 }, r.2.2.map .record))
  | .prepare =>
    some ({ p with
        param := ⟨Memory.memcpy (fun _ ↦ 0) p.receiveBuf p.receiveSize, p.receiveSize, 0⟩
        mute := false
        threads := fun _ ↦ .absent
        main := .lock 0 }, w, [.copy ⟨MAX_BUFFER_SIZE, p.receiveSize⟩])
  | .lock i =>
    if i < (p.tcpInfo 0).clientNum then
      if p.mute then none
      else some ({ p with mute := true, main := .setIndex i }, w, [])
    else some ({ p with main := .join 0 }, w, [])
  | .setIndex i =>
    some ({ p with param := { p.param with clientIndex := i + 1 }, main := .create i }, w, [])
  | .create i =>
    some ({ p with
        threads := Function.update p.threads i (if a.created then .start else .absent)
        main := .lock (i + 1) }, w, [])
  | .join i =>
    if i < (p.tcpInfo 0).clientNum then
      if p.threads i = .exited ∨ p.threads i = .absent ∧ a.joined then
        some ({ p with main := .join (i + 1) }, w, [])
      else none
    else some ({ p with main := .destroy }, w, [])
  | .destroy =>
    some ({ p with param := { p.param with buf := p.param.buf.memset MAX_BUFFER_SIZE },
                   main := .recv }, w, [])
  | .closed => none
  | .dead => none

/-- The process after a client thread's step: the last step of a thread unlocks `mute`, and a
crash ends every thread. -/
def Proc.afterClient (p : Proc) (thread : Nat) (pc : ClientPc) (t : Table) : Proc :=
  match pc with
  | .crashed => { p with tcpInfo := t, threads := fun _ ↦ .absent, main := .dead }
  | _ =>
    { p with
      tcpInfo := t
      threads := Function.update p.threads thread pc
      mute := if p.threads thread = .unlock then false else p.mute }

/-- Without a crash only the thread's own place, the table and `mute` change. -/
theorem Proc.afterClient_of_ne {pc : ClientPc} (h : pc ≠ .crashed) (p : Proc) (thread : Nat)
    (t : Table) : p.afterClient thread pc t =
      { p with
        tcpInfo := t
        threads := Function.update p.threads thread pc
        mute := if p.threads thread = .unlock then false else p.mute } := by
  cases pc with
  | crashed => exact absurd rfl h
  | _ => rfl

/-- One step of the process. -/
def Proc.step (env : Env) (w : World) (p : Proc) : Act → Option (Proc × World × List Event)
  | .main a => p.mainStep env w a
  | .client j a =>
    (clientStep env p.param w.shm (p.threads j, p.tcpInfo) a).map (fun r ↦
      (p.afterClient j r.1.1 r.1.2, { w with shm := r.2.1 },
        r.2.2.map (.client j p.param.clientIndex)))

/-- Everything a step of the main thread can do, by program point and outcome. -/
inductive Proc.MainDoes (env : Env) (w : World) (a : MainInput) (p : Proc) :
    Proc → World → List Event → Prop where
  | closed (hm : p.main = .recv) (hc : a.chunk = none) :
      MainDoes env w a p { p with main := .closed } w [.closed]
  | received (chunk : List UInt8) (hm : p.main = .recv) (hc : a.chunk = some chunk)
      (hlen : 0 < chunk.length ∧ chunk.length ≤ MAX_BUFFER_SIZE) :
      MainDoes env w a p (p.receive chunk) w (receiveEvents chunk)
  | distribute (hm : p.main = .run) (hf : (p.tcpInfo 0).flag = DISTRIBUTE) :
      MainDoes env w a p
        { p with main := .record, recorder := { p.recorder with pc := .accessConf } } w []
  | playback (hm : p.main = .run) (hf : (p.tcpInfo 0).flag ≠ DISTRIBUTE) :
      MainDoes env w a p { p with main := .prepare } w []
  | record (s' : Recorder) (st' : Store) (es : List Record.Event) (hm : p.main = .record)
      (hs : p.recorder.step env w.store
        { a.record with bytes := p.receiveBuf.read p.receiveSize } = some (s', st', es)) :
      MainDoes env w a p { p with recorder := s', main := .afterRecord p.recorder.pc s'.pc }
        { w with store := st' } (es.map .record)
  | prepare (hm : p.main = .prepare) :
      MainDoes env w a p { p with
        param := ⟨Memory.memcpy (fun _ ↦ 0) p.receiveBuf p.receiveSize, p.receiveSize, 0⟩
        mute := false
        threads := fun _ ↦ .absent
        main := .lock 0 } w [.copy ⟨MAX_BUFFER_SIZE, p.receiveSize⟩]
  | lock (i : Nat) (hm : p.main = .lock i) (hlt : i < (p.tcpInfo 0).clientNum)
      (hu : p.mute = false) :
      MainDoes env w a p { p with mute := true, main := .setIndex i } w []
  | allCreated (i : Nat) (hm : p.main = .lock i) (hge : ¬ i < (p.tcpInfo 0).clientNum) :
      MainDoes env w a p { p with main := .join 0 } w []
  | setIndex (i : Nat) (hm : p.main = .setIndex i) :
      MainDoes env w a p
        { p with param := { p.param with clientIndex := i + 1 }, main := .create i } w []
  | create (i : Nat) (hm : p.main = .create i) :
      MainDoes env w a p { p with
        threads := Function.update p.threads i (if a.created then .start else .absent)
        main := .lock (i + 1) } w []
  | join (i : Nat) (hm : p.main = .join i) (hlt : i < (p.tcpInfo 0).clientNum)
      (hx : p.threads i = .exited ∨ p.threads i = .absent ∧ a.joined) :
      MainDoes env w a p { p with main := .join (i + 1) } w []
  | allJoined (i : Nat) (hm : p.main = .join i) (hge : ¬ i < (p.tcpInfo 0).clientNum) :
      MainDoes env w a p { p with main := .destroy } w []
  | destroy (hm : p.main = .destroy) :
      MainDoes env w a p
        { p with param := { p.param with buf := p.param.buf.memset MAX_BUFFER_SIZE },
                 main := .recv } w []

/-- The main thread does nothing else. -/
theorem Proc.mainDoes_of_step {env : Env} {w w' : World} {a : MainInput} {p p' : Proc}
    {es : List Event} (h : p.mainStep env w a = some (p', w', es)) :
    Proc.MainDoes env w a p p' w' es := by
  cases hm : p.main with
  | recv =>
    cases hc : a.chunk with
    | none =>
      simp only [Proc.mainStep, hm, hc, Option.some.injEq, Prod.mk.injEq] at h
      obtain ⟨rfl, rfl, rfl⟩ := h
      exact .closed hm hc
    | some chunk =>
      simp only [Proc.mainStep, hm, hc, Option.ite_none_right_eq_some, Option.some.injEq,
        Prod.mk.injEq] at h
      obtain ⟨hlen, rfl, rfl, rfl⟩ := h
      exact .received chunk hm hc hlen
  | run =>
    simp only [Proc.mainStep, hm] at h
    split at h <;> next hf =>
      simp only [Option.some.injEq, Prod.mk.injEq] at h
      obtain ⟨rfl, rfl, rfl⟩ := h
      first
      | exact .distribute hm hf
      | exact .playback hm hf
  | record =>
    simp only [Proc.mainStep, hm, Option.map_eq_some_iff, Prod.mk.injEq] at h
    obtain ⟨⟨s', st', es'⟩, hs, rfl, rfl, rfl⟩ := h
    exact .record s' st' es' hm hs
  | lock i =>
    simp only [Proc.mainStep, hm] at h
    split at h <;> next hi =>
      simp only [Option.ite_none_left_eq_some, Option.some.injEq, Prod.mk.injEq,
        Bool.not_eq_true] at h
      first
      | obtain ⟨hu, rfl, rfl, rfl⟩ := h
        exact .lock i hm hi hu
      | obtain ⟨rfl, rfl, rfl⟩ := h
        exact .allCreated i hm hi
  | join i =>
    simp only [Proc.mainStep, hm] at h
    split at h <;> next hi =>
      simp only [Option.ite_none_right_eq_some, Option.some.injEq, Prod.mk.injEq] at h
      first
      | obtain ⟨hx, rfl, rfl, rfl⟩ := h
        exact .join i hm hi hx
      | obtain ⟨rfl, rfl, rfl⟩ := h
        exact .allJoined i hm hi
  | prepare | setIndex i | create i | destroy =>
    simp only [Proc.mainStep, hm, Option.some.injEq, Prod.mk.injEq] at h
    obtain ⟨rfl, rfl, rfl⟩ := h
    first
    | exact .prepare hm
    | exact .setIndex i hm
    | exact .create i hm
    | exact .destroy hm
  | closed | dead => simp [Proc.mainStep, hm] at h

/-- Everything a client thread's step can do to its process. -/
theorem Proc.client_step {env : Env} {w w' : World} {j : Nat} {a : ClientInput} {p p' : Proc}
    {es : List Event} (h : p.step env w (.client j a) = some (p', w', es)) :
    ∃ pc' t' shm' es', clientStep env p.param w.shm (p.threads j, p.tcpInfo) a =
        some ((pc', t'), shm', es') ∧
      p' = p.afterClient j pc' t' ∧ w' = { w with shm := shm' } ∧
      es = es'.map (.client j p.param.clientIndex) := by
  simp only [Proc.step, Option.map_eq_some_iff, Prod.mk.injEq] at h
  obtain ⟨⟨⟨pc', t'⟩, shm', es'⟩, hs, rfl, rfl, rfl⟩ := h
  exact ⟨pc', t', shm', es', hs, rfl, rfl, rfl⟩

/-- A connection process over the world it shares with the others. -/
def process (env : Env) : Machine World Proc Act Event where
  step := Proc.step env

/-- No client thread of the process has work left. -/
def Proc.Resting (p : Proc) : Prop := ∀ j, p.threads j = .absent ∨ p.threads j = .exited

/-- A process about to receive: as `distribute_server` forks it, with the inherited table and
counter and arbitrary contents in its memory, or back from handling a chunk. -/
structure Proc.Waiting (p : Proc) : Prop where
  main : p.main = .recv
  recorder : p.recorder.pc = .idle
  resting : p.Resting

/-- A freshly forked process. -/
def Proc.forked (tcpInfo : Table) (uuid : UInt32) : Proc where
  tcpInfo := tcpInfo
  recorder := ⟨uuid, .idle⟩
  receiveBuf := fun _ ↦ 0
  receiveSize := 0
  main := .recv
  param := ⟨fun _ ↦ 0, 0, 0⟩
  mute := false
  threads := fun _ ↦ .absent

/-- A freshly forked process waits for its first chunk. -/
theorem Proc.forked_waiting (tcpInfo : Table) (uuid : UInt32) :
    (Proc.forked tcpInfo uuid).Waiting :=
  ⟨rfl, rfl, fun _ ↦ .inl rfl⟩

/-- The assumption that `pthread_create` works, if `sure`. -/
def Act.Creates (sure : Prop) : Act → Prop
  | .main a => sure → a.created = true
  | .client _ _ => True

instance (sure : Prop) [Decidable sure] : (a : Act) → Decidable (a.Creates sure)
  | .main a => inferInstanceAs (Decidable (sure → a.created = true))
  | .client _ _ => inferInstanceAs (Decidable True)

/-- Nothing is asked of `pthread_create` when it may fail. -/
theorem Act.creates_false (a : Act) : a.Creates False := by
  cases a with
  | main => exact False.elim
  | client => trivial

end DupDistribute.Distribute

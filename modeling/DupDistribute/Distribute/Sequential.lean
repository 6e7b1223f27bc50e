import DupDistribute.Distribute.Handover

/-!
# The threads of a process change nothing

`distribute_run` (`util.c:200-249`) creates a thread for every client and lets each of them hold
`mute` from before its creation to its end. `serial` is the same program without threads: it
handles a chunk by doing the work of `distribute_client_send` for one client after the other. As
long as `pthread_create` works, any number of processes leave the same events and the same lock
files and records in both programs.
-/

namespace DupDistribute.Distribute

open DupDistribute.Base DupDistribute.Wire DupDistribute.Record DupDistribute.Playback

/-! ### The program without threads -/

/-- Where the program is: `next i` after `i` clients, `serve i` inside the work for client
`i + 1`. -/
inductive SerialPc where
  | recv
  | run
  | record
  | prepare
  | next (i : Nat)
  | serve (i : Nat) (pc : ClientPc)
  | closed
  | dead
  deriving DecidableEq

/-- Memory of a process without threads. -/
structure Serial where
  tcpInfo : Table
  recorder : Recorder
  receiveBuf : Memory
  receiveSize : Nat
  pc : SerialPc

/-- Outcomes the environment chooses for a step. -/
structure SerialInput where
  chunk : Option (List UInt8) := none
  record : Record.Input := {}
  client : ClientInput := {}

/-- A chunk was received. -/
def Serial.receive (s : Serial) (chunk : List UInt8) : Serial :=
  let buf := (s.receiveBuf.memset MAX_BUFFER_SIZE).store chunk
  let s := { s with receiveBuf := buf, receiveSize := chunk.length }
  match classify buf with
  | .live => { s with tcpInfo := s.tcpInfo.setFlag DISTRIBUTE, pc := .run }
  | .playback => { s with tcpInfo := s.tcpInfo.setFlag PLAYBACK, pc := .run }
  | .useless => s

/-- The place after a recording step. -/
def SerialPc.afterRecord (before after : Record.Pc) : SerialPc :=
  match before, after with
  | .opened _, _ => .prepare
  | _, .idle => .recv
  | _, _ => .record

/-- The place after a step of the work for client `i + 1`. -/
def SerialPc.afterClient (i : Nat) : ClientPc → SerialPc
  | .exited => .next (i + 1)
  | .crashed => .dead
  | pc => .serve i pc

/-- What `distribute_client_send` is given for client `i + 1`: a copy of the chunk. -/
def paramFor (buf : Memory) (size i : Nat) : ThreadParam :=
  ⟨Memory.memcpy (fun _ ↦ 0) buf size, size, i + 1⟩

/-- One step of the program without threads. -/
def Serial.step (env : Env) (w : World) (s : Serial) (a : SerialInput) :
    Option (Serial × World × List Event) :=
  match s.pc with
  | .recv =>
    match a.chunk with
    | none => some ({ s with pc := .closed }, w, [.closed])
    | some chunk =>
      if 0 < chunk.length ∧ chunk.length ≤ MAX_BUFFER_SIZE then
        some (s.receive chunk, w, receiveEvents chunk)
      else none
  | .run =>
    if (s.tcpInfo 0).flag = DISTRIBUTE then
      some ({ s with pc := .record, recorder := { s.recorder with pc := .accessConf } }, w, [])
    else some ({ s with pc := .prepare }, w, [])
  | .record =>
    (s.recorder.step env w.store
      { a.record with bytes := s.receiveBuf.read s.receiveSize }).map (fun r ↦
        ({ s with recorder := r.1, pc := .afterRecord s.recorder.pc r.1.pc },
          { w with store := r.2.1 }, r.2.2.map .record))
  | .prepare => some ({ s with pc := .next 0 }, w, [.copy ⟨MAX_BUFFER_SIZE, s.receiveSize⟩])
  | .next i =>
    if i < (s.tcpInfo 0).clientNum then some ({ s with pc := .serve i .start }, w, [])
    else some ({ s with pc := .recv }, w, [])
  | .serve i pc =>
    (clientStep env (paramFor s.receiveBuf s.receiveSize i) w.shm (pc, s.tcpInfo) a.client).map
      (fun r ↦ ({ s with tcpInfo := r.1.2, pc := .afterClient i r.1.1 },
        { w with shm := r.2.1 }, r.2.2.map (.client i (i + 1))))
  | .closed => none
  | .dead => none

/-- The program without threads over the world it shares with others. -/
def serial (env : Env) : Machine World Serial SerialInput Event where
  step := Serial.step env

/-! ### The process seen without its threads -/

/-- The loop after `i` clients: the last of them is still being served if `mute` is locked. -/
def Proc.after (p : Proc) (i : Nat) : SerialPc :=
  if p.mute then .serve (i - 1) (p.threads (i - 1)) else .next i

/-- Where the process is, without its threads. -/
def Proc.place (p : Proc) : SerialPc :=
  match p.main with
  | .recv => .recv
  | .run => .run
  | .record => .record
  | .prepare => .prepare
  | .lock i => p.after i
  | .setIndex i => .next i
  | .create i => .next i
  | .join _ => p.after (p.tcpInfo 0).clientNum
  | .destroy => .next (p.tcpInfo 0).clientNum
  | .closed => .closed
  | .dead => .dead

/-- The process without its threads, their parameter block and their mutex. -/
def Proc.serialOf (p : Proc) : Serial where
  tcpInfo := p.tcpInfo
  recorder := p.recorder
  receiveBuf := p.receiveBuf
  receiveSize := p.receiveSize
  pc := p.place

/-- Main is in the loop over clients, or joins them. -/
def MainPc.fans : MainPc → Bool
  | .lock _ | .setIndex _ | .create _ | .join _ => true
  | _ => false

/-- A process in some stage, whose parameter block is a copy of the receive buffer while there
are threads. -/
structure Proc.Steady (env : Env) (p : Proc) : Prop where
  stage : ∃ t₀ cur, p.tcpInfo.Agrees t₀ ∧ Stage env True t₀ p cur
  copied : p.main.fans = true →
    ∀ i, { p.param with clientIndex := i + 1 } = paramFor p.receiveBuf p.receiveSize i

variable {env : Env} {w w' : World} {p p' : Proc} {es : List Event} {i j : Nat}

theorem Proc.Waiting.steady (h : p.Waiting) : p.Steady env where
  stage := ⟨p.tcpInfo, [], .refl _, .idle h⟩
  copied hf := by simp [h.main, MainPc.fans] at hf

private theorem fans_afterRecord (before after : Record.Pc) :
    (MainPc.afterRecord before after).fans = false := by
  simp only [MainPc.afterRecord]
  split <;> rfl

private theorem fans_receive (chunk : List UInt8) (hm : p.main = .recv) :
    (p.receive chunk).main.fans = false := by
  simp only [Proc.receive]
  split
  · rfl
  · rfl
  · simp only [hm, MainPc.fans]

/-- Every step with a working `pthread_create` keeps the process steady. -/
theorem Proc.Steady.step {a : Act} (h : p.Steady env) (hc : a.Creates True)
    (hs : p.step env w a = some (p', w', es)) : p'.Steady env := by
  obtain ⟨⟨t₀, cur, hag, hst⟩, hcopied⟩ := h
  constructor
  · refine ⟨t₀, ?_⟩
    rcases hst.step hag hc hs with hst' | ⟨-, -, hst'⟩
    · exact ⟨_, Proc.step_agrees hag hs, hst'⟩
    · exact ⟨_, Proc.step_agrees hag hs, hst'⟩
  · cases a with
    | client j c =>
      obtain ⟨pc', t', shm', es', -, rfl, -, -⟩ := Proc.client_step hs
      simp only [Proc.afterClient]
      split
      · exact fun hf ↦ absurd hf (by simp [MainPc.fans])
      · exact hcopied
    | main m =>
      cases Proc.mainDoes_of_step hs with
      | prepare => exact fun _ _ ↦ rfl
      | lock i hm | allCreated i hm | setIndex i hm | create i hm | join i hm =>
        exact fun _ ↦ hcopied (by rw [hm]; rfl)
      | received chunk hm => exact fun hf ↦ absurd hf (by rw [fans_receive chunk hm]; simp)
      | record s' st' es hm => exact fun hf ↦ absurd hf (by rw [fans_afterRecord]; simp)
      | closed | distribute | playback | allJoined | destroy =>
        exact fun hf ↦ absurd hf (by simp [MainPc.fans])

/-- A thread at work is the one that main waits for, under its own index. -/
structure Proc.Serves (p : Proc) (j : Nat) : Prop where
  mute : p.mute = true
  index : p.param.clientIndex = j + 1
  bound : j < (p.tcpInfo 0).clientNum
  blocked : p.Blocked (p.tcpInfo 0).clientNum j

/-- Only the thread that main waits for is at work. -/
theorem Proc.Steady.serves (h : p.Steady env) (ha : p.threads j ≠ .absent)
    (hx : p.threads j ≠ .exited) : p.Serves j := by
  obtain ⟨⟨t₀, cur, hag, hst⟩, -⟩ := h
  have resting (hq : p.Resting) : p.Serves j :=
    (hq j).elim (fun hj ↦ absurd hj ha) (fun hj ↦ absurd hj hx)
  cases hst with
  | idle hw => exact resting hw.resting
  | closed hm hq => exact resting hq
  | running chunk hm hr hq => exact resting hq
  | recording chunk ρ hm hq => exact resting hq
  | preparing chunk pre hm hr hq => exact resting hq
  | between chunk pre m σ hr ho hc hth => exact resting hth.resting
  | working chunk pre m σ υ pc t hr ho hc hth hf hb hu hi hlt =>
    by_cases hj : j = m
    · subst hj
      rw [← (hag 0).2.2.2] at hb hlt
      exact ⟨hu, hi, hlt, hb⟩
    · exact (hth.other hj).elim (fun hj ↦ absurd hj ha) (fun hj ↦ absurd hj hx)
  | missing chunk pre m σ hs => exact absurd trivial hs
  | dead chunk pre m σ υ t' hm hr hq => exact resting hq

/-- Main at the lock with `mute` free: all threads so far have exited. -/
theorem Proc.Steady.lock_free (h : p.Steady env) (hm : p.main = .lock i) (hu : p.mute = false) :
    i ≤ (p.tcpInfo 0).clientNum ∧ ∀ j < i, p.threads j = .exited := by
  obtain ⟨⟨t₀, cur, hag, hst⟩, -⟩ := h
  rw [(hag 0).2.2.2]
  cases hst with
  | between chunk pre m σ hr ho hc hth hf hb =>
    cases hb with
    | lock hm' hu' hle =>
      obtain rfl : i = m := by simpa [hm] using hm'
      exact ⟨hle, hth.before⟩
    | _ => simp_all
  | working | missing => simp_all
  | idle hw => simp [hw.main] at hm
  | _ => simp_all

/-- Main at the lock or at a join with `mute` held: a thread is at work. -/
theorem Proc.Steady.exists_serves (h : p.Steady env) (hm : p.main = .lock i ∨ p.main = .join i)
    (hu : p.mute = true) :
    ∃ m, p.threads m ≠ .absent ∧ p.threads m ≠ .exited ∧ p.Serves m := by
  obtain ⟨t₀, cur, hag, hst⟩ := h.stage
  cases hst with
  | working chunk pre m σ υ pc t hr ho hc hth hf hb hu hi hlt hx ht hrun =>
    have ha : p.threads m ≠ .absent := hth.here ▸ client_not_absent hrun
    have hx : p.threads m ≠ .exited := hth.here ▸ hx
    exact ⟨m, ha, hx, h.serves ha hx⟩
  | between chunk pre m σ hr ho hc hth hf hb =>
    exfalso
    cases hb with
    | _ => simp_all
  | missing chunk pre m σ hs => exact absurd trivial hs
  | idle hw => exact absurd hw.main (by rcases hm with hm | hm <;> simp [hm])
  | _ => rcases hm with hm | hm <;> simp_all

/-- Main about to create a thread: it holds `mute`, and the client is in the table. -/
theorem Proc.Steady.create (h : p.Steady env) (hm : p.main = .create i) :
    p.mute = true ∧ i < (p.tcpInfo 0).clientNum := by
  obtain ⟨⟨t₀, cur, hag, hst⟩, -⟩ := h
  rw [(hag 0).2.2.2]
  cases hst with
  | between chunk pre m σ hr ho hc hth hf hb =>
    cases hb with
    | create hm' hu hlt =>
      obtain rfl : i = m := by simpa [hm] using hm'
      exact ⟨hu, hlt⟩
    | _ => simp_all
  | working chunk pre m σ υ pc t hr ho hc hth hf hb => cases hb <;> simp_all
  | missing chunk pre m σ hs => exact absurd trivial hs
  | idle hw => simp [hw.main] at hm
  | _ => simp_all

/-! ### Equal steps -/

private theorem serialOf_receive (hm : p.main = .recv) (chunk : List UInt8) :
    (p.receive chunk).serialOf = p.serialOf.receive chunk := by
  simp only [Proc.receive, Serial.receive, Proc.serialOf]
  cases classify ((p.receiveBuf.memset MAX_BUFFER_SIZE).store chunk) with
  | live => rfl
  | playback => rfl
  | useless => simp only [Proc.place, hm]

private theorem place_afterRecord (r : Recorder) (before after : Record.Pc) :
    Proc.place { p with recorder := r, main := .afterRecord before after } =
      .afterRecord before after := by
  simp only [Proc.place, MainPc.afterRecord, SerialPc.afterRecord]
  split <;> (split at * <;> simp_all)

/-- Outside the loop over clients main does what the program without threads does. -/
theorem serial_step_main (hm : p.main = .recv ∨ p.main = .run ∨ p.main = .record ∨
      p.main = .prepare) (a : MainInput) (c : ClientInput) :
    (serial env).step w p.serialOf ⟨a.chunk, a.record, c⟩ =
      (p.mainStep env w a).map (fun r ↦ (r.1.serialOf, r.2)) := by
  rcases hm with hm | hm | hm | hm
  · have hplace : p.serialOf.pc = .recv := by simp only [Proc.serialOf, Proc.place, hm]
    simp only [serial, Serial.step, hplace, Proc.mainStep, hm]
    cases a.chunk with
    | none => rfl
    | some chunk =>
      simp only
      split
      · rw [Option.map_some, serialOf_receive hm]
      · rfl
  · have hplace : p.serialOf.pc = .run := by simp only [Proc.serialOf, Proc.place, hm]
    simp only [serial, Serial.step, hplace, Proc.mainStep, hm]
    change (if (p.tcpInfo 0).flag = DISTRIBUTE then _ else _) = _
    split <;> rfl
  · have hplace : p.serialOf.pc = .record := by simp only [Proc.serialOf, Proc.place, hm]
    simp only [serial, Serial.step, hplace, Proc.mainStep, hm, Option.map_map]
    refine congrArg (Option.map · _) (funext fun r ↦ ?_)
    simp only [Function.comp, Proc.serialOf, place_afterRecord]
  · have hplace : p.serialOf.pc = .prepare := by simp only [Proc.serialOf, Proc.place, hm]
    simp only [serial, Serial.step, hplace, Proc.mainStep, hm]
    rfl

/-- While thread `j` works, the process is at the work for client `j + 1`. -/
theorem Proc.Serves.place_eq (hj : p.Serves j) : p.place = .serve j (p.threads j) := by
  cases hj.blocked with
  | lock hm => simp only [Proc.place, hm, Proc.after, hj.mute, ↓reduceIte, Nat.add_sub_cancel]
  | join k hm hk he =>
    simp only [Proc.place, hm, Proc.after, hj.mute, ↓reduceIte, ← he, Nat.add_sub_cancel]

private theorem serve_of_ne {pc : ClientPc} (hx : pc ≠ .exited) (hc : pc ≠ .crashed) :
    SerialPc.afterClient j pc = .serve j pc := by
  cases pc with
  | exited => exact absurd rfl hx
  | crashed => exact absurd rfl hc
  | _ => rfl

/-- Seen without threads, only the table and the place change when a thread moves. -/
theorem Proc.Serves.serialOf_afterClient {c : ClientInput} {pc' : ClientPc} {t' : Table}
    {shm' : Shm} {es' : List ClientEvent} (hj : p.Serves j)
    (hs : clientStep env p.param w.shm (p.threads j, p.tcpInfo) c =
      some ((pc', t'), shm', es')) :
    (p.afterClient j pc' t').serialOf =
      { p.serialOf with tcpInfo := t', pc := .afterClient j pc' } := by
  by_cases hc : pc' = .crashed
  · subst hc
    rfl
  rw [Proc.afterClient_of_ne hc]
  simp only [Proc.serialOf, Serial.mk.injEq, true_and]
  have hn : (t' 0).clientNum = (p.tcpInfo 0).clientNum :=
    (clientStep_agrees (.refl p.tcpInfo) hs 0).2.2.2
  have hex := (clientDoes_of_step hs).exited_iff
  by_cases hx : pc' = .exited
  · subst hx
    rw [if_pos (hex.mp rfl)]
    cases hj.blocked with
    | lock hm => simp [Proc.place, hm, Proc.after, SerialPc.afterClient]
    | join k hm hk he => simp [Proc.place, hm, Proc.after, SerialPc.afterClient, hn, he]
  · rw [if_neg (mt hex.mpr hx), serve_of_ne hx hc]
    cases hj.blocked with
    | lock hm => simp [Proc.place, hm, Proc.after, hj.mute]
    | join k hm hk he => simp [Proc.place, hm, Proc.after, hj.mute, hn, ← he]

/-- A thread at work does what the program without threads does. -/
theorem serial_step_client (h : p.Steady env) (hj : p.Serves j) (chunk : Option (List UInt8))
    (r : Record.Input) (c : ClientInput) :
    (serial env).step w p.serialOf ⟨chunk, r, c⟩ =
      (p.step env w (.client j c)).map (fun r ↦ (r.1.serialOf, r.2)) := by
  have hplace : p.serialOf.pc = .serve j (p.threads j) := hj.place_eq
  have hfans : p.main.fans = true := by
    cases hj.blocked with
    | lock hm => rw [hm]; rfl
    | join k hm => rw [hm]; rfl
  have hparam : p.param = paramFor p.receiveBuf p.receiveSize j := by
    rw [← h.copied hfans j, ← hj.index]
  simp only [serial, Serial.step, hplace, Proc.step, Option.map_map]
  change Option.map _ (clientStep env (paramFor p.receiveBuf p.receiveSize j) w.shm
    (p.threads j, p.tcpInfo) c) = _
  rw [← hparam]
  refine Option.map_congr ?_
  rintro ⟨⟨pc', t'⟩, shm', es'⟩ hs
  simp only [Function.comp, hj.serialOf_afterClient hs, hj.index]

/-! ### Each program does what the other does -/

/-- A step of the process is a step of the program without threads, or none. -/
theorem Proc.Steady.refines {a : Act} (h : p.Steady env) (hc : a.Creates True)
    (hs : p.step env w a = some (p', w', es)) :
    (serial env).closed.Open (p.serialOf, w) es (p'.serialOf, w') := by
  have one {s' : Serial} {w' : World} {es : List Event} (b : SerialInput)
      (hb : (serial env).step w p.serialOf b = some (s', w', es)) :
      (serial env).closed.Open (p.serialOf, w) es (s', w') :=
    Machine.RunIn.closed_single (E := fun _ _ _ ↦ True) trivial hb
  cases a with
  | client j c =>
    have hj : p.Serves j := by
      refine h.serves ?_ ?_ <;>
      · intro hj
        obtain ⟨pc', t', shm', es', hcl, -⟩ := Proc.client_step hs
        rw [hj] at hcl
        cases hcl
    refine one ⟨none, {}, c⟩ ?_
    rw [serial_step_client h hj, hs, Option.map_some]
  | main m =>
    have same (hm : p.main = .recv ∨ p.main = .run ∨ p.main = .record ∨ p.main = .prepare) :
        (serial env).closed.Open (p.serialOf, w) es (p'.serialOf, w') := by
      have hs : p.mainStep env w m = some (p', w', es) := hs
      refine one ⟨m.chunk, m.record, {}⟩ ?_
      rw [serial_step_main hm, hs, Option.map_some]
    have stutter {p' : Proc} (hp : p'.serialOf = p.serialOf) :
        (serial env).closed.Open (p.serialOf, w) [] (p'.serialOf, w) := by
      rw [hp]
      exact .refl
    cases Proc.mainDoes_of_step hs with
    | closed hm | received _ hm => exact same (.inl hm)
    | distribute hm | playback hm => exact same (.inr (.inl hm))
    | record _ _ _ hm => exact same (.inr (.inr (.inl hm)))
    | prepare hm => exact same (.inr (.inr (.inr hm)))
    | lock i hm hlt hu =>
      exact stutter (by simp [Proc.serialOf, Proc.place, hm, Proc.after, hu])
    | allCreated i hm hge =>
      have hi : i = (p.tcpInfo 0).clientNum := by
        cases hu : p.mute with
        | false =>
          have := (h.lock_free hm hu).1
          omega
        | true =>
          obtain ⟨m, -, -, hserves⟩ := h.exists_serves (.inl hm) hu
          have := hserves.bound
          cases hserves.blocked with
          | lock hm' =>
            obtain rfl : i = m + 1 := by simpa [hm] using hm'
            omega
          | join k hm' => simp [hm] at hm'
      exact stutter (by simp [Proc.serialOf, Proc.place, hm, Proc.after, hi])
    | setIndex i hm => exact stutter (by simp [Proc.serialOf, Proc.place, hm])
    | create i hm =>
      obtain ⟨hu, hlt⟩ := h.create hm
      have hcreated : m.created = true := hc trivial
      refine one {} ?_
      simp [serial, Serial.step, Proc.serialOf, Proc.place, hm, hlt, Proc.after, hu, hcreated]
    | join i hm => exact stutter (by simp [Proc.serialOf, Proc.place, hm, Proc.after])
    | allJoined i hm hge =>
      have hu : p.mute = false := by
        rw [← Bool.not_eq_true]
        intro hu
        obtain ⟨m, -, -, hserves⟩ := h.exists_serves (.inr hm) hu
        cases hserves.blocked with
        | lock hm' => simp [hm] at hm'
        | join k hm' hk he =>
          obtain rfl : i = k := by simpa [hm] using hm'
          omega
      exact stutter (by simp [Proc.serialOf, Proc.place, hm, Proc.after, hu])
    | destroy hm =>
      refine one {} ?_
      simp [serial, Serial.step, Proc.serialOf, Proc.place, hm]

/-- Main is outside the loop over clients, or at its beginning. -/
def MainPc.settled : MainPc → Bool
  | .setIndex _ | .create _ | .join _ | .destroy => false
  | _ => true

/-- Steps of a process alone with the world, with a working `pthread_create`. -/
abbrev Proc.Moves (env : Env) (p : Proc) (w : World) : List Event → Proc × World → Prop :=
  (process env).closed.RunIn (fun _ _ a ↦ a.Creates True) (p, w)

private theorem Proc.Moves.main {m : MainInput} (hm : m.created = true)
    (h : p.mainStep env w m = some (p', w', es)) : p.Moves env w es (p', w') :=
  Machine.RunIn.closed_single (M := process env) (E := fun _ _ a ↦ a.Creates True) (a := .main m)
    (fun _ ↦ hm) h

private theorem Proc.Steady.moves {x : Proc × World} (h : p.Steady env)
    (hrun : p.Moves env w es x) : x.1.Steady env :=
  hrun.invariant (fun _ x ↦ x.1.Steady env) h
    (fun _ _ _ _ _ _ _ hx hc hs ↦ hx.step hc (Machine.closed_step hs))

/-- Main joins threads that have exited and gets to `recv`. -/
private theorem Proc.joins (env : Env) (w : World) {k d : Nat} (hm : p.main = .join k)
    (hall : ∀ j < (p.tcpInfo 0).clientNum, p.threads j = .exited)
    (hd : (p.tcpInfo 0).clientNum - k = d) :
    ∃ p', p.Moves env w [] (p', w) ∧ p'.main = .recv ∧
      p'.serialOf = { p.serialOf with pc := .recv } := by
  induction d generalizing p k with
  | zero =>
    have hge : ¬ k < (p.tcpInfo 0).clientNum := by omega
    have hjoined : p.Moves env w [] ({ p with main := .destroy }, w) :=
      Proc.Moves.main (m := {}) rfl (by simp [Proc.mainStep, hm, hge])
    refine ⟨_, hjoined.trans (Proc.Moves.main (m := {}) rfl rfl), rfl, rfl⟩
  | succ d ih =>
    have hlt : k < (p.tcpInfo 0).clientNum := by omega
    have hjoined : p.Moves env w [] ({ p with main := .join (k + 1) }, w) :=
      Proc.Moves.main (m := {}) rfl (by simp [Proc.mainStep, hm, hlt, hall k hlt])
    obtain ⟨p', hrun, hrecv, hserial⟩ :=
      ih (p := { p with main := .join (k + 1) }) rfl hall (by simp only; omega)
    exact ⟨p', hjoined.trans hrun, hrecv, hserial⟩

private theorem settled_of_main {m : MainInput} (hm : p.main = .recv ∨ p.main = .run ∨
      p.main = .record ∨ p.main = .prepare) (h : p.mainStep env w m = some (p', w', es)) :
    p'.main.settled = true := by
  cases Proc.mainDoes_of_step h with
  | received chunk hr =>
    simp only [Proc.receive]
    split
    · rfl
    · rfl
    · simp only [hr, MainPc.settled]
  | record =>
    simp only [MainPc.afterRecord]
    split <;> rfl
  | closed | distribute | playback | prepare => rfl
  | lock _ h' | allCreated _ h' | setIndex _ h' | create _ h' | join _ h' | allJoined _ h'
  | destroy h' => simp [h'] at hm

/-- A step of the program without threads is made by the process, with the thread that does the
work or by main on its way to the next client. -/
theorem Proc.Steady.matches {b : SerialInput} {s' : Serial} (h : p.Steady env)
    (hset : p.main.settled = true)
    (hs : (serial env).step w p.serialOf b = some (s', w', es)) :
    ∃ p', p.Moves env w es (p', w') ∧ p'.main.settled = true ∧ p'.serialOf = s' := by
  have same (hm : p.main = .recv ∨ p.main = .run ∨ p.main = .record ∨ p.main = .prepare) :
      ∃ p', p.Moves env w es (p', w') ∧ p'.main.settled = true ∧ p'.serialOf = s' := by
    have heq : (serial env).step w p.serialOf b =
        (p.mainStep env w ⟨b.chunk, b.record, true, false⟩).map (fun r ↦ (r.1.serialOf, r.2)) :=
      serial_step_main hm ⟨b.chunk, b.record, true, false⟩ b.client
    rw [hs] at heq
    obtain ⟨⟨p', w'', es'⟩, hstep, he⟩ := Option.map_eq_some_iff.mp heq.symm
    obtain ⟨rfl, rfl, rfl⟩ : p'.serialOf = s' ∧ w'' = w' ∧ es' = es := by simpa using he
    exact ⟨p', Proc.Moves.main rfl hstep, settled_of_main hm hstep, rfl⟩
  cases hm : p.main with
  | recv => exact same (.inl hm)
  | run => exact same (.inr (.inl hm))
  | record => exact same (.inr (.inr (.inl hm)))
  | prepare => exact same (.inr (.inr (.inr hm)))
  | closed | dead => simp [serial, Serial.step, Proc.serialOf, Proc.place, hm] at hs
  | setIndex | create | join | destroy => simp [hm, MainPc.settled] at hset
  | lock i =>
    cases hu : p.mute with
    | true =>
      obtain ⟨m, -, -, hserves⟩ := h.exists_serves (.inl hm) hu
      have heq := serial_step_client (w := w) h hserves b.chunk b.record b.client
      rw [hs] at heq
      obtain ⟨⟨p', w'', es'⟩, hstep, he⟩ := Option.map_eq_some_iff.mp heq.symm
      obtain ⟨rfl, rfl, rfl⟩ : p'.serialOf = s' ∧ w'' = w' ∧ es' = es := by simpa using he
      refine ⟨p', Machine.RunIn.closed_single (M := process env)
        (E := fun _ _ a ↦ a.Creates True) (a := .client m b.client) trivial hstep, ?_, rfl⟩
      obtain ⟨pc', t', shm', es', -, rfl, -, -⟩ := Proc.client_step hstep
      simp only [Proc.afterClient]
      split
      · rfl
      · simp only [hm, MainPc.settled]
    | false =>
      obtain ⟨hle, hall⟩ := h.lock_free hm hu
      have hplace : p.serialOf.pc = .next i := by
        simp [Proc.serialOf, Proc.place, hm, Proc.after, hu]
      simp only [serial, Serial.step, hplace] at hs
      split at hs
      · next hlt =>
        simp only [Option.some.injEq, Prod.mk.injEq] at hs
        obtain ⟨rfl, rfl, rfl⟩ := hs
        have hlock : p.Moves env w [] ({ p with mute := true, main := .setIndex i }, w) :=
          Proc.Moves.main (m := {}) rfl (by
            have hlt : i < (p.tcpInfo 0).clientNum := hlt
            simp [Proc.mainStep, hm, hlt, hu])
        refine ⟨_, (hlock.trans (Proc.Moves.main (m := {}) rfl rfl)).trans
          (Proc.Moves.main (m := {}) rfl rfl), rfl, ?_⟩
        simp [Proc.serialOf, Proc.place, Proc.after]
      · next hge =>
        have hge : ¬ i < (p.tcpInfo 0).clientNum := hge
        simp only [Option.some.injEq, Prod.mk.injEq] at hs
        obtain ⟨rfl, rfl, rfl⟩ := hs
        have hcreated : p.Moves env w [] ({ p with main := .join 0 }, w) :=
          Proc.Moves.main (m := {}) rfl (by simp [Proc.mainStep, hm, hge])
        obtain ⟨p', hrun, hrecv, hserial⟩ := Proc.joins env w
          (p := { p with main := .join 0 }) rfl (fun j hj ↦ hall j (by simp only at hj; omega)) rfl
        exact ⟨p', hcreated.trans hrun, by rw [hrecv]; rfl, hserial⟩

/-- For any number of processes that wait for chunks, as long as `pthread_create` works: the
events they can leave, and the lock files and records after them, are those of the program that
serves the clients of a chunk one after the other without threads. -/
theorem threads_like_serial {ι : Type} [DecidableEq ι] {S₀ : Sys ι World Proc}
    (h₀ : ∀ i, (S₀.procs i).Waiting) (τ : List (ι × Event)) (w : World) :
    (∃ S, ((process env).interleave ι).RunIn (fun _ _ x ↦ x.2.Creates True) S₀ τ S ∧
        S.world = w) ↔
      ∃ T, ((serial env).interleave ι).Open ⟨fun i ↦ (S₀.procs i).serialOf, S₀.world⟩ τ T ∧
        T.world = w := by
  constructor
  · rintro ⟨S, hrun, rfl⟩
    obtain ⟨T, hrun', -, hworld⟩ := Machine.RunIn.simulate (M := process env)
      (N := serial env) (R := fun p s ↦ p.Steady env ∧ s = p.serialOf)
      (E := fun _ _ a ↦ a.Creates True) (F := fun _ _ _ ↦ True)
      ⟨fun i ↦ (S₀.procs i).serialOf, S₀.world⟩
      (fun w p a p' w' es s ⟨hp, hs⟩ hc hstep ↦ ⟨p'.serialOf, hs ▸ hp.refines hc hstep,
        hp.step hc hstep, rfl⟩)
      (fun i ↦ ⟨(h₀ i).steady, rfl⟩) rfl hrun
    exact ⟨T, hrun', hworld⟩
  · rintro ⟨T, hrun, rfl⟩
    obtain ⟨S, hrun', -, hworld⟩ := Machine.RunIn.simulate (M := serial env)
      (N := process env)
      (R := fun s p ↦ p.Steady env ∧ p.main.settled = true ∧ p.serialOf = s)
      (E := fun _ _ _ ↦ True) (F := fun _ _ a ↦ a.Creates True) S₀ (by
        rintro w s b s' w' es p ⟨hp, hset, rfl⟩ - hstep
        obtain ⟨p', hmoves, hset', hserial⟩ := hp.matches hset hstep
        exact ⟨p', hmoves, hp.moves hmoves, hset', hserial⟩)
      (fun i ↦ ⟨(h₀ i).steady, by rw [(h₀ i).main]; rfl, rfl⟩) rfl hrun
    exact ⟨S, hrun', hworld⟩

/-- Two processes with two clients each: what one of them sends to its second client, by a
thread, is sent without threads. -/
theorem threads_like_serial_two_clients :
    let env : Env := ⟨['d'], fun _ ↦ ['1']⟩
    let p : Proc := .forked (fun _ ↦ { clientNum := 2 }) 0
    let w : World := ⟨∅, ⟨{env.dayDir 0}, fun _ ↦ none⟩⟩
    (∀ i : Bool, ((⟨fun _ ↦ p, w⟩ : Sys Bool World Proc).procs i).Waiting) ∧
      ∃ τ T, ((serial env).interleave Bool).Open ⟨fun _ ↦ p.serialOf, w⟩ τ T ∧
        (true, .client 1 2 (.send 5 [0x66, 0x66, 0x66, 0x66] (.sent 4))) ∈ τ := by
  intro env p w
  have h₀ (i : Bool) : ((⟨fun _ ↦ p, w⟩ : Sys Bool World Proc).procs i).Waiting :=
    Proc.forked_waiting _ 0
  let main (n : Nat) : List (Unit × Bool × Act) := List.replicate n ((), true, .main {})
  let client (j : Nat) : List (Unit × Bool × Act) :=
    List.replicate 6 ((), true, .client j { socket := .connected 5, send := .sent 4 })
  obtain ⟨τ, S, hrun, hsent⟩ := Machine.exec_observe ((process env).interleave Bool)
    (fun _ _ x ↦ decide (x.2.Creates True)) ⟨fun _ ↦ p, w⟩
    (((), true, .main { chunk := some [0x66, 0x66, 0x66, 0x66] }) :: main 11 ++ client 0 ++
      main 3 ++ client 1)
    (fun _ τ ↦ (true, .client 1 2 (.send 5 [0x66, 0x66, 0x66, 0x66] (.sent 4))) ∈ τ)
    (fun _ _ _ hc ↦ of_decide_eq_true hc) (by decide +kernel)
  obtain ⟨T, hserial, -⟩ := (threads_like_serial h₀ τ S.world).mp ⟨S, hrun, rfl⟩
  exact ⟨h₀, τ, T, hserial, hsent⟩

end DupDistribute.Distribute

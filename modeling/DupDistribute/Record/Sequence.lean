import DupDistribute.Record.Names
import DupDistribute.Record.DayChange
import Mathlib.Data.List.Chain

/-!
# The records of one process

One process alone with its store, all of whose calls of `initDataRecord` succeed. Each record
follows the one before it: its counter goes on from there, its clock readings are not earlier,
and its directory is seen if the record before lies in it. What a sequence of records can look
like is derived from this relation between neighbours only.
-/

namespace DupDistribute.Record

open DupDistribute.Base

variable {env : Env}

/-- The clock reading of an event as the code keeps it: a `time_t` in `GetDirName` and an
`unsigned int` in `CreateDataFile`. -/
def Event.held : Event → Option Nat
  | .readDate now => some now
  | .readTime now => some (UInt32.ofNat now).toNat
  | _ => none

/-- The call that got its file. -/
def Event.call : Event → Option Call
  | .fopen call _ => some call
  | _ => none

/-- The clock readings of a trace. -/
def readings (ρ : List Event) : List Nat := ρ.filterMap Event.held

/-- The calls that got a file, in order. -/
def calls (ρ : List Event) : List Call := ρ.filterMap Event.call

/-- The counter in the name. -/
def Call.counter (c : Call) : UInt32 := nextUuid c.uuid c.existed

/-- What a call finds that comes directly after another one. -/
structure Follows (env : Env) (c d : Call) : Prop where
  carried : d.uuid = c.counter
  later : c.timestamp ≤ d.timestamp
  sameSecond : c.timestamp = d.timestamp → d.dir = env.dayDir d.timestamp.toNat
  seen : d.dir = c.dir → d.existed = true

/-! ### One step -/

/-- The directory is that of a reading which is not earlier than the record. -/
def DatedAfter (env : Env) (last : Call) (held : List Nat) (dir : CString) : Prop :=
  ∃ d ∈ held, dir = env.dayDir d ∧ last.timestamp.toNat ≤ d

/-- What the program points promise about the call itself. -/
def Pc.Own (uuid : UInt32) (held : List Nat) : Pc → Prop
  | .createDataFile _ existed before => uuid = createDataDirUuid existed before
  | .fopen call _ => uuid = call.counter ∧ call.timestamp.toNat ∈ held
  | _ => True

/-- What they promise about a record before the call. -/
def Pc.After (env : Env) (last : Call) (uuid : UInt32) (held : List Nat) : Pc → Prop
  | .accessDir dir => uuid = last.counter ∧ DatedAfter env last held dir
  | .mkdir dir => uuid = last.counter ∧ DatedAfter env last held dir
  | .createDataFile dir existed before =>
    before = last.counter ∧ (dir = last.dir → existed = true) ∧ DatedAfter env last held dir
  | .fopen call _ => Follows env last call
  | _ => uuid = last.counter

/-- The records so far follow each other, and the process goes on from the last one. -/
structure Sequenced (env : Env) (ρ : List Event) (s : Recorder) (w : Store) : Prop where
  chain : (calls ρ).IsChain (Follows env)
  own : s.pc.Own s.uuid (readings ρ)
  last : ∀ c, (calls ρ).getLast? = some c →
    c.dir ∈ w.dirs ∧ c.timestamp.toNat ∈ readings ρ ∧ s.pc.After env c s.uuid (readings ρ)

@[simp] private theorem readings_append (ρ es : List Event) :
    readings (ρ ++ es) = readings ρ ++ readings es := List.filterMap_append

@[simp] private theorem calls_append (ρ es : List Event) :
    calls (ρ ++ es) = calls ρ ++ calls es := List.filterMap_append

/-- The last reading is not earlier than any before. -/
private theorem le_of_clock {held : List Nat} {now x : Nat}
    (hclock : (held ++ [now]).Pairwise (· ≤ ·)) (hx : x ∈ held) : x ≤ now :=
  (List.pairwise_append.mp hclock).2.2 x hx now (by simp)

private theorem DatedAfter.append {last : Call} {held : List Nat} {dir : CString}
    (h : DatedAfter env last held dir) (more : List Nat) :
    DatedAfter env last (held ++ more) dir := by
  obtain ⟨d, hd, hdir⟩ := h
  exact ⟨d, List.mem_append_left _ hd, hdir⟩

/-- A step that opens no file. -/
private theorem Sequenced.keep {ρ es : List Event} {s s' : Recorder} {w w' : Store}
    (h : Sequenced env ρ s w) (hnone : calls es = []) (hdirs : w.dirs ⊆ w'.dirs)
    (hown : s'.pc.Own s'.uuid (readings (ρ ++ es)))
    (hlast : ∀ c, c.dir ∈ w.dirs → c.timestamp.toNat ∈ readings ρ →
      s.pc.After env c s.uuid (readings ρ) →
      s'.pc.After env c s'.uuid (readings (ρ ++ es))) : Sequenced env (ρ ++ es) s' w' := by
  refine ⟨?_, hown, ?_⟩
  · rw [calls_append, hnone, List.append_nil]
    exact h.chain
  · intro c hc
    rw [calls_append, hnone, List.append_nil] at hc
    obtain ⟨hdir, htime, hafter⟩ := h.last c hc
    refine ⟨hdirs hdir, ?_, hlast c hdir htime hafter⟩
    rw [readings_append]
    exact List.mem_append_left _ htime

/-- A call reads the clock for the name of its file. -/
private theorem follows_of_name {last : Call} {held : List Nat} {dir : CString} {existed : Bool}
    {before : UInt32} {now : Nat}
    (hclock : (held ++ [(UInt32.ofNat now).toNat]).Pairwise (· ≤ ·))
    (htime : last.timestamp.toNat ∈ held) (hbefore : before = last.counter)
    (hseen : dir = last.dir → existed = true) (hdated : DatedAfter env last held dir) :
    Follows env last ⟨dir, existed, before, UInt32.ofNat now⟩ := by
  obtain ⟨d, hd, rfl, hle⟩ := hdated
  refine ⟨hbefore, ?_, ?_, hseen⟩
  · rw [UInt32.le_iff_toNat_le]
    exact le_of_clock hclock htime
  · intro heq
    -- The reading for the directory lies between two equal ones.
    have hbetween := le_of_clock hclock hd
    have hsame : d = (UInt32.ofNat now).toNat := by
      rw [heq] at hle
      exact Nat.le_antisymm hbetween hle
    rw [hsame]

private theorem sequenced_step {ρ es : List Event} {s s' : Recorder} {w w' : Store} {a : Input}
    (h : Sequenced env ρ s w) (hs : s.step env w a = some (s', w', es))
    (hok : Event.returned none ∉ es) (hclock : (readings (ρ ++ es)).Pairwise (· ≤ ·)) :
    Sequenced env (ρ ++ es) s' w' := by
  have hdirs := Recorder.step_dirs hs
  cases Recorder.does_of_step hs with
  | call u | conf u =>
    refine h.keep rfl hdirs trivial ?_
    intro c _ _ hafter
    exact hafter
  | noConf | notMade | notOpened => simp at hok
  | date u =>
    refine h.keep rfl hdirs trivial ?_
    intro c _ htime hafter
    rw [readings_append] at hclock ⊢
    exact ⟨hafter, a.now, by simp [readings, Event.held], rfl, le_of_clock hclock htime⟩
  | present u dir hd =>
    refine h.keep rfl hdirs rfl ?_
    rintro c _ _ ⟨huuid, hdated⟩
    rw [readings_append]
    exact ⟨huuid, fun _ ↦ rfl, hdated.append _⟩
  | missing u dir hd =>
    refine h.keep rfl hdirs trivial ?_
    rintro c _ _ ⟨huuid, hdated⟩
    rw [readings_append]
    exact ⟨huuid, hdated.append _⟩
  | made u dir _ hd =>
    refine h.keep rfl hdirs rfl ?_
    rintro c hdir _ ⟨huuid, hdated⟩
    rw [readings_append]
    refine ⟨huuid, ?_, hdated.append _⟩
    rintro rfl
    exact absurd hdir hd
  | name u dir existed before =>
    have hu : u = createDataDirUuid existed before := h.own
    rw [readings_append] at hclock
    refine h.keep rfl hdirs ⟨?_, by simp [readings, Event.held]⟩ ?_
    · rw [hu, Call.counter, nextUuid]
    · rintro c _ htime ⟨hbefore, hseen, hdated⟩
      exact follows_of_name hclock htime hbefore hseen hdated
  | opens u call path _ hd =>
    obtain ⟨huuid, htime⟩ := h.own
    have hcalls : calls (ρ ++ [.fopen call path, .returned (some path)]) = calls ρ ++ [call] := by
      rw [calls_append]
      rfl
    refine ⟨?_, trivial, ?_⟩
    · rw [hcalls]
      refine h.chain.append (.singleton call) ?_
      intro c hc d hd
      obtain rfl : call = d := by simpa using hd
      exact (h.last c hc).2.2
    · intro c hc
      rw [hcalls, List.getLast?_concat] at hc
      obtain rfl := Option.some.inj hc
      refine ⟨hd, ?_, huuid⟩
      rw [readings_append]
      exact List.mem_append_left _ htime
  | writes u path =>
    refine h.keep rfl hdirs trivial ?_
    intro c _ _ hafter
    exact hafter

/-- In every closed run without a failed call and with a clock that never goes back, the records
follow each other. -/
theorem sequenced_of_closed {x₀ x : Recorder × Store} {ρ : List Event} (h₀ : x₀.1.pc = .idle)
    (h : (recorder env).closed.Open x₀ ρ x) (hok : Event.returned none ∉ ρ)
    (hclock : (readings ρ).Pairwise (· ≤ ·)) : Sequenced env ρ x.1 x.2 := by
  refine h.invariant (fun ρ x ↦ Event.returned none ∉ ρ → (readings ρ).Pairwise (· ≤ ·) →
    Sequenced env ρ x.1 x.2) ?_ ?_ hok hclock
  · intro _ _
    refine ⟨.nil, by rw [h₀]; trivial, ?_⟩
    intro c hc
    cases hc
  · intro ρ x _ a x' _ es hi _ hs hok hclock
    have hprev : (readings ρ).Pairwise (· ≤ ·) := by
      rw [readings_append] at hclock
      exact (List.pairwise_append.mp hclock).1
    rw [List.mem_append, not_or] at hok
    exact sequenced_step (hi hok.1 hprev) (Machine.closed_step hs) hok.2 hclock

/-! ### Counters of neighbours -/

theorem Call.counter_le (c : Call) : c.counter.toNat ≤ 999 := by
  rw [Call.counter, nextUuid, createDataFileUuid]
  split
  · simp
  · next h =>
    rw [gt_iff_lt, UInt32.lt_iff_toNat_lt] at h
    exact Nat.le_of_not_lt h

/-- In a directory that is there the counter goes on, and from 999 to zero. -/
theorem counter_of_existed {d : Call} (hseen : d.existed = true) (hle : d.uuid.toNat ≤ 999) :
    d.counter.toNat = (d.uuid.toNat + 1) % 1000 := by
  have hnext : (d.uuid + 1).toNat = d.uuid.toNat + 1 := by
    rw [UInt32.toNat_add, UInt32.toNat_one]
    omega
  rw [Call.counter, nextUuid, createDataDirUuid, hseen, if_pos rfl, createDataFileUuid]
  split
  · next h =>
    rw [gt_iff_lt, UInt32.lt_iff_toNat_lt, hnext] at h
    have h999 : (999 : UInt32).toNat = 999 := rfl
    rw [UInt32.toNat_zero]
    omega
  · next h =>
    rw [gt_iff_lt, UInt32.lt_iff_toNat_lt, hnext] at h
    have h999 : (999 : UInt32).toNat = 999 := rfl
    rw [hnext]
    omega

/-- The counter of a record in the directory of the one before. -/
theorem Follows.counter {c d : Call} (h : Follows env c d) (hdir : d.dir = c.dir) :
    d.counter.toNat = (c.counter.toNat + 1) % 1000 := by
  have hle : d.uuid.toNat ≤ 999 := by
    rw [h.carried]
    exact c.counter_le
  rw [counter_of_existed (h.seen hdir) hle, h.carried]

private theorem counter_run {c d : Call} {between : List Call}
    (h : (c :: (between ++ [d])).IsChain (Follows env))
    (hdir : ∀ x ∈ between ++ [d], x.dir = c.dir) :
    d.counter.toNat = (c.counter.toNat + between.length + 1) % 1000 := by
  induction between generalizing c with
  | nil =>
    rw [List.nil_append] at h hdir
    exact (List.isChain_pair.mp h).counter (hdir d (by simp))
  | cons b between ih =>
    rw [List.cons_append] at h hdir
    obtain ⟨hfirst, hrest⟩ := List.isChain_cons_cons.mp h
    obtain ⟨hb, hothers⟩ := List.forall_mem_cons.mp hdir
    have hstep := hfirst.counter hb
    rw [ih hrest (fun x hx ↦ (hothers x hx).trans hb.symm), hstep, List.length_cons]
    omega

/-- Records of one second after the first one are in the directory of that second. -/
private theorem dir_run {c : Call} {more : List Call} (h : (c :: more).IsChain (Follows env))
    (htime : ∀ x ∈ more, x.timestamp = c.timestamp) :
    ∀ x ∈ more, x.dir = env.dayDir c.timestamp.toNat := by
  induction more generalizing c with
  | nil => simp
  | cons b more ih =>
    obtain ⟨hfirst, hrest⟩ := List.isChain_cons_cons.mp h
    obtain ⟨hb, hothers⟩ := List.forall_mem_cons.mp htime
    have hrun := ih hrest (fun x hx ↦ (hothers x hx).trans hb.symm)
    rw [hb] at hrun
    refine List.forall_mem_cons.mpr ⟨?_, hrun⟩
    rw [hfirst.sameSecond hb.symm, hb]

/-- The times of the records never decrease. -/
theorem timestamps_sorted {cs : List Call} (h : cs.IsChain (Follows env)) :
    cs.Pairwise (fun c d ↦ c.timestamp ≤ d.timestamp) := by
  have hchain : cs.IsChain (fun c d ↦ c.timestamp ≤ d.timestamp) := h.imp (fun _ _ hf ↦ hf.later)
  have : IsTrans Call (fun c d ↦ c.timestamp ≤ d.timestamp) := ⟨fun _ _ _ ↦ UInt32.le_trans⟩
  exact List.isChain_iff_pairwise.mp hchain

/-- Two records with the same path are a thousand records of one second apart. -/
private theorem path_ne {c d : Call} {between after : List Call}
    (h : (c :: (between ++ d :: after)).IsChain (Follows env))
    (hmany : (c :: (between ++ d :: after)).countP (fun x ↦ x.timestamp = c.timestamp) ≤ 1000) :
    c.path ≠ d.path := by
  intro heq
  obtain ⟨hdir, htime, hcount⟩ := dataFile_inj heq
  have hsplit : c :: (between ++ d :: after) = (c :: (between ++ [d])) ++ after := by simp
  rw [hsplit] at h hmany
  have hchain := h.left_of_append
  have hsame : ∀ x ∈ between ++ [d], x.timestamp = c.timestamp := by
    obtain ⟨hfirst, hrest⟩ := List.pairwise_cons.mp (timestamps_sorted hchain)
    intro x hx
    have hlow := hfirst x hx
    rcases List.mem_append.mp hx with hbetween | hlast
    · have hhigh := (List.pairwise_append.mp hrest).2.2 x hbetween d (by simp)
      rw [← htime] at hhigh
      exact UInt32.le_antisymm hhigh hlow
    · obtain rfl := List.mem_singleton.mp hlast
      exact htime.symm
  have hdirs := dir_run hchain hsame
  have hd := hdirs d (by simp)
  have hrun := counter_run hchain (fun x hx ↦ by rw [hdirs x hx, hdir, hd])
  have hblock : (c :: (between ++ [d])).countP (fun x ↦ x.timestamp = c.timestamp) =
      between.length + 2 := by
    rw [List.countP_eq_length.mpr]
    · simp
    · intro x hx
      rcases List.mem_cons.mp hx with rfl | hx
      · simp
      · simpa using hsame x hx
  have hle := c.counter_le
  have hcount : c.counter.toNat = d.counter.toNat := congrArg UInt32.toNat hcount
  rw [List.countP_append, hblock] at hmany
  omega

private theorem paths_ne {cs : List Call} (h : cs.IsChain (Follows env))
    (hmany : ∀ t, cs.countP (fun c ↦ c.timestamp = t) ≤ 1000) :
    cs.Pairwise (fun c d ↦ c.path ≠ d.path) := by
  induction cs with
  | nil => exact .nil
  | cons c cs ih =>
    refine List.pairwise_cons.mpr ⟨?_, ih h.of_cons ?_⟩
    · intro d hd
      obtain ⟨between, after, rfl⟩ := List.append_of_mem hd
      exact path_ne h (hmany c.timestamp)
    · intro t
      have hle := hmany t
      rw [List.countP_cons] at hle
      omega

/-- Readings below `2 ^ 32` are kept as they are. -/
theorem readings_of_small {ρ : List Event}
    (hsmall : ∀ now, Event.readTime now ∈ ρ → now < 4294967296) :
    readings ρ = ρ.filterMap Event.reading := by
  apply List.filterMap_congr
  intro e he
  cases e with
  | readTime now =>
    have hnow : (UInt32.ofNat now).toNat = now := UInt32.toNat_ofNat_of_lt' (hsmall now he)
    rw [Event.held, Event.reading, hnow]
  | _ => rfl

/-- One process alone, all of whose calls succeed, with a clock that never goes back and whose
readings for the names are below `2 ^ 32`, any mapping of seconds to dates and any counter to
begin with: as long as no second has more than a thousand records, all paths are different. -/
theorem opened_paths_distinct {x₀ x : Recorder × Store} {ρ : List Event} (h₀ : x₀.1.pc = .idle)
    (h : (recorder env).closed.Open x₀ ρ x) (hok : Event.returned none ∉ ρ)
    (hclock : (ρ.filterMap Event.reading).Pairwise (· ≤ ·))
    (hsmall : ∀ now, Event.readTime now ∈ ρ → now < 4294967296)
    (hmany : ∀ t, (calls ρ).countP (fun c ↦ c.timestamp = t) ≤ 1000) :
    (ρ.filterMap Event.openedPath).Pairwise (· ≠ ·) := by
  have hnamed := named_of_open h₀ h.open_of_closed
  have hpaths : ρ.filterMap Event.openedPath = (calls ρ).map Call.path := by
    rw [calls, List.map_filterMap]
    apply List.filterMap_congr
    intro e he
    cases e with
    | fopen c path => simp [Event.openedPath, Event.call, hnamed.opens c path he]
    | _ => rfl
  rw [← readings_of_small hsmall] at hclock
  rw [hpaths, List.pairwise_map]
  exact paths_ne (sequenced_of_closed h₀ h hok hclock).chain hmany

/-- Three records across midnight: the first call reads the old day and then the first second of
the new one, the second makes the directory of the new day, and the third goes on in it. -/
theorem opened_paths_distinct_midnight :
    let env : Env := ⟨['d'], fun now ↦ if now < 10 then ['1'] else ['2']⟩
    ∃ ρ x, (recorder env).closed.Open (⟨5, .idle⟩, ⟨∅, fun _ ↦ none⟩) ρ x ∧
      (calls ρ).map (fun c ↦ (c.dir, c.counter)) =
        [(env.dayDir 9, 0), (env.dayDir 10, 0), (env.dayDir 10, 1)] ∧
      (ρ.filterMap Event.openedPath).Pairwise (· ≠ ·) := by
  intro env
  let steps (n now : Nat) : List (Unit × Input) := List.replicate n ((), { now := now })
  obtain ⟨ρ, x, hrun, hok, hclock, hsmall, hcalls⟩ :=
    Machine.exec_observe (recorder env).closed (fun _ _ _ ↦ true)
      (⟨5, .idle⟩, ⟨∅, fun _ ↦ none⟩)
      (steps 5 9 ++ steps 3 10 ++ (steps 5 10 ++ steps 3 10) ++ (steps 4 10 ++ steps 3 10))
      (fun _ ρ ↦ Event.returned none ∉ ρ ∧ (ρ.filterMap Event.reading).Pairwise (· ≤ ·) ∧
        (∀ e ∈ ρ, ∀ now ∈ e.reading, now < 4294967296) ∧
        (calls ρ).map (fun c ↦ (c.dir, c.counter)) =
          [(env.dayDir 9, 0), (env.dayDir 10, 0), (env.dayDir 10, 1)])
      (fun _ _ _ _ ↦ trivial) (by decide +kernel)
  refine ⟨ρ, x, hrun, hcalls, opened_paths_distinct rfl hrun hok hclock ?_ ?_⟩
  · intro now hm
    exact hsmall _ hm now rfl
  · intro t
    have hlen : (calls ρ).length = 3 := by simpa using congrArg List.length hcalls
    exact List.countP_le_length.trans (by omega)

/-- Three records at 5, at 6 and at `2 ^ 32 + 5`, where the second makes the directory of another
day: the third is in the directory of the first again, and its name carries the second 5 and the
counter 1 as the first one's does. -/
theorem opened_path_again_after_wrap :
    let env : Env := ⟨['d'], fun now ↦ if now = 6 then ['2'] else ['1']⟩
    ∃ ρ x, (recorder env).closed.Open (⟨0, .idle⟩, ⟨{env.dayDir 5}, fun _ ↦ none⟩) ρ x ∧
      Event.returned none ∉ ρ ∧ (ρ.filterMap Event.reading).Pairwise (· ≤ ·) ∧
      (∀ t, (calls ρ).countP (fun c ↦ c.timestamp = t) ≤ 1000) ∧
      ¬ (ρ.filterMap Event.openedPath).Pairwise (· ≠ ·) := by
  intro env
  let steps (n now : Nat) : List (Unit × Input) := List.replicate n ((), { now := now })
  obtain ⟨ρ, x, hrun, hok, hclock, hlen, hagain⟩ :=
    Machine.exec_observe (recorder env).closed (fun _ _ _ ↦ true)
      (⟨0, .idle⟩, ⟨{env.dayDir 5}, fun _ ↦ none⟩)
      (steps 7 5 ++ steps 8 6 ++ steps 7 (2 ^ 32 + 5))
      (fun _ ρ ↦ Event.returned none ∉ ρ ∧ (ρ.filterMap Event.reading).Pairwise (· ≤ ·) ∧
        (calls ρ).length = 3 ∧ ¬ (ρ.filterMap Event.openedPath).Pairwise (· ≠ ·))
      (fun _ _ _ _ ↦ trivial) (by decide +kernel)
  refine ⟨ρ, x, hrun, hok, hclock, ?_, hagain⟩
  intro t
  exact List.countP_le_length.trans (by omega)

end DupDistribute.Record

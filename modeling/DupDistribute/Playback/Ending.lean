import DupDistribute.Playback.Pacing
import DupDistribute.Playback.Delivery
import DupDistribute.Playback.Ownership

/-!
# The end of a replay

The loop of `scanAndSend` (`playback.c:43-110`) has no step expression: `i` moves only when a
`send` takes bytes. With an undisturbed clock every record is due sooner or later, even after
the product of the pacing test has wrapped around, and is then sent. A record without bytes is
sent again and again: `send` returns 0 and the index stays. And as no record is due in the first
second, the entry of the first one is freed at least twice, which the C library may answer by
ending the process.
-/

namespace DupDistribute.Playback

open DupDistribute.Base DupDistribute.Wire DupDistribute.Record

/-! ### Iterations one at a time -/

/-- The first `n` iterations of the loop. -/
def Scan.after (args : ScanArgs) (s : Scan) (inputs : Nat → Shm × ScanInput) (n : Nat) :
    Scan × List ScanEvent :=
  s.iterations args ((List.range n).map inputs)

private theorem Scan.iterations_of_ne {args : ScanArgs} {s : Scan} (hp : s.pc ≠ .check)
    (outcomes : List (Shm × ScanInput)) : s.iterations args outcomes = (s, []) := by
  cases outcomes with
  | nil => rfl
  | cons o rest =>
    rw [Scan.iterations]
    cases h : s.pc with
    | check => exact absurd h hp
    | scandir | body | returned | crashed => rfl

private theorem Scan.iterations_append (args : ScanArgs) (s : Scan)
    (first later : List (Shm × ScanInput)) :
    s.iterations args (first ++ later) =
      let r := s.iterations args first
      ((r.1.iterations args later).1, r.2 ++ (r.1.iterations args later).2) := by
  induction first generalizing s with
  | nil => rfl
  | cons o rest ih =>
    by_cases hp : s.pc = .check
    · simp only [List.cons_append, Scan.iterations, hp, ih, List.append_assoc]
    · simp only [Scan.iterations_of_ne hp, List.nil_append]

/-- Out of the loop nothing happens any more. -/
private theorem Scan.after_of_ne {args : ScanArgs} {s : Scan} {inputs : Nat → Shm × ScanInput}
    {n m : Nat} (hle : n ≤ m) (hp : (s.after args inputs n).1.pc ≠ .check) :
    (s.after args inputs m).1 = (s.after args inputs n).1 := by
  obtain ⟨d, rfl⟩ := Nat.exists_eq_add_of_le hle
  rw [Scan.after, List.range_add, List.map_append, Scan.iterations_append]
  change ((s.after args inputs n).1.iterations args _).1 = _
  rw [Scan.iterations_of_ne hp]

private theorem Scan.after_succ (args : ScanArgs) (s : Scan) (inputs : Nat → Shm × ScanInput)
    (n : Nat) :
    s.after args inputs (n + 1) =
      let r := s.after args inputs n
      ((r.1.iterations args [inputs n]).1, r.2 ++ (r.1.iterations args [inputs n]).2) := by
  rw [Scan.after, List.range_succ, List.map_append, Scan.iterations_append]
  rfl

/-! ### An undisturbed replay -/

/-- The elapsed seconds take the values 0, 1, 2, ... in turn, each for finitely many
iterations. -/
structure Elapses (elapsed : Nat → Nat) : Prop where
  zero : elapsed 0 = 0
  step : ∀ n, elapsed (n + 1) = elapsed n ∨ elapsed (n + 1) = elapsed n + 1
  onto : ∀ m, ∃ n, elapsed n = m

/-- An iteration at which the lock file is in place, the record file is readable and has its
content, and `send` takes the whole buffer. -/
structure Undisturbed (address : CString) (content : CString → List UInt8) (now : Nat) (s : Scan)
    (o : Shm × ScanInput) : Prop where
  lock : shmFile address ∈ o.1
  clock : o.2.now = now
  path : o.2.stalePath = s.namelist.getD s.i []
  time : o.2.staleTime = s.namelist.getD s.i []
  readable : o.2.content = some (content (s.namelist.getD s.i []))
  sent : o.2.send = .sent (content (s.namelist.getD s.i [])).length

/-- The `send` of a whole record. -/
def wholeSend (content : CString → List UInt8) (name : CString) : List UInt8 × SendResult :=
  (content name, .sent (content name).length)

/-- The loop is left after finitely many iterations, with every record sent. -/
def Ends (args : ScanArgs) (names : List CString) (content : CString → List UInt8)
    (play : Nat) (inputs : Nat → Shm × ScanInput) : Prop :=
  ∃ n, let r := (Scan.start names (UInt32.ofNat play)).after args inputs n
    r.1.pc = .returned .success ∧ sends r.2 = names.map (wholeSend content)

/-! ### The clock -/

private theorem Elapses.mono {elapsed : Nat → Nat} (h : Elapses elapsed) : Monotone elapsed := by
  apply monotone_nat_of_le_succ
  intro n
  have hs := h.step n
  omega

/-- Every value is still to come, if it is not past. -/
private theorem Elapses.later {elapsed : Nat → Nat} (h : Elapses elapsed) (n : Nat) {m : Nat}
    (hm : elapsed n < m) : ∃ d, elapsed (n + d) = m := by
  obtain ⟨k, hk⟩ := h.onto m
  have hle : n ≤ k := by
    by_contra hlt
    have hmono := h.mono (Nat.le_of_not_le hlt)
    omega
  exact ⟨k - n, by rwa [Nat.add_sub_cancel' hle]⟩

/-- The seconds at which the product has wrapped around as often as need be and is half of
the range: any difference of times is then smaller. -/
private theorem due_at {speed : Nat} (hlow : 5 ≤ speed) (hhigh : speed ≤ 60) (e : Nat) :
    2147483648 < (speed * (4294967296 * (e + 1) + (2147483648 / speed + 1))) % 4294967296 := by
  have hge : 2147483648 < speed * (2147483648 / speed + 1) :=
    Nat.lt_mul_div_succ _ (by omega)
  have hle : speed * (2147483648 / speed + 1) ≤ 2147483648 + 60 := by
    have hdiv := Nat.mul_div_le 2147483648 speed
    rw [Nat.mul_add, Nat.mul_one]
    omega
  have hsplit : speed * (4294967296 * (e + 1) + (2147483648 / speed + 1)) =
      speed * (2147483648 / speed + 1) + 4294967296 * (speed * (e + 1)) := by
    rw [Nat.mul_add, Nat.add_comm, Nat.mul_left_comm]
  rw [hsplit, Nat.add_mul_mod_self_left, Nat.mod_eq_of_lt (by omega)]
  exact hge

/-! ### One iteration -/

section
variable {args : ScanArgs} {names : List CString} {content : CString → List UInt8} {now : Nat}
  {o : Shm × ScanInput} {s : Scan}

/-- The pacing test of a record. -/
private def isDue (args : ScanArgs) (playtime : UInt32) (name : CString) (now : Nat) : Bool :=
  gateOpen (strncpy name 10) args.starttime args.speed playtime (UInt32.ofNat now)

private theorem iteration_due (h : Undisturbed args.address content now s o)
    (ha : s.aborts o.2 = false) (hp : s.pc = .check) (hi : s.i < s.namelist.length)
    (hd : isDue args s.playtime (s.namelist.getD s.i []) now = true) :
    let name := s.namelist.getD s.i []
    let r := s.iterations args [o]
    r.1 = { s with i := if content name = [] then s.i else s.i + 1, freed := s.i :: s.freed } ∧
      sends r.2 = [wholeSend content name] := by
  obtain ⟨w, a⟩ := o
  have hd : gateOpen (strncpy a.staleTime 10) args.starttime args.speed s.playtime
      (UInt32.ofNat a.now) = true := by rw [h.time, h.clock]; exact hd
  have hc : a.content = some (content (s.namelist.getD s.i [])) := h.readable
  have hs : a.send = .sent (content (s.namelist.getD s.i [])).length := h.sent
  have ha : ({ s with pc := .body } : Scan).aborts a = false := ha
  simp only [Scan.iterations, hp, Scan.check_present hi h.lock, Scan.body, ha, hc, hd, hs,
    Bool.false_eq_true, ↓reduceIte, Scan.afterSend]
  refine ⟨?_, rfl⟩
  by_cases hb : content (s.namelist.getD s.i []) = []
  · rw [hb]
    rfl
  · rw [if_pos (List.length_pos_iff.mpr hb), if_neg hb]

private theorem iteration_early (h : Undisturbed args.address content now s o)
    (ha : s.aborts o.2 = false) (hp : s.pc = .check) (hi : s.i < s.namelist.length)
    (hd : isDue args s.playtime (s.namelist.getD s.i []) now = false) :
    let r := s.iterations args [o]
    r.1 = { s with freed := s.i :: s.freed } ∧ sends r.2 = [] := by
  obtain ⟨w, a⟩ := o
  have hd : gateOpen (strncpy a.staleTime 10) args.starttime args.speed s.playtime
      (UInt32.ofNat a.now) = false := by rw [h.time, h.clock]; exact hd
  have hc : a.content = some (content (s.namelist.getD s.i [])) := h.readable
  have ha : ({ s with pc := .body } : Scan).aborts a = false := ha
  simp only [Scan.iterations, hp, Scan.check_present hi h.lock, Scan.body, ha, hc, hd]
  exact ⟨rfl, rfl⟩

private theorem iteration_aborted (h : Undisturbed args.address content now s o)
    (ha : s.aborts o.2 = true) (hp : s.pc = .check) (hi : s.i < s.namelist.length) :
    (s.iterations args [o]).1.pc = .crashed := by
  obtain ⟨w, a⟩ := o
  have ha : ({ s with pc := .body } : Scan).aborts a = true := ha
  simp only [Scan.iterations, hp, Scan.check_present hi h.lock, Scan.body_aborted args ha]

private theorem iteration_last (args : ScanArgs) (o : Shm × ScanInput) (hp : s.pc = .check)
    (hi : ¬ s.i < s.namelist.length) :
    let r := s.iterations args [o]
    r.1.pc = .returned .success ∧ sends r.2 = [] := by
  obtain ⟨w, a⟩ := o
  simp only [Scan.iterations, hp, Scan.check, hi, ↓reduceIte]
  exact ⟨trivial, rfl⟩

end

/-! ### Whole replays -/

/-- The listing holds records from the start of the request on and before 2038. -/
def FromStart (request : ReplayProtocol) (names : List CString) : Prop :=
  ∀ name ∈ names, ∃ time uuid, name = recordName time uuid ∧ request.StartTime ≤ time ∧
    time.toNat < 2147483648

section
variable {args : ScanArgs} {names : List CString} {content : CString → List UInt8} {play : Nat}
  {elapsed : Nat → Nat} {inputs : Nat → Shm × ScanInput}

/-- As long as the replay is in its loop, its iterations are as `ok` says. -/
def Throughout (args : ScanArgs) (names : List CString) (play : Nat)
    (inputs : Nat → Shm × ScanInput) (ok : Nat → Scan → Shm × ScanInput → Prop) : Prop :=
  ∀ n, let s := ((Scan.start names (UInt32.ofNat play)).after args inputs n).1
    s.pc = .check → s.i < s.namelist.length → ok n s (inputs n)

/-- A replay that nothing disturbs. -/
def RunsUndisturbed (args : ScanArgs) (names : List CString) (content : CString → List UInt8)
    (play : Nat) (elapsed : Nat → Nat) (inputs : Nat → Shm × ScanInput) : Prop :=
  Throughout args names play inputs
    (fun n ↦ Undisturbed args.address content (play + elapsed n))

/-- No iteration ends the process by freeing an entry a second time. -/
def SurvivesFrees (args : ScanArgs) (names : List CString) (play : Nat)
    (inputs : Nat → Shm × ScanInput) : Prop :=
  Throughout args names play inputs (fun _ s o ↦ s.aborts o.2 = false)

/-- A replay in its loop, at the record `j`, after the given calls of `send`. -/
private structure AtRecord (names : List CString) (play j : Nat)
    (calls : List (List UInt8 × SendResult)) (r : Scan × List ScanEvent) : Prop where
  pc : r.1.pc = .check
  listed : r.1.namelist = names
  clock : r.1.playtime = UInt32.ofNat play
  index : r.1.i = j
  calls : sends r.2 = calls

variable {n j : Nat} {calls : List (List UInt8 × SendResult)}

/-- The next iteration, when it changes the index and the entries freed only. -/
private theorem AtRecord.next {k : Nat} {more : List (List UInt8 × SendResult)}
    (h : AtRecord names play j calls ((Scan.start names (UInt32.ofNat play)).after args inputs n))
    (hj : j < names.length)
    (hit : ∀ freed, let s : Scan := ⟨.check, names, j, UInt32.ofNat play, freed⟩
      Undisturbed args.address content (play + elapsed n) s (inputs n) →
      s.aborts (inputs n).2 = false →
      (s.iterations args [inputs n]).1 = { s with i := k, freed := j :: freed } ∧
        sends (s.iterations args [inputs n]).2 = more)
    (hrun : RunsUndisturbed args names content play elapsed inputs)
    (hfree : SurvivesFrees args names play inputs) :
    AtRecord names play k (calls ++ more)
      ((Scan.start names (UInt32.ofNat play)).after args inputs (n + 1)) := by
  have hun := hrun n
  have hal := hfree n
  rw [Scan.after_succ]
  generalize (Scan.start names (UInt32.ofNat play)).after args inputs n = r at h hun hal ⊢
  obtain ⟨⟨pc, namelist, i, playtime, freed⟩, τ⟩ := r
  obtain ⟨rfl, rfl, rfl, rfl, rfl⟩ := h
  obtain ⟨hstate, hsends⟩ := hit freed (hun rfl hj) (hal rfl hj)
  simp only [hstate]
  exact ⟨rfl, rfl, rfl, rfl, by rw [sends_append, hsends]⟩

/-- At a record that is due, an iteration sends it, and goes on if it has bytes. -/
private theorem AtRecord.due
    (h : AtRecord names play j calls ((Scan.start names (UInt32.ofNat play)).after args inputs n))
    (hrun : RunsUndisturbed args names content play elapsed inputs)
    (hfree : SurvivesFrees args names play inputs) (hj : j < names.length)
    (hd : isDue args (UInt32.ofNat play) (names.getD j []) (play + elapsed n) = true) :
    AtRecord names play (if content (names.getD j []) = [] then j else j + 1)
      (calls ++ [wholeSend content (names.getD j [])])
      ((Scan.start names (UInt32.ofNat play)).after args inputs (n + 1)) :=
  h.next hj (fun _ hun hal ↦ iteration_due hun hal rfl hj hd) hrun hfree

/-- At a record that is not due, an iteration changes nothing of this. -/
private theorem AtRecord.early
    (h : AtRecord names play j calls ((Scan.start names (UInt32.ofNat play)).after args inputs n))
    (hrun : RunsUndisturbed args names content play elapsed inputs)
    (hfree : SurvivesFrees args names play inputs) (hj : j < names.length)
    (hd : isDue args (UInt32.ofNat play) (names.getD j []) (play + elapsed n) = false) :
    AtRecord names play j calls
      ((Scan.start names (UInt32.ofNat play)).after args inputs (n + 1)) := by
  have hnext := h.next hj (fun _ hun hal ↦ iteration_early hun hal rfl hj hd) hrun hfree
  rwa [List.append_nil] at hnext

/-- A record with bytes that is due some time later is sent by then. -/
private theorem AtRecord.wait
    (h : AtRecord names play j calls ((Scan.start names (UInt32.ofNat play)).after args inputs n))
    (hrun : RunsUndisturbed args names content play elapsed inputs)
    (hfree : SurvivesFrees args names play inputs) (hj : j < names.length)
    (hne : content (names.getD j []) ≠ []) (d : Nat)
    (hd : isDue args (UInt32.ofNat play) (names.getD j []) (play + elapsed (n + d)) = true) :
    ∃ m, AtRecord names play (j + 1) (calls ++ [wholeSend content (names.getD j [])])
      ((Scan.start names (UInt32.ofNat play)).after args inputs m) := by
  induction d generalizing n with
  | zero =>
    have hnext := h.due hrun hfree hj hd
    rw [if_neg hne] at hnext
    exact ⟨n + 1, hnext⟩
  | succ d ih =>
    cases hn : isDue args (UInt32.ofNat play) (names.getD j []) (play + elapsed n) with
    | false =>
      refine ih (h.early hrun hfree hj hn) ?_
      rwa [Nat.add_right_comm, Nat.add_assoc]
    | true =>
      have hnext := h.due hrun hfree hj hn
      rw [if_neg hne] at hnext
      exact ⟨n + 1, hnext⟩

end

section
variable (session : Session) (address : CString) (acceptfd : Int) {names : List CString}
  {content : CString → List UInt8} {play : Nat} {elapsed : Nat → Nat}
  {inputs : Nat → Shm × ScanInput}

/-- Every record is due at some later time. -/
private theorem exists_due (play : Nat) (hlow : 5 ≤ session.request.Speed.toNat)
    (hhigh : session.request.Speed.toNat ≤ 60) (hnames : FromStart session.request names)
    (he : Elapses elapsed) {name : CString} (hm : name ∈ names) (n : Nat) :
    ∃ d, isDue (session.scanArgs address acceptfd) (UInt32.ofNat play) name
      (play + elapsed (n + d)) = true := by
  obtain ⟨time, uuid, rfl, hle, ht⟩ := hnames name hm
  have hdue := due_at hlow hhigh (elapsed n)
  have hlater (c : Nat) : elapsed n < 4294967296 * (elapsed n + 1) + c := by omega
  obtain ⟨d, hd⟩ := he.later n (hlater (2147483648 / session.request.Speed.toNat + 1))
  refine ⟨d, ?_⟩
  have hspeed : (session.scanArgs address acceptfd).speed.toNat = session.request.Speed.toNat :=
    UInt8.toNat_toUInt32 _
  rw [isDue]
  refine (gateOpen_iff uuid _ play (play + elapsed (n + d)) hle ht).mpr ?_
  have hsec : ((play + elapsed (n + d) : Nat) : Int) - play = elapsed (n + d) := by omega
  rw [hsec, hspeed, hd, ← Int.natCast_mul]
  omega

private theorem getD_mem {j : Nat} (hj : j < names.length) : names.getD j [] ∈ names := by
  rw [List.getD_eq_getElem?_getD, List.getElem?_eq_getElem hj, Option.getD_some]
  exact List.getElem_mem hj

/-- Without empty records the loop comes to every record, after sending those before. -/
private theorem exists_atRecord (hlow : 5 ≤ session.request.Speed.toNat)
    (hhigh : session.request.Speed.toNat ≤ 60) (hnames : FromStart session.request names)
    (he : Elapses elapsed)
    (hrun : RunsUndisturbed (session.scanArgs address acceptfd) names content play elapsed inputs)
    (hfree : SurvivesFrees (session.scanArgs address acceptfd) names play inputs)
    (hne : ∀ name ∈ names, content name ≠ []) {j : Nat} (hj : j ≤ names.length) :
    ∃ n, AtRecord names play j ((names.take j).map (wholeSend content))
      ((Scan.start names (UInt32.ofNat play)).after (session.scanArgs address acceptfd) inputs
        n) := by
  induction j with
  | zero => exact ⟨0, rfl, rfl, rfl, rfl, rfl⟩
  | succ j ih =>
    obtain ⟨n, h⟩ := ih (by omega)
    have hget : names.getD j [] = names[j] := by simp [Nat.lt_of_succ_le hj]
    have hm : names.getD j [] ∈ names := getD_mem hj
    obtain ⟨d, hd⟩ := exists_due session address acceptfd play hlow hhigh hnames he hm n
    rw [List.take_succ_eq_append_getElem hj, List.map_append, List.map_singleton, ← hget]
    exact h.wait hrun hfree hj (hne _ hm) d hd

/-- The loop does not get past an empty record. -/
private theorem held_at_empty {k : Nat} (hk : k < names.length)
    (hempty : content (names.getD k []) = [])
    (hrun : RunsUndisturbed (session.scanArgs address acceptfd) names content play elapsed inputs)
    (hfree : SurvivesFrees (session.scanArgs address acceptfd) names play inputs) (n : Nat) :
    ∃ j ≤ k, ∃ calls, AtRecord names play j calls
      ((Scan.start names (UInt32.ofNat play)).after (session.scanArgs address acceptfd) inputs
        n) := by
  induction n with
  | zero => exact ⟨0, Nat.zero_le _, [], rfl, rfl, rfl, rfl, rfl⟩
  | succ n ih =>
    obtain ⟨j, hjk, calls, h⟩ := ih
    cases hd : isDue (session.scanArgs address acceptfd) (UInt32.ofNat play) (names.getD j [])
      (play + elapsed n) with
    | false => exact ⟨j, hjk, calls, h.early hrun hfree (by omega) hd⟩
    | true =>
      refine ⟨_, ?_, _, h.due hrun hfree (by omega) hd⟩
      by_cases he : j = k
      · rw [he, if_pos hempty]
      · split <;> omega

/-- A replay that ends has survived every `free`. -/
private theorem survivesFrees_of_ends {args : ScanArgs}
    (hrun : RunsUndisturbed args names content play elapsed inputs)
    (h : Ends args names content play inputs) : SurvivesFrees args names play inputs := by
  obtain ⟨m, hret, -⟩ := h
  intro n s hp hi
  by_contra ha
  have hcrash : ((Scan.start names (UInt32.ofNat play)).after args inputs (n + 1)).1.pc =
      .crashed := by
    rw [Scan.after_succ]
    exact iteration_aborted (hrun n hp hi) (by simpa using ha) hp hi
  rcases Nat.lt_or_ge n m with hlt | hle
  · rw [Scan.after_of_ne hlt (by simp [hcrash]), hcrash] at hret
    cases hret
  · have hp : ((Scan.start names (UInt32.ofNat play)).after args inputs n).1.pc = .check := hp
    rw [Scan.after_of_ne hle (by simp [hret]), hret] at hp
    cases hp

/-- For every listing of records from the start of the request on, every speed of the documented
range, every clock that goes through the seconds and every replay that nothing else disturbs: the
loop is left with every record sent, exactly if no record is empty and no second `free` of an
entry ends the process. -/
theorem ends_iff (hlow : 5 ≤ session.request.Speed.toNat)
    (hhigh : session.request.Speed.toNat ≤ 60) (hnames : FromStart session.request names)
    (he : Elapses elapsed)
    (hrun : RunsUndisturbed (session.scanArgs address acceptfd) names content play elapsed
      inputs) :
    Ends (session.scanArgs address acceptfd) names content play inputs ↔
      (∀ name ∈ names, content name ≠ []) ∧
        SurvivesFrees (session.scanArgs address acceptfd) names play inputs := by
  constructor
  · intro hends
    have hfree := survivesFrees_of_ends hrun hends
    refine ⟨fun name hm hempty ↦ ?_, hfree⟩
    obtain ⟨n, hret, -⟩ := hends
    obtain ⟨k, hk, rfl⟩ := List.mem_iff_getElem.mp hm
    obtain ⟨j, -, calls, h⟩ := held_at_empty session address acceptfd (k := k) hk
      (by simpa [hk] using hempty) hrun hfree n
    rw [h.pc] at hret
    cases hret
  · rintro ⟨hne, hfree⟩
    obtain ⟨n, h⟩ := exists_atRecord session address acceptfd hlow hhigh hnames he hrun hfree hne
      (Nat.le_refl _)
    refine ⟨n + 1, ?_⟩
    obtain ⟨hpc, hsends⟩ := iteration_last (session.scanArgs address acceptfd) (inputs n) h.pc
      (by rw [h.index, h.listed]; exact Nat.lt_irrefl _)
    rw [Scan.after_succ]
    refine ⟨hpc, ?_⟩
    rw [sends_append, hsends, List.append_nil, h.calls, List.take_length]

/-- Nothing is due in the first second, so that the second iteration finds the entry freed: every
replay of a listing that is not empty frees an entry twice. -/
theorem entry_freed_again (hnames : FromStart session.request names) (he : Elapses elapsed)
    (hne : names ≠ [])
    (hrun : RunsUndisturbed (session.scanArgs address acceptfd) names content play elapsed
      inputs) :
    ((Scan.start names (UInt32.ofNat play)).after (session.scanArgs address acceptfd) inputs 1).1 =
      { Scan.start names (UInt32.ofNat play) with freed := [0] } := by
  have hpos : 0 < names.length := List.length_pos_iff.mpr hne
  obtain ⟨time, uuid, hname, hle, ht⟩ := hnames _ (getD_mem hpos)
  have hearly : isDue (session.scanArgs address acceptfd) (UInt32.ofNat play) (names.getD 0 [])
      (play + elapsed 0) = false := by
    rw [hname, isDue, he.zero, Bool.eq_false_iff]
    intro hdue
    have hlt := (gateOpen_iff uuid _ play (play + 0) hle ht).mp hdue
    rw [UInt32.le_iff_toNat_le] at hle
    simp only [Nat.add_zero, Int.sub_self, Int.mul_zero, Int.zero_emod] at hlt
    omega
  exact (iteration_early (hrun 0 rfl hpos) (Scan.aborts_of_notMem _ List.not_mem_nil) rfl hpos
    hearly).1

end

/-! ### Listings of one record -/

private theorem namelist_iterations (args : ScanArgs) (s : Scan)
    (outcomes : List (Shm × ScanInput)) :
    (s.iterations args outcomes).1.namelist = s.namelist := by
  have hcheck (s : Scan) (w : Shm) : (s.check args w).1.namelist = s.namelist := by
    simp only [Scan.check]
    repeat' split
    all_goals rfl
  have hbody (s : Scan) (a : ScanInput) : (s.body args a).1.namelist = s.namelist := by
    cases ha : s.aborts a with
    | true => rw [Scan.body_aborted args ha]
    | false =>
      cases hc : a.content with
      | none => simp only [Scan.body, ha, hc, Bool.false_eq_true, ↓reduceIte]
      | some buffer =>
        simp only [Scan.body, ha, hc, Bool.false_eq_true, ↓reduceIte]
        split
        · cases a.send <;> rfl
        · rfl
  induction outcomes generalizing s with
  | nil => rfl
  | cons o rest ih =>
    by_cases hp : s.pc = .check
    · simp only [Scan.iterations, hp, ih]
      split
      · rw [hbody, hcheck]
      · rw [hcheck]
    · rw [Scan.iterations_of_ne hp]

/-- The iterations of a replay of one record, one a second, with a C library that lets a second
`free` pass. -/
def onePerSecond (address name : CString) (buffer : List UInt8) (play n : Nat) : Shm × ScanInput :=
  ({shmFile address}, ⟨none, play + n, some buffer, name, name, .sent buffer.length, false⟩)

private theorem elapses_id : Elapses id :=
  ⟨rfl, fun _ ↦ .inr rfl, fun m ↦ ⟨m, rfl⟩⟩

private theorem runsUndisturbed_onePerSecond (args : ScanArgs) (name : CString)
    (buffer : List UInt8) (play : Nat) :
    RunsUndisturbed args [name] (fun _ ↦ buffer) play id
      (onePerSecond args.address name buffer play) := by
  intro n s hp hi
  have hlist : s.namelist = [name] := namelist_iterations args _ _
  have hget : s.namelist.getD s.i [] = name := by
    rw [hlist, List.length_singleton, Nat.lt_one_iff] at hi
    rw [hlist, hi]
    rfl
  exact ⟨Finset.mem_singleton_self _, rfl, hget.symm, hget.symm, rfl, rfl⟩

private theorem survivesFrees_onePerSecond (args : ScanArgs) (name : CString)
    (buffer : List UInt8) (play : Nat) :
    SurvivesFrees args [name] play (onePerSecond args.address name buffer play) :=
  fun _ _ _ ↦ Scan.aborts_of_freeAborts _ rfl

private theorem fromStart_singleton (request : ReplayProtocol) {time : UInt32} (uuid : UInt32)
    (hle : request.StartTime ≤ time) (ht : time.toNat < 2147483648) :
    FromStart request [recordName time uuid] := by
  intro name hm
  exact ⟨time, uuid, List.mem_singleton.mp hm, hle, ht⟩

/-- An empty record at the start of the request: the replay does not end. -/
theorem not_ends_empty_record :
    let session : Session := Session.serving 0 ⟨0, 0, 1000000000, 2000000000, 5⟩
    let names := [recordName 1000000000 0]
    let inputs := onePerSecond ['c'] (recordName 1000000000 0) [] 100
    (FromStart session.request names ∧ Elapses id ∧
      RunsUndisturbed (session.scanArgs ['c'] 5) names (fun _ ↦ []) 100 id inputs) ∧
    ¬ Ends (session.scanArgs ['c'] 5) names (fun _ ↦ []) 100 inputs := by
  intro session names inputs
  have hrun : RunsUndisturbed (session.scanArgs ['c'] 5) names (fun _ ↦ []) 100 id inputs :=
    runsUndisturbed_onePerSecond (session.scanArgs ['c'] 5) _ [] 100
  refine ⟨⟨fromStart_singleton _ 0 (by decide) (by decide), elapses_id, hrun⟩, ?_⟩
  intro ⟨n, hret, _⟩
  obtain ⟨j, -, calls, h⟩ := held_at_empty session ['c'] 5 (k := 0) (by decide) rfl hrun
    (survivesFrees_onePerSecond _ _ _ _) n
  rw [h.pc] at hret
  cases hret

/-- A record of two bytes, whose entry may be freed twice: the replay ends. -/
theorem ends_one_record :
    let session : Session := Session.serving 0 ⟨0, 0, 1000000000, 2000000000, 5⟩
    Ends (session.scanArgs ['c'] 5) [recordName 1000000000 0] (fun _ ↦ [1, 2]) 100
      (onePerSecond ['c'] (recordName 1000000000 0) [1, 2] 100) := by
  intro session
  exact (ends_iff session ['c'] 5 (by decide) (by decide)
    (fromStart_singleton _ 0 (by decide) (by decide)) elapses_id
    (runsUndisturbed_onePerSecond (session.scanArgs ['c'] 5) _ [1, 2] 100)).mpr
      ⟨by simp, survivesFrees_onePerSecond _ _ _ _⟩

end DupDistribute.Playback

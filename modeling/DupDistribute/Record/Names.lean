import DupDistribute.Record.Recorder

/-!
# Record names of concurrent processes

The counter `uuid` is private to a process while the directory and the clock are shared,
so two processes can build the same name. A fork hands the counter on as it stands; from
then on it goes one up with every message whose day directory is there, wraps after 999,
and starts again at 0 in the process that makes the directory (`recordData.c:31-55`). The
names of a process follow from its counter at the fork and from the answers `access` and
`mkdir` gave it, and the records of two processes are apart exactly when those names are.
-/

namespace DupDistribute.Record

open DupDistribute.Base

variable {ι : Type} [DecidableEq ι] {env : Env}

/-- The file an event opens and truncates, or writes. -/
def Event.touches : Event → Option CString
  | .fopen _ path => some path
  | .write path _ => some path
  | _ => none

/-- Messages of different processes open different paths, and no file is truncated or
written by two processes. -/
structure RecordsApart (τ : List (ι × Event)) : Prop where
  paths : ∀ p q c d path path', (p, Event.fopen c path) ∈ τ → (q, Event.fopen d path') ∈ τ →
    p ≠ q → path ≠ path'
  unmixed : ∀ p q e f path, (p, e) ∈ τ → (q, f) ∈ τ → Event.touches e = some path →
    Event.touches f = some path → p = q

/-- The count of messages after an event: one more if the day directory was there, none if
this process made it. -/
def Event.tally (n : Nat) : Event → Nat
  | .access _ true => n + 1
  | .mkdir _ true => 0
  | _ => n

/-- The name of a record: its directory, its second and its count. -/
structure Naming where
  dir : CString
  timestamp : UInt32
  count : Nat
  deriving DecidableEq

/-- The names a process uses along its events, counting on from `n`. -/
def namingsFrom (n : Nat) : List Event → List Naming
  | [] => []
  | .fopen c _ :: ρ => ⟨c.dir, c.timestamp, n % 1000⟩ :: namingsFrom n ρ
  | e :: ρ => namingsFrom (e.tally n) ρ

/-- The names of a process that was forked with the counter `uuid`. Above 999 the counter
wraps as it does at 999. -/
def namings (uuid : UInt32) (ρ : List Event) : List Naming :=
  namingsFrom (min uuid.toNat 999) ρ

/-- No two processes use the same name, given the counters they were forked with. -/
def ForkedApart (fork : ι → UInt32) (τ : List (ι × Event)) : Prop :=
  ∀ p q, p ≠ q → ∀ x ∈ namings (fork p) (Machine.eventsOf p τ),
    x ∉ namings (fork q) (Machine.eventsOf q τ)

/-! ### One process -/

/-- What the program points of a call promise about the counter and the path. -/
def Pc.Named (uuid : UInt32) (ρ : List Event) : Pc → Prop
  | .createDataFile _ existed before => uuid = createDataDirUuid existed before
  | .fopen call path => path = call.path
  | .opened path => ∃ c, Event.fopen c path ∈ ρ
  | _ => True

/-- Every opened path is the one its call determines, and only opened paths are written. -/
structure Named (ρ : List Event) (s : Recorder) : Prop where
  here : s.pc.Named s.uuid ρ
  opens : ∀ c path, Event.fopen c path ∈ ρ → path = c.path
  writes : ∀ path bytes, Event.write path bytes ∈ ρ → ∃ c, Event.fopen c path ∈ ρ

private theorem named_step {ρ : List Event} {s s' : Recorder} {w w' : Store} {a : Input}
    {es : List Event} (h : Named ρ s) (hs : s.step env w a = some (s', w', es)) :
    Named (ρ ++ es) s' := by
  obtain ⟨here, opens, writes⟩ := h
  have keep {es : List Event} {s' : Recorder} (hh : s'.pc.Named s'.uuid (ρ ++ es))
      (ho : ∀ c path, Event.fopen c path ∈ es → path = c.path)
      (hw : ∀ path bytes, Event.write path bytes ∈ es → ∃ c, Event.fopen c path ∈ ρ) :
      Named (ρ ++ es) s' := by
    refine ⟨hh, ?_, ?_⟩
    · intro c path hm
      rcases List.mem_append.mp hm with hm | hm
      · exact opens c path hm
      · exact ho c path hm
    · intro path bytes hm
      rcases List.mem_append.mp hm with hm | hm
      · obtain ⟨c, hc⟩ := writes path bytes hm
        exact ⟨c, List.mem_append_left _ hc⟩
      · obtain ⟨c, hc⟩ := hw path bytes hm
        exact ⟨c, List.mem_append_left _ hc⟩
  cases Recorder.does_of_step hs with
  | call | conf | noConf | date | missing | notMade | notOpened =>
    exact keep trivial (by simp) (by simp)
  | present | made => exact keep rfl (by simp) (by simp)
  | name u dir existed before =>
    refine keep ?_ (by simp) (by simp)
    have hu : u = createDataDirUuid existed before := here
    simp only [Pc.Named, Call.path, nextUuid, hu]
  | opens u call path =>
    have hp : path = call.path := here
    refine keep ⟨call, by simp⟩ ?_ (by simp)
    intro c path' hm
    simp only [List.mem_cons, Event.fopen.injEq, reduceCtorEq, List.not_mem_nil, or_self,
      or_false] at hm
    obtain ⟨rfl, rfl⟩ := hm
    exact hp
  | writes u path =>
    obtain ⟨c, hc⟩ := here
    refine keep trivial (by simp) ?_
    intro path' bytes hm
    simp only [List.mem_singleton, Event.write.injEq] at hm
    exact ⟨c, hm.1 ▸ hc⟩

/-- In every environment, a process opens the paths its calls determine. -/
theorem named_of_open {s₀ s : Recorder} {ρ : List Event} (h₀ : s₀.pc = .idle)
    (h : (recorder env).Open s₀ ρ s) : Named ρ s := by
  refine h.invariant Named ⟨by rw [h₀]; trivial, by simp, by simp⟩ ?_
  intro τ s w a s' w' es hn _ hs
  exact named_step hn hs

/-! ### Counting from the fork -/

/-- The path of a name. -/
def Naming.path (x : Naming) : CString := dataFile x.dir x.timestamp (UInt32.ofNat x.count)

/-- The path an event opens. -/
def Event.openedPath : Event → Option CString
  | .fopen _ path => some path
  | _ => none

private theorem mem_openedPath {ρ : List Event} {path : CString} :
    path ∈ ρ.filterMap Event.openedPath ↔ ∃ c, Event.fopen c path ∈ ρ := by
  rw [List.mem_filterMap]
  constructor
  · rintro ⟨e, hm, he⟩
    cases e with
    | fopen c path' =>
      obtain rfl : path' = path := by simpa [Event.openedPath] using he
      exact ⟨c, hm⟩
    | _ => simp [Event.openedPath] at he
  · rintro ⟨c, hm⟩
    exact ⟨_, hm, rfl⟩

private theorem namingsFrom_append (n : Nat) (ρ ρ' : List Event) :
    namingsFrom n (ρ ++ ρ') = namingsFrom n ρ ++ namingsFrom (ρ.foldl Event.tally n) ρ' := by
  induction ρ generalizing n with
  | nil => rfl
  | cons e ρ ih =>
    cases e with
    | fopen c path => simp [namingsFrom, ih, Event.tally]
    | _ => simp [namingsFrom, ih]

private theorem count_lt {n : Nat} {ρ : List Event} {x : Naming} (h : x ∈ namingsFrom n ρ) :
    x.count < 1000 := by
  induction ρ generalizing n with
  | nil => simp [namingsFrom] at h
  | cons e ρ ih =>
    cases e with
    | fopen c path =>
      rcases List.mem_cons.mp h with rfl | h
      · exact Nat.mod_lt _ (by decide)
      · exact ih h
    | _ => exact ih h

/-- Different names have different paths. -/
private theorem path_inj {x y : Naming} (hx : x.count < 1000) (hy : y.count < 1000)
    (h : x.path = y.path) : x = y := by
  obtain ⟨hdir, htime, hcount⟩ := dataFile_inj h
  have heq := congrArg UInt32.toNat hcount
  have hsize : UInt32.size = 2 ^ 32 := rfl
  rw [UInt32.toNat_ofNat_of_lt' (by omega), UInt32.toNat_ofNat_of_lt' (by omega)] at heq
  cases x
  cases y
  simp_all

/-- A message whose directory is there counts one on, modulo 1000. -/
private theorem toNat_nextUuid_present {u : UInt32} {n : Nat}
    (h : min u.toNat 999 = n % 1000) : (nextUuid u true).toNat = (n + 1) % 1000 := by
  have hu := u.toNat_lt
  simp only [nextUuid, createDataDirUuid, createDataFileUuid, if_true, gt_iff_lt,
    UInt32.lt_iff_toNat_lt, UInt32.toNat_add, UInt32.toNat_one, UInt32.reduceToNat]
  split <;> simp <;> omega

/-- A counter that has been used in a name is below 1000. -/
private theorem wrapped {u : UInt32} {n : Nat} (h : u.toNat = n % 1000) :
    min u.toNat 999 = n % 1000 := by
  omega

/-- What the program points of a call promise about the counter, after `n` messages. -/
def Pc.Counted (uuid : UInt32) (n : Nat) : Pc → Prop
  | .createDataFile .. => (createDataFileUuid uuid).toNat = n % 1000
  | .fopen call path =>
    uuid.toNat = n % 1000 ∧ path = dataFile call.dir call.timestamp uuid
  | _ => min uuid.toNat 999 = n % 1000

/-- The counter follows the count, and the opened paths follow the names. -/
structure Counted (fork : UInt32) (ρ : List Event) (s : Recorder) : Prop where
  here : s.pc.Counted s.uuid (ρ.foldl Event.tally (min fork.toNat 999))
  paths : ρ.filterMap Event.openedPath = (namings fork ρ).map Naming.path

private theorem counted_step {fork : UInt32} {ρ : List Event} {s s' : Recorder}
    {w w' : Store} {a : Input} {es : List Event} (h : Counted fork ρ s)
    (hs : s.step env w a = some (s', w', es)) : Counted fork (ρ ++ es) s' := by
  obtain ⟨here, paths⟩ := h
  have keep {es : List Event} {s' : Recorder}
      (hh : s'.pc.Counted s'.uuid
        (es.foldl Event.tally (ρ.foldl Event.tally (min fork.toNat 999))))
      (hp : es.filterMap Event.openedPath =
        (namingsFrom (ρ.foldl Event.tally (min fork.toNat 999)) es).map Naming.path) :
      Counted fork (ρ ++ es) s' := by
    refine ⟨by rwa [List.foldl_append], ?_⟩
    rw [List.filterMap_append, paths, hp, namings, namings, namingsFrom_append, List.map_append]
  cases Recorder.does_of_step hs with
  | call | conf | noConf | date | missing | notMade | writes => exact keep here rfl
  | present => exact keep (toNat_nextUuid_present here) rfl
  | made => exact keep rfl rfl
  | name u dir existed before => exact keep ⟨here, rfl⟩ rfl
  | opens u call path =>
    obtain ⟨hu, hp⟩ : u.toNat = _ % 1000 ∧ path = dataFile call.dir call.timestamp u := here
    refine keep (wrapped hu) ?_
    have hofNat : UInt32.ofNat u.toNat = u := UInt32.ofNat_toNat
    simp only [List.filterMap_cons, Event.openedPath, List.filterMap_nil, namingsFrom,
      List.map_cons, List.map_nil, Naming.path, ← hu, hofNat, hp]
  | notOpened u call path => exact keep (wrapped here.1) rfl

/-- In every environment, a process opens the paths of the names it counts from its fork. -/
theorem counted_of_open {s₀ s : Recorder} {ρ : List Event} (h₀ : s₀.pc = .idle)
    (h : (recorder env).Open s₀ ρ s) : Counted s₀.uuid ρ s := by
  refine h.invariant (Counted s₀.uuid) ⟨?_, rfl⟩ ?_
  · rw [h₀]
    change min s₀.uuid.toNat 999 = min s₀.uuid.toNat 999 % 1000
    omega
  · intro τ s w a s' w' es hc _ hs
    exact counted_step hc hs

/-! ### Many processes -/

/-- For every interleaving of any number of processes: their records stay apart exactly when
the names they count from their counters at the fork do. -/
theorem recordsApart_iff_forkedApart {S₀ S : Sys ι Store Recorder} {τ : List (ι × Event)}
    (h₀ : ∀ p, (S₀.procs p).pc = .idle)
    (h : ((recorder env).interleave ι).Open S₀ τ S) :
    RecordsApart τ ↔ ForkedApart (fun p ↦ (S₀.procs p).uuid) τ := by
  have opened {p : ι} {path : CString} : (∃ c, (p, Event.fopen c path) ∈ τ) ↔
      ∃ x ∈ namings (S₀.procs p).uuid (Machine.eventsOf p τ), x.path = path := by
    rw [← List.mem_map, ← (counted_of_open (h₀ p) (h.project p)).paths, mem_openedPath]
    simp only [Machine.mem_eventsOf]
  have touched {p : ι} {e : Event} {path : CString} (hm : (p, e) ∈ τ)
      (ht : e.touches = some path) : ∃ c, (p, Event.fopen c path) ∈ τ := by
    cases e with
    | fopen c path' =>
      obtain rfl : path' = path := by simpa [Event.touches] using ht
      exact ⟨c, hm⟩
    | write path' bytes =>
      obtain rfl : path' = path := by simpa [Event.touches] using ht
      obtain ⟨c, hc⟩ :=
        (named_of_open (h₀ p) (h.project p)).writes path' bytes (Machine.mem_eventsOf.mpr hm)
      exact ⟨c, Machine.mem_eventsOf.mp hc⟩
    | _ => simp [Event.touches] at ht
  constructor
  · intro hapart p q hne x hx hx'
    obtain ⟨c, hc⟩ := opened.mpr ⟨x, hx, rfl⟩
    obtain ⟨d, hd⟩ := opened.mpr ⟨x, hx', rfl⟩
    exact hapart.paths p q c d x.path x.path hc hd hne rfl
  · intro hapart
    have paths (p q : ι) (c d : Call) (path path' : CString)
        (hp : (p, Event.fopen c path) ∈ τ) (hq : (q, Event.fopen d path') ∈ τ) (hne : p ≠ q) :
        path ≠ path' := by
      rintro rfl
      obtain ⟨x, hx, hxp⟩ := opened.mp ⟨c, hp⟩
      obtain ⟨y, hy, hyp⟩ := opened.mp ⟨d, hq⟩
      obtain rfl : x = y := path_inj (count_lt hx) (count_lt hy) (hxp.trans hyp.symm)
      exact hapart p q hne x hx hy
    refine ⟨paths, ?_⟩
    intro p q e f path hp hq he hf
    by_contra hne
    obtain ⟨c, hc⟩ := touched hp he
    obtain ⟨d, hd⟩ := touched hq hf
    exact paths p q c d path path hc hd hne rfl

/-- The clock reading of an event. -/
def Event.reading : Event → Option Nat
  | .readDate now => some now
  | .readTime now => some now
  | _ => none

/-- A message got its file. -/
def Event.opens : Event → Bool
  | .fopen _ _ => true
  | _ => false

/-- Two processes forked with the same counter, one message each in the same second of a day
whose directory is there: both open the same path. -/
theorem forked_counters_collide :
    let env : Env := ⟨['d'], fun _ ↦ ['1']⟩
    let S₀ : Sys Bool Store Recorder := ⟨fun _ ↦ ⟨0, .idle⟩, ⟨{env.dayDir 0}, fun _ ↦ none⟩⟩
    ∃ τ S, ((recorder env).interleave Bool).Open S₀ τ S ∧
      (τ.filterMap (fun e ↦ e.2.reading)).Pairwise (· ≤ ·) ∧
      τ.countP (fun e ↦ e.2.opens) ≤ 1000 ∧ ¬ RecordsApart τ := by
  intro env S₀
  let acts : List (Unit × Bool × Input) :=
    List.replicate 7 ((), false, { bytes := [0xEB] }) ++
      List.replicate 7 ((), true, { bytes := [0xEB, 1] })
  let call : Call := ⟨env.dayDir 0, true, 0, 0⟩
  obtain ⟨τ, S, hrun, hclock, hmany, hf, ht⟩ :=
    Machine.exec_observe ((recorder env).interleave Bool) (fun _ _ _ ↦ true) S₀ acts
      (fun _ τ ↦ (τ.filterMap (fun e ↦ e.2.reading)).Pairwise (· ≤ ·) ∧
        τ.countP (fun e ↦ e.2.opens) ≤ 1000 ∧
        (false, Event.fopen call call.path) ∈ τ ∧ (true, Event.fopen call call.path) ∈ τ)
      (fun _ _ _ _ ↦ trivial) (by decide)
  refine ⟨τ, S, hrun, hclock, hmany, fun hapart ↦ ?_⟩
  exact hapart.paths false true call call _ _ hf ht (by decide) rfl

/-- Two processes forked with the same counter, where the first makes the day directory and
so starts again at 0: both use the same second, and their records are apart. -/
theorem forked_counters_apart :
    let env : Env := ⟨['d'], fun _ ↦ ['1']⟩
    let S₀ : Sys Bool Store Recorder := ⟨fun _ ↦ ⟨0, .idle⟩, ⟨∅, fun _ ↦ none⟩⟩
    ∃ τ S, (∀ p, (S₀.procs p).pc = .idle) ∧ ((recorder env).interleave Bool).Open S₀ τ S ∧
      τ.countP (fun e ↦ e.2.opens) = 2 ∧ ForkedApart (fun p ↦ (S₀.procs p).uuid) τ ∧
      RecordsApart τ := by
  intro env S₀
  let acts : List (Unit × Bool × Input) :=
    List.replicate 8 ((), false, { ok := true }) ++ List.replicate 7 ((), true, { ok := true })
  obtain ⟨τ, S, hrun, hmany, hnames⟩ :=
    Machine.exec_observe ((recorder env).interleave Bool) (fun _ _ _ ↦ true) S₀ acts
      (fun _ τ ↦ τ.countP (fun e ↦ e.2.opens) = 2 ∧
        ∀ x ∈ namings 0 (Machine.eventsOf false τ), x ∉ namings 0 (Machine.eventsOf true τ))
      (fun _ _ _ _ ↦ trivial) (by decide)
  have hidle : ∀ p, (S₀.procs p).pc = .idle := fun _ ↦ rfl
  have hapart : ForkedApart (fun p ↦ (S₀.procs p).uuid) τ := by
    intro p q hne x hx hx'
    cases p <;> cases q
    · exact hne rfl
    · exact hnames x hx hx'
    · exact hnames x hx' hx
    · exact hne rfl
  exact ⟨τ, S, hidle, hrun, hmany, hapart, (recordsApart_iff_forkedApart hidle hrun).mpr hapart⟩

end DupDistribute.Record

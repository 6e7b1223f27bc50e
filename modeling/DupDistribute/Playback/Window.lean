import DupDistribute.Playback.Truth

/-!
# The window of a replay

`scandir` with `filter_fn` and `alphasort` (`playback.c:10-34`, with the tail loop of
`scandir-tail.c:31-112`, which passes the two times on to the filter). `myscandirServe` prints the
`unsigned` times of the request with `%d` and `filter_fn` reads them back with `atoi`, so a time
from 2^31 on is compared as a negative number.
-/

namespace DupDistribute.Playback

open DupDistribute.Base DupDistribute.Wire DupDistribute.Record

/-! ### The code -/

/-- What `scandir` reads of a `struct dirent`. -/
structure Dirent where
  d_type : UInt8
  d_name : CString
  deriving DecidableEq

/-- `DT_DIR`, `dirent.h:105`. -/
def DT_DIR : UInt8 := 4

/-- `filter_fn`, `playback.c:10-24`: a directory is skipped. -/
def Dirent.filterFn (ent : Dirent) (start stop : CString) : Bool :=
  if ent.d_type = DT_DIR then false else Playback.filterFn ent.d_name start stop

/-- `alphasort`, with `strcoll` as it is in the C locale, the only one the program runs in. -/
def alphasort (a b : Dirent) : Int := strcmp a.d_name b.d_name

/-- What `scandir` meets: whether `opendir` works, the entries `readdir` gives, whether it ends
with an error, and whether `realloc` and `malloc` work when so many entries are stored. -/
structure Directory where
  opens : Bool := true
  entries : List Dirent
  readdirFails : Bool := false
  reallocFails : Nat → Bool := fun _ ↦ false
  mallocFails : Nat → Bool := fun _ ↦ false

/-- The loop of `SCANDIR_TAIL`, `scandir-tail.c:50-87`, with the vector `v` of size `vsize`;
`none` is a `break` with `errno` set. -/
def scandirLoop (dir : Directory) (select : Dirent → Bool) :
    List Dirent → List Dirent → Nat → Option (List Dirent)
  | [], v, _ => if dir.readdirFails then none else some v
  | d :: rest, v, vsize =>
    if select d then
      if v.length = vsize then
        if dir.reallocFails v.length then none
        else if dir.mallocFails v.length then none
        else scandirLoop dir select rest (v ++ [d]) (if vsize = 0 then 10 else vsize * 2)
      else if dir.mallocFails v.length then none
      else scandirLoop dir select rest (v ++ [d]) vsize
    else scandirLoop dir select rest v vsize

/-- `SCANDIR_TAIL`, `scandir-tail.c:31-112`: the sorted entries, or -1. -/
def scandirTail (dir : Directory) (select : Dirent → Bool) (cmp : Dirent → Dirent → Int) :
    Option (List Dirent) :=
  if dir.opens then
    (scandirLoop dir select dir.entries [] 0).map
      (fun v ↦ v.mergeSort (fun a b ↦ decide (cmp a b ≤ 0)))
  else none

/-- `filter_fn` with the times as `myscandirServe` prints them, `playback.c:122-125`. -/
def Dirent.selected (request : ReplayProtocol) (ent : Dirent) : Bool :=
  ent.filterFn (printD 0 request.StartTime.toInt32) (printD 0 request.EndTime.toInt32)

/-- The call in `scanAndSend`, `playback.c:34`. -/
def scandir (dir : Directory) (request : ReplayProtocol) : Option (List Dirent) :=
  scandirTail dir (Dirent.selected request) alphasort

/-! ### What the loop collects -/

/-- Some call that `scandir` makes fails. -/
def Directory.Fails (dir : Directory) : Prop :=
  dir.opens = false ∨ dir.readdirFails = true ∨
    ∃ n, dir.reallocFails n = true ∨ dir.mallocFails n = true

/-- The loop collects the selected entries, or a call fails. -/
private theorem scandirLoop_spec (dir : Directory) (select : Dirent → Bool)
    (rest v : List Dirent) (vsize : Nat) :
    scandirLoop dir select rest v vsize = some (v ++ rest.filter select) ∨
      scandirLoop dir select rest v vsize = none ∧ dir.Fails := by
  fun_induction scandirLoop dir select rest v vsize with
  | case1 v vsize h => exact .inr ⟨rfl, .inr (.inl h)⟩
  | case2 v vsize h => exact .inl (by simp)
  | case3 d rest v hd h => exact .inr ⟨rfl, .inr (.inr ⟨_, .inl h⟩)⟩
  | case4 d rest v hd _ h => exact .inr ⟨rfl, .inr (.inr ⟨_, .inr h⟩)⟩
  | case5 d rest v hd _ _ ih => simpa [List.filter_cons_of_pos hd] using ih
  | case6 d rest v vsize hd _ h => exact .inr ⟨rfl, .inr (.inr ⟨_, .inr h⟩)⟩
  | case7 d rest v vsize hd _ _ ih => simpa [List.filter_cons_of_pos hd] using ih
  | case8 d rest v vsize hd ih => simpa [List.filter_cons_of_neg hd] using ih

/-- What `scandir` gives is the selected entries, sorted. -/
theorem scandir_eq_some {dir : Directory} {request : ReplayProtocol} {namelist : List Dirent}
    (h : scandir dir request = some namelist) :
    namelist = (dir.entries.filter (Dirent.selected request)).mergeSort
      (fun a b ↦ decide (alphasort a b ≤ 0)) := by
  unfold scandir scandirTail at h
  split at h
  · rcases scandirLoop_spec dir (Dirent.selected request) dir.entries [] 0 with hl | ⟨hl, -⟩
    · rw [hl, List.nil_append] at h
      exact (Option.some.inj h).symm
    · rw [hl] at h
      cases h
  · cases h

/-- `scandir` gives the selected entries in some order, or a call fails. -/
private theorem scandir_spec (dir : Directory) (request : ReplayProtocol) :
    (∃ v, scandir dir request = some v ∧ v.Perm (dir.entries.filter (Dirent.selected request))) ∨
      scandir dir request = none ∧ dir.Fails := by
  unfold scandir scandirTail
  split
  · rcases scandirLoop_spec dir (Dirent.selected request) dir.entries [] 0 with h | ⟨h, hf⟩
    · rw [h, List.nil_append]
      exact .inl ⟨_, rfl, List.mergeSort_perm _ _⟩
    · rw [h]
      exact .inr ⟨rfl, hf⟩
  · next h => exact .inr ⟨rfl, .inl (by simpa using h)⟩

/-- The names that `scandir` gives are those that the replay of a store expects, if `readdir` gives
the directories and the files of the store. -/
theorem lists_of_scandir {st : Store} {request : ReplayProtocol} {path : CString}
    {dir : Directory} {namelist : List Dirent} (h : scandir dir request = some namelist)
    (hdir : ∀ name, (∃ ent ∈ dir.entries, ent.d_type ≠ DT_DIR ∧ ent.d_name = name) ↔
      '/' ∉ name ∧ (st.files (path ++ '/' :: name)).isSome) :
    Lists st request path (namelist.map Dirent.d_name) := by
  intro name
  rcases scandir_spec dir request with ⟨v, hv, hp⟩ | ⟨hn, -⟩
  · obtain rfl : namelist = v := Option.some.inj (h.symm.trans hv)
    rw [← and_assoc, ← hdir, List.mem_map]
    constructor
    · rintro ⟨ent, hm, rfl⟩
      obtain ⟨hin, hsel⟩ := List.mem_filter.mp (hp.mem_iff.mp hm)
      rw [Dirent.selected, Dirent.filterFn] at hsel
      split at hsel
      · cases hsel
      · next hd => exact ⟨⟨ent, hin, hd, rfl⟩, hsel⟩
    · rintro ⟨⟨ent, hin, hd, rfl⟩, hsel⟩
      refine ⟨ent, hp.mem_iff.mpr (List.mem_filter.mpr ⟨hin, ?_⟩), rfl⟩
      rw [Dirent.selected, Dirent.filterFn, if_neg hd]
      exact hsel
  · rw [hn] at h
    cases h

/-! ### Day directories -/

/-- A file that `CreateDataFile` has named, `recordData.c:47-60`, from 2001 on and before 2038. -/
structure RecordFile where
  timestamp : UInt32
  uuid : UInt32
  d_type : UInt8
  late : 1000000000 ≤ timestamp.toNat
  early : timestamp.toNat < 2147483648
  counter : uuid.toNat ≤ 999
  noDir : d_type ≠ DT_DIR

/-- An entry of a day directory: a record, or a directory such as `.` and `..`. -/
inductive DayEntry where
  | directory (name : CString)
  | record (file : RecordFile)

/-- The entry as `readdir` gives it. -/
def DayEntry.dirent : DayEntry → Dirent
  | .directory name => ⟨DT_DIR, name⟩
  | .record file => ⟨file.d_type, recordName file.timestamp file.uuid⟩

/-- A record of the time window of the request. -/
def DayEntry.wanted (request : ReplayProtocol) : DayEntry → Bool
  | .directory _ => false
  | .record file =>
    decide (request.StartTime ≤ file.timestamp) && decide (file.timestamp ≤ request.EndTime)

/-- `scandir` selects the records of the time window, or a call that it makes fails. -/
def ExactWindow (request : ReplayProtocol) (day : List DayEntry) (dir : Directory) : Prop :=
  match scandir dir request with
  | none => dir.Fails
  | some namelist => namelist.Perm ((day.filter (DayEntry.wanted request)).map DayEntry.dirent)

/-! ### Selection -/

/-- `filter_fn` compares as `int`. -/
private theorem selected_record (request : ReplayProtocol) (file : RecordFile) :
    (DayEntry.record file).dirent.selected request = true ↔
      request.StartTime.toInt32.toInt ≤ file.timestamp.toNat ∧
        file.timestamp.toNat ≤ request.EndTime.toInt32.toInt := by
  simp only [DayEntry.dirent, Dirent.selected, Dirent.filterFn, file.noDir, ↓reduceIte, filterFn,
    Bool.and_eq_true, decide_eq_true_eq, ge_iff_le, Int32.le_iff_toInt_le, atoi_printD,
    realTime_of_lt file.uuid file.early]

/-- The filter wants what the window has. -/
private def Agrees (request : ReplayProtocol) : Prop :=
  ∀ entry : DayEntry, entry.dirent.selected request = entry.wanted request

private theorem exactWindow_of_agrees {request : ReplayProtocol} (h : Agrees request)
    (day : List DayEntry) (dir : Directory) (hd : dir.entries = day.map DayEntry.dirent) :
    ExactWindow request day dir := by
  rw [ExactWindow]
  rcases scandir_spec dir request with ⟨v, hv, hp⟩ | ⟨hn, hf⟩
  · have he : Dirent.selected request ∘ DayEntry.dirent = DayEntry.wanted request := funext h
    rw [hv]
    rwa [hd, List.filter_map, he] at hp
  · rw [hn]
    exact hf

/-- A day with one record shows whether the filter agrees on it. -/
private theorem agrees_of_exactWindow {request : ReplayProtocol}
    (h : ∀ day dir, dir.entries = day.map DayEntry.dirent → ExactWindow request day dir) :
    Agrees request := by
  intro entry
  have hw := h [entry] { entries := [entry.dirent] } rfl
  rw [ExactWindow] at hw
  rcases scandir_spec { entries := [entry.dirent] } request with ⟨v, hv, hp⟩ | ⟨-, hf⟩
  · rw [hv] at hw
    have hlen := (hp.symm.trans hw).length_eq
    cases hs : entry.dirent.selected request <;> cases hn : entry.wanted request <;>
      simp [hs, hn] at hlen ⊢
  · simp [Directory.Fails] at hf

/-- Between the two the difference is that of `int` and `unsigned`. -/
private theorem agrees_iff (request : ReplayProtocol) :
    Agrees request ↔ ∀ file : RecordFile,
      (request.StartTime.toInt32.toInt ≤ file.timestamp.toNat ∧
        file.timestamp.toNat ≤ request.EndTime.toInt32.toInt ↔
      request.StartTime.toNat ≤ file.timestamp.toNat ∧
        file.timestamp.toNat ≤ request.EndTime.toNat) := by
  have hwanted (file : RecordFile) : (DayEntry.record file).wanted request = true ↔
      request.StartTime.toNat ≤ file.timestamp.toNat ∧
        file.timestamp.toNat ≤ request.EndTime.toNat := by
    simp only [DayEntry.wanted, Bool.and_eq_true, decide_eq_true_eq, UInt32.le_iff_toNat_le]
  constructor
  · intro h file
    rw [← selected_record, ← hwanted, h]
  · intro h entry
    cases entry with
    | directory name => rfl
    | record file => rw [Bool.eq_iff_iff, selected_record, hwanted, h]

/-- For every request, `scandir` is exact on all day directories, exactly if both times or
neither are before 2038, or the window is empty and ends before 2001. -/
theorem exactWindow_iff (request : ReplayProtocol) :
    (∀ day dir, dir.entries = day.map DayEntry.dirent → ExactWindow request day dir) ↔
      (request.StartTime.toNat < 2147483648 ↔ request.EndTime.toNat < 2147483648) ∨
        2147483648 ≤ request.StartTime.toNat ∧ request.EndTime.toNat < 1000000000 := by
  have hagrees : (∀ day dir, dir.entries = day.map DayEntry.dirent →
      ExactWindow request day dir) ↔ Agrees request :=
    ⟨agrees_of_exactWindow, exactWindow_of_agrees⟩
  rw [hagrees, agrees_iff]
  have hstart := toInt_toInt32 request.StartTime
  have hend := toInt_toInt32 request.EndTime
  have hs : request.StartTime.toNat < 4294967296 := request.StartTime.toNat_lt
  have he : request.EndTime.toNat < 4294967296 := request.EndTime.toNat_lt
  generalize request.StartTime.toInt32.toInt = start at hstart ⊢
  generalize request.EndTime.toInt32.toInt = stop at hend ⊢
  constructor
  · intro h
    -- the first and the last time that a record can have
    have hfirst : start ≤ (1000000000 : Nat) ∧ (1000000000 : Nat) ≤ stop ↔
        request.StartTime.toNat ≤ 1000000000 ∧ 1000000000 ≤ request.EndTime.toNat :=
      h ⟨1000000000, 0, 8, by decide, by decide, by decide, by decide⟩
    have hlast : start ≤ (2147483647 : Nat) ∧ (2147483647 : Nat) ≤ stop ↔
        request.StartTime.toNat ≤ 2147483647 ∧ 2147483647 ≤ request.EndTime.toNat :=
      h ⟨2147483647, 0, 8, by decide, by decide, by decide, by decide⟩
    split at hstart <;> split at hend <;> omega
  · intro h file
    have hlate := file.late
    have hearly := file.early
    split at hstart <;> split at hend <;> omega

/-- The window reaches beyond 2038: a record in it is not selected. -/
theorem not_exactWindow_open_end :
    let file : RecordFile :=
      ⟨1700000000, 0, 8, by decide, by decide, by decide, by decide⟩
    ¬ ExactWindow ⟨0, 0, 1600000000, 4294967295, 5⟩ [.record file]
      { entries := [(DayEntry.record file).dirent] } := by
  intro file h
  have hs : scandir { entries := [(DayEntry.record file).dirent] }
      ⟨0, 0, 1600000000, 4294967295, 5⟩ = some [] := by decide +kernel
  rw [ExactWindow, hs] at h
  have hlen := h.length_eq
  revert hlen
  decide

end DupDistribute.Playback

import DupDistribute.Base.Numeral
import DupDistribute.Base.TextFile
import DupDistribute.Playback.Truth

/-!
# The buffers that times are read from

`filter_fn` and `scanAndSend` copy the first ten characters of a name to an array of ten bytes
and give the array to `atoi` (`playback.c:16-19`, `playback.c:83-85`). `strncpy` writes no
terminator behind ten characters, so `atoi` ends inside the array only if one of the ten cannot
continue a number. The seconds of every date from September 2001 on have ten digits.

`filterFn` and `gateOpen` take the number to end with the array. Here that is justified for
everything that can lie behind the array and does not itself go on with the number.
-/

namespace DupDistribute.Playback

open DupDistribute.Base DupDistribute.Record

/-- `char buffer[10] = {0x0}; strncpy(buffer, d_name, 10);` -/
def timeBuffer (d_name : CString) : List Char :=
  pad 10 (strncpy d_name 10)

/-- The buffer of `filter_fn`, `playback.c:16-17`. -/
def realTime (d_name : CString) : List Char :=
  timeBuffer d_name

/-- The buffer of `scanAndSend`, `playback.c:83-84`. -/
def fileTime (d_name : CString) : List Char :=
  timeBuffer d_name

/-- `filter_fn`, `playback.c:10-24`, where `behind` is what follows `realTime` on the stack. -/
def filterFnBefore (behind : List Char) (d_name start stop : CString) : Bool :=
  let time := atoi (realTime d_name ++ behind)
  decide (atoi start ≤ time) && decide (atoi stop ≥ time)

/-- Everything that `atoi` reads of the two buffers has an index below ten. -/
def ParsesInside (d_name : CString) (behind : List Char) : Prop :=
  (∀ i, ReadsAt (realTime d_name ++ behind) i → i < 10) ∧
    ∀ i, ReadsAt (fileTime d_name ++ behind) i → i < 10

/-! ### How far `atoi` reads -/

private theorem length_timeBuffer (d_name : CString) : (timeBuffer d_name).length = 10 :=
  length_pad (by simp [strncpy])

private theorem timeBuffer_of_le {d_name : CString} (h : 10 ≤ d_name.length) :
    timeBuffer d_name = d_name.take 10 := by
  simp [timeBuffer, pad, strncpy, h]

/-- A terminator ends every number. -/
private theorem next_nul (part : NumeralPart) : part.next nul = none := by
  cases part <;> decide

/-- So does what stands behind the time in a record's name. -/
private theorem next_underscore (part : NumeralPart) : part.next '_' = none := by
  cases part <;> decide

private theorem timeBuffer_of_lt {d_name : CString} (h : d_name.length < 10) :
    ∃ t, timeBuffer d_name = d_name ++ nul :: t := by
  refine ⟨List.replicate (9 - d_name.length) nul, ?_⟩
  have hcount : 10 - d_name.length = 9 - d_name.length + 1 := by omega
  rw [timeBuffer, pad, strncpy, List.take_of_length_le (by omega), hcount, List.replicate_succ]

/-- For every name and everything behind the buffer: the reads stay inside exactly if the name
is shorter than the buffer or the part of it in the buffer cannot begin a number. -/
private theorem parsesInside_name_iff (d_name : CString) (behind : List Char) :
    ParsesInside d_name behind ↔ d_name.length < 10 ∨ ¬IsNumeralStart (d_name.take 10) := by
  rw [ParsesInside, realTime, fileTime, and_self]
  have hlen := length_timeBuffer d_name
  rw [readsAt_lt_iff (by rw [List.length_append]; omega), List.take_left' hlen]
  by_cases h : d_name.length < 10
  · obtain ⟨t, ht⟩ := timeBuffer_of_lt h
    rw [ht]
    exact iff_of_true (not_isNumeralStart_append next_nul) (.inl h)
  · rw [timeBuffer_of_le (by omega)]
    simp [h]

/-! ### The names of records -/

private theorem isNumeralStart_printD (x : Int32) : IsNumeralStart (printD 0 x) := by
  have hdigits (c : Char) (hc : c ∈ Nat.toDigits 10 x.toInt.natAbs) : c.isDigit = true :=
    Nat.isDigit_of_mem_toDigits (by decide) (by decide) hc
  by_cases hx : x.toInt < 0
  · exact ⟨[], ['-'], _, printD_of_neg hx, by simp, .inr (.inl rfl), hdigits⟩
  · exact ⟨[], [], _, printD_of_nonneg (by omega), by simp, .inl rfl, hdigits⟩

private theorem recordName_inside_iff (timestamp uuid : UInt32) :
    ((recordName timestamp uuid).length < 10 ∨
        ¬IsNumeralStart ((recordName timestamp uuid).take 10)) ↔
      (printD 0 timestamp.toInt32).length < 10 := by
  have hnumber := isNumeralStart_printD timestamp.toInt32
  rw [recordName]
  generalize printD 0 timestamp.toInt32 = time at hnumber ⊢
  by_cases h : time.length < 10
  · -- The scan comes to the underscore behind the time.
    have hcut : 10 - time.length = 9 - time.length + 1 := by omega
    refine iff_of_true (.inr ?_) h
    rw [List.take_append, List.take_of_length_le (by omega), hcut, List.take_succ_cons]
    exact not_isNumeralStart_append next_underscore
  · have hlen : ¬(time ++ '_' :: (printD 3 uuid.toInt32 ++ ['.', 'd', 'a', 't', 'a'])).length
        < 10 := by
      rw [List.length_append]
      omega
    have hstart : IsNumeralStart (time.take 10) := by
      rw [← List.take_append_drop 10 time] at hnumber
      exact hnumber.of_append
    rw [List.take_append_of_le_length (by omega)]
    exact iff_of_false (not_or.mpr ⟨hlen, not_not.mpr hstart⟩) h

/-- The times that are printed with fewer than ten characters. -/
private theorem length_time_lt_iff (timestamp : UInt32) :
    (printD 0 timestamp.toInt32).length < 10 ↔
      timestamp.toNat < 1000000000 ∨ 4194967296 < timestamp.toNat := by
  have hlt : timestamp.toNat < 4294967296 := timestamp.toNat_lt
  have hx := toInt_toInt32 timestamp
  by_cases h : timestamp.toNat < 2147483648
  · rw [if_pos h] at hx
    have hdigits : (Nat.toDigits 10 timestamp.toNat).length ≤ 9 ↔ timestamp.toNat < 10 ^ 9 :=
      Nat.length_toDigits_le_iff (by decide) (by decide)
    rw [printD_of_nonneg (by omega), hx, Int.natAbs_natCast]
    omega
  · rw [if_neg h] at hx
    have hdigits : (Nat.toDigits 10 timestamp.toInt32.toInt.natAbs).length ≤ 8 ↔
        timestamp.toInt32.toInt.natAbs < 10 ^ 8 :=
      Nat.length_toDigits_le_iff (by decide) (by decide)
    rw [printD_of_neg (by omega), List.length_cons]
    omega

/-- For every name and whatever follows on the stack, the reads of `realTime` and `fileTime`
stay below index ten exactly if the name is shorter than ten characters or its first ten are not
white space, at most one sign, and digits. Among the names of records those are the names with a
time before September 2001 or one that is printed as a negative number of at most eight digits. -/
theorem parsesInside_iff (d_name : CString) (timestamp uuid : UInt32) (behind : List Char) :
    (ParsesInside d_name behind ↔ d_name.length < 10 ∨ ¬IsNumeralStart (d_name.take 10)) ∧
      (ParsesInside (recordName timestamp uuid) behind ↔
        timestamp.toNat < 1000000000 ∨ 4194967296 < timestamp.toNat) := by
  refine ⟨parsesInside_name_iff d_name behind, ?_⟩
  rw [parsesInside_name_iff, recordName_inside_iff, length_time_lt_iff]

/-- A record of November 2023: `atoi` looks behind the ten bytes, and a digit there becomes part
of the time. -/
theorem recordName_not_parsesInside :
    recordName 1700000000 0 = "1700000000_000.data".toList ∧
      ReadsAt (realTime (recordName 1700000000 0) ++ ['7']) 10 ∧
      ¬ParsesInside (recordName 1700000000 0) ['7'] ∧
      atoi (realTime (recordName 1700000000 0) ++ ['7']) ≠ 1700000000 := by
  have hread : ReadsAt (realTime (recordName 1700000000 0) ++ ['7']) 10 := by decide +kernel
  refine ⟨by decide +kernel, hread, ?_, by decide +kernel⟩
  rintro ⟨hinside, -⟩
  exact absurd (hinside 10 hread) (by decide)

/-! ### What the number is -/

/-- The value is that of the ten characters if what follows the buffer does not go on with the
number that the buffer ends in. -/
theorem atoi_timeBuffer {d_name : CString} {behind : List Char}
    (h : ∀ part c, NumeralPart.space.after (timeBuffer d_name) = some part →
      c ∈ behind.head? → part.next c = none) :
    atoi (timeBuffer d_name ++ behind) = atoi (strncpy d_name 10) := by
  have hpad : strtol (timeBuffer d_name) = strtol (strncpy d_name 10) := by
    apply strtol_append
    intro part c _ hc
    have hnul : c = nul := List.eq_of_mem_replicate (List.mem_of_mem_head? hc)
    rw [hnul]
    exact next_nul part
  rw [atoi, atoi, strtol_append h, hpad]

/-- Then `filter_fn` selects what the model without a stack selects, -/
theorem filterFnBefore_eq {d_name : CString} {behind : List Char} (start stop : CString)
    (h : ∀ part c, NumeralPart.space.after (realTime d_name) = some part →
      c ∈ behind.head? → part.next c = none) :
    filterFnBefore behind d_name start stop = filterFn d_name start stop := by
  have htime : atoi (realTime d_name ++ behind) = atoi (strncpy d_name 10) := atoi_timeBuffer h
  rw [filterFnBefore, filterFn, htime]

/-- and the pacing test of `scanAndSend` is that of the model without a stack. -/
theorem gateOpen_fileTime {d_name : CString} {behind : List Char} (starttime : CString)
    (speed playtime now : UInt32)
    (h : ∀ part c, NumeralPart.space.after (fileTime d_name) = some part →
      c ∈ behind.head? → part.next c = none) :
    gateOpen (fileTime d_name ++ behind) starttime speed playtime now =
      gateOpen (strncpy d_name 10) starttime speed playtime now := by
  have htime : atoi (fileTime d_name ++ behind) = atoi (strncpy d_name 10) := atoi_timeBuffer h
  rw [gateOpen, gateOpen, htime]

end DupDistribute.Playback

import DupDistribute.Base.CString

/-!
# Which characters a number is read from

Library support, independent of any program. `atoi` is given no length: it looks at one
character after the other until one cannot continue the number (glibc, `strtol_l.c`). Here the
scan is a machine of two states, and a character is read when all before it continued the
number. The value depends on nothing behind the character that ended the scan.
-/

namespace DupDistribute.Base

/-- How far the scan has come: in white space, or in the number from its sign or first digit on. -/
inductive NumeralPart where
  | space
  | number
  deriving DecidableEq, Repr

/-- The part after one more character; `none` if that one cannot continue the number. -/
def NumeralPart.next : NumeralPart → Char → Option NumeralPart
  | .space, c =>
    if isSpace c then some .space
    else if c = '-' ∨ c = '+' ∨ c.isDigit then some .number
    else none
  | .number, c => if c.isDigit then some .number else none

/-- The part after all these characters. -/
def NumeralPart.after (part : NumeralPart) : CString → Option NumeralPart
  | [] => some part
  | c :: s => (part.next c).bind (fun part ↦ part.after s)

/-- The scan of a number at the beginning of a memory looks at this index: everything before it
continued the number. -/
def ReadsAt (memory : List Char) (i : Nat) : Prop :=
  i ≤ memory.length ∧ (NumeralPart.space.after (memory.take i)).isSome

instance (memory : List Char) (i : Nat) : Decidable (ReadsAt memory i) :=
  inferInstanceAs (Decidable (_ ∧ _))

/-- White space, at most one sign, and digits. -/
def IsNumeralStart (s : CString) : Prop :=
  ∃ spaces sign digits : CString, s = spaces ++ (sign ++ digits) ∧
    (∀ c ∈ spaces, isSpace c = true) ∧ (sign = [] ∨ sign = ['-'] ∨ sign = ['+']) ∧
    ∀ c ∈ digits, c.isDigit = true

/-! ### How far the scan goes -/

theorem NumeralPart.after_append (part : NumeralPart) (s t : CString) :
    part.after (s ++ t) = (part.after s).bind (fun part ↦ part.after t) := by
  induction s generalizing part with
  | nil => rfl
  | cons c s ih =>
    rw [List.cons_append, after, after]
    cases part.next c with
    | none => rfl
    | some part => exact ih part

/-- Within a number only digits go on. -/
theorem NumeralPart.after_number_iff {s : CString} :
    (NumeralPart.number.after s).isSome ↔ ∀ c ∈ s, c.isDigit = true := by
  induction s with
  | nil => simp [after]
  | cons c s ih =>
    rw [after, next, List.forall_mem_cons]
    by_cases hc : c.isDigit = true
    · rw [if_pos hc, Option.bind_some, ih]
      simp [hc]
    · rw [if_neg hc]
      simp [hc]

theorem NumeralPart.after_number_eq {s : CString} (h : (NumeralPart.number.after s).isSome) :
    NumeralPart.number.after s = some .number := by
  induction s with
  | nil => rfl
  | cons c s ih =>
    obtain ⟨hc, hs⟩ := List.forall_mem_cons.mp (after_number_iff.mp h)
    rw [after, next, if_pos hc, Option.bind_some]
    exact ih (after_number_iff.mpr hs)

private theorem isNumeralStart_of_after {s : CString} (h : (NumeralPart.space.after s).isSome) :
    IsNumeralStart s := by
  induction s with
  | nil => exact ⟨[], [], [], rfl, by simp, .inl rfl, by simp⟩
  | cons c s ih =>
    rw [NumeralPart.after, NumeralPart.next] at h
    by_cases hspace : isSpace c = true
    · rw [if_pos hspace, Option.bind_some] at h
      obtain ⟨spaces, sign, digits, rfl, hspaces, hrest⟩ := ih h
      exact ⟨c :: spaces, sign, digits, rfl, List.forall_mem_cons.mpr ⟨hspace, hspaces⟩, hrest⟩
    · rw [if_neg hspace] at h
      by_cases hstart : c = '-' ∨ c = '+' ∨ c.isDigit = true
      · rw [if_pos hstart, Option.bind_some, NumeralPart.after_number_iff] at h
        rcases hstart with rfl | rfl | hdigit
        · exact ⟨[], ['-'], s, rfl, by simp, .inr (.inl rfl), h⟩
        · exact ⟨[], ['+'], s, rfl, by simp, .inr (.inr rfl), h⟩
        · exact ⟨[], [], c :: s, rfl, by simp, .inl rfl, List.forall_mem_cons.mpr ⟨hdigit, h⟩⟩
      · rw [if_neg hstart] at h
        cases h

private theorem after_digits {digits : CString} (h : ∀ c ∈ digits, c.isDigit = true) :
    (NumeralPart.space.after digits).isSome := by
  cases digits with
  | nil => rfl
  | cons c digits =>
    obtain ⟨hc, hdigits⟩ := List.forall_mem_cons.mp h
    have hnext : NumeralPart.space.next c = some .number := by
      rw [NumeralPart.next, if_neg (by simp [isSpace_of_isDigit hc]), if_pos (.inr (.inr hc))]
    rw [NumeralPart.after, hnext]
    exact NumeralPart.after_number_iff.mpr hdigits

private theorem IsNumeralStart.after {s : CString} (h : IsNumeralStart s) :
    (NumeralPart.space.after s).isSome := by
  obtain ⟨spaces, sign, digits, rfl, hspaces, hsign, hdigits⟩ := h
  induction spaces with
  | nil =>
    rcases hsign with rfl | rfl | rfl
    · exact after_digits hdigits
    · exact NumeralPart.after_number_iff.mpr hdigits
    · exact NumeralPart.after_number_iff.mpr hdigits
  | cons c spaces ih =>
    obtain ⟨hc, hspaces⟩ := List.forall_mem_cons.mp hspaces
    rw [List.cons_append, NumeralPart.after, NumeralPart.next, if_pos hc]
    exact ih hspaces

/-- The texts that the scan gets through. -/
theorem NumeralPart.after_space_iff {s : CString} :
    (NumeralPart.space.after s).isSome ↔ IsNumeralStart s :=
  ⟨isNumeralStart_of_after, IsNumeralStart.after⟩

/-- What begins a number still does when it is cut off. -/
theorem IsNumeralStart.of_append {s t : CString} (h : IsNumeralStart (s ++ t)) :
    IsNumeralStart s := by
  rw [← NumeralPart.after_space_iff, NumeralPart.after_append] at h
  exact NumeralPart.after_space_iff.mp (Option.isSome_of_isSome_bind h)

/-- A character that continues no number does not occur where one begins. -/
theorem not_isNumeralStart_append {s t : CString} {c : Char}
    (hc : ∀ part : NumeralPart, part.next c = none) : ¬IsNumeralStart (s ++ c :: t) := by
  rw [← NumeralPart.after_space_iff, NumeralPart.after_append]
  cases NumeralPart.space.after s with
  | none => simp
  | some part => simp [NumeralPart.after, hc]

/-- The scan stays among the first characters exactly if they end it. -/
theorem readsAt_lt_iff {memory : List Char} {n : Nat} (hn : n ≤ memory.length) :
    (∀ i, ReadsAt memory i → i < n) ↔ ¬IsNumeralStart (memory.take n) := by
  rw [← NumeralPart.after_space_iff]
  constructor
  · intro h hthrough
    exact absurd (h n ⟨hn, hthrough⟩) (Nat.lt_irrefl n)
  · intro hends i hi
    by_contra hge
    apply hends
    obtain ⟨-, hsome⟩ := hi
    have hsplit : memory.take i = memory.take n ++ (memory.take i).drop n := by
      have htake : memory.take n = (memory.take i).take n := by
        rw [List.take_take, Nat.min_eq_left (by omega)]
      rw [htake, List.take_append_drop]
    rw [hsplit, NumeralPart.after_append] at hsome
    exact Option.isSome_of_isSome_bind hsome

/-! ### The value -/

private theorem leadingValue_append {s rest : CString}
    (h : (NumeralPart.number.after s).isSome → ∀ c ∈ rest.head?, c.isDigit = false) :
    leadingValue (s ++ rest) = leadingValue s := by
  rw [NumeralPart.after_number_iff] at h
  have htake : (s ++ rest).takeWhile Char.isDigit = s.takeWhile Char.isDigit := by
    induction s with
    | nil =>
      cases rest with
      | nil => rfl
      | cons c rest =>
        have hc := h (by simp) c (by simp)
        rw [List.nil_append, List.takeWhile_cons_of_neg (by simp [hc]), List.takeWhile_nil]
    | cons c s ih =>
      rw [List.cons_append]
      by_cases hc : c.isDigit = true
      · rw [List.takeWhile_cons_of_pos hc, List.takeWhile_cons_of_pos hc,
          ih (fun hs ↦ h (List.forall_mem_cons.mpr ⟨hc, hs⟩))]
      · rw [List.takeWhile_cons_of_neg hc, List.takeWhile_cons_of_neg hc]
  rw [leadingValue, leadingValue, htake]

private theorem strtol_cons_space {c : Char} (h : isSpace c = true) (s : CString) :
    strtol (c :: s) = strtol s := by
  rw [strtol, strtol, List.dropWhile_cons_of_pos h]

/-- A text that does not begin with white space is read from its sign or its digits on. -/
private theorem strtol_cons {c : Char} (h : isSpace c = false) (s : CString) :
    strtol (c :: s) =
      if c = '-' then max (-(leadingValue s : Int)) Int64.minValue.toInt
      else if c = '+' then min (leadingValue s) Int64.maxValue.toInt
      else min (leadingValue (c :: s)) Int64.maxValue.toInt := by
  rw [strtol, List.dropWhile_cons_of_neg (by simp [h])]
  split
  · next heq =>
    obtain ⟨rfl, rfl⟩ := List.cons.inj heq
    rw [if_pos rfl]
  · next heq =>
    obtain ⟨rfl, rfl⟩ := List.cons.inj heq
    rw [if_neg (by decide), if_pos rfl]
  · next hminus hplus =>
    rw [if_neg (by rintro rfl; exact hminus _ rfl), if_neg (by rintro rfl; exact hplus _ rfl)]

private theorem leadingValue_of_not_digit {c : Char} (h : c.isDigit = false) (s : CString) :
    leadingValue (c :: s) = 0 := by
  rw [leadingValue, List.takeWhile_cons_of_neg (by simp [h])]
  rfl

/-- No number begins with a character that cannot begin one. -/
private theorem strtol_of_next_none {c : Char} (h : NumeralPart.space.next c = none)
    (s : CString) : strtol (c :: s) = 0 := by
  rw [NumeralPart.next] at h
  split_ifs at h with hspace hstart
  simp only [not_or, Bool.not_eq_true] at hspace hstart
  obtain ⟨hminus, hplus, hdigit⟩ := hstart
  rw [strtol_cons hspace, if_neg hminus, if_neg hplus, leadingValue_of_not_digit hdigit]
  rfl

private theorem next_space_eq {c : Char} {part : NumeralPart}
    (h : NumeralPart.space.next c = some part) :
    part = .space ∧ isSpace c = true ∨
      part = .number ∧ isSpace c = false ∧ (c = '-' ∨ c = '+' ∨ c.isDigit = true) := by
  rw [NumeralPart.next] at h
  split_ifs at h with hspace hstart
  · exact .inl ⟨(Option.some.inj h).symm, hspace⟩
  · exact .inr ⟨(Option.some.inj h).symm, by simpa using hspace, hstart⟩

/-- From the sign or the first digit on, only digits count. -/
private theorem strtol_append_of_number {c : Char} {s rest : CString}
    (hspace : isSpace c = false) (hstart : c = '-' ∨ c = '+' ∨ c.isDigit = true)
    (h : (NumeralPart.number.after s).isSome → ∀ d ∈ rest.head?, d.isDigit = false) :
    strtol (c :: (s ++ rest)) = strtol (c :: s) := by
  rw [strtol_cons hspace, strtol_cons hspace, leadingValue_append h]
  rcases hstart with rfl | rfl | hdigit
  · rw [if_pos rfl, if_pos rfl]
  · rw [if_neg (by decide), if_pos rfl, if_neg (by decide), if_pos rfl]
  · have hmore : (NumeralPart.number.after (c :: s)).isSome →
        (NumeralPart.number.after s).isSome := by
      rw [NumeralPart.after_number_iff, NumeralPart.after_number_iff]
      exact fun hall ↦ (List.forall_mem_cons.mp hall).2
    rw [← List.cons_append, leadingValue_append (fun hsome ↦ h (hmore hsome))]

/-- What stands behind a text does not matter if the scan ends in it, or at what follows. -/
theorem strtol_append {s rest : CString}
    (h : ∀ part c, NumeralPart.space.after s = some part → c ∈ rest.head? → part.next c = none) :
    strtol (s ++ rest) = strtol s := by
  induction s with
  | nil =>
    cases rest with
    | nil => rfl
    | cons c rest =>
      rw [List.nil_append, strtol_of_next_none (h .space c rfl rfl)]
      rfl
  | cons c s ih =>
    rw [List.cons_append]
    cases hnext : NumeralPart.space.next c with
    | none => rw [strtol_of_next_none hnext, strtol_of_next_none hnext]
    | some part =>
      rw [NumeralPart.after, hnext, Option.bind_some] at h
      obtain ⟨rfl, hspace⟩ | ⟨rfl, hspace, hstart⟩ := next_space_eq hnext
      · rw [strtol_cons_space hspace, strtol_cons_space hspace]
        exact ih h
      · apply strtol_append_of_number hspace hstart
        intro hsome d hd
        have hnone := h .number d (NumeralPart.after_number_eq hsome) hd
        rw [NumeralPart.next] at hnone
        simpa using hnone

end DupDistribute.Base

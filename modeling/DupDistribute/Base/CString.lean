import Mathlib.Data.List.Basic

/-!
# C strings, decimal printing and decimal parsing

Library support, independent of any program. A C string is the list of its characters
before the terminating NUL. `printD` is the `%d`/`%0wd` conversion of `sprintf`, and
`atoi` follows `strtol` in base ten, narrowed to `int`. Texts that are joined at a
separator can be taken apart again when the parts avoid it. A call that can fail is an
`Except`, and a chain of such calls is taken apart by `bind_eq_ok`.
-/

namespace DupDistribute.Base

/-- The characters of a C string, without its terminator. -/
abbrev CString := List Char

/-- The character that ends a string. -/
def nul : Char := '\x00'

/-- `strcmp`: the sign tells the order of the first characters that differ. -/
def strcmp : CString → CString → Int
  | [], [] => 0
  | [], d :: _ => 0 - d.toNat
  | c :: _, [] => c.toNat
  | c :: a, d :: b => if c = d then strcmp a b else (c.toNat : Int) - d.toNat

private theorem toNat_pos {c : Char} (h : nul ≠ c) : 0 < c.toNat := by
  by_contra hz
  exact h (Char.toNat_inj.mp (by rw [Nat.eq_zero_of_not_pos hz]; rfl))

/-- Strings compare equal exactly if they are. -/
theorem strcmp_eq_zero_iff {a b : CString} (ha : nul ∉ a) (hb : nul ∉ b) :
    strcmp a b = 0 ↔ a = b := by
  induction a generalizing b with
  | nil =>
    cases b with
    | nil => simp [strcmp]
    | cons d b =>
      have hd := toNat_pos (List.ne_of_not_mem_cons hb)
      have hne : strcmp [] (d :: b) ≠ 0 := by rw [strcmp]; omega
      simp [hne]
  | cons c a ih =>
    cases b with
    | nil =>
      have hc := toNat_pos (List.ne_of_not_mem_cons ha)
      have hne : strcmp (c :: a) [] ≠ 0 := by rw [strcmp]; omega
      simp [hne]
    | cons d b =>
      rw [strcmp]
      by_cases hcd : c = d
      · rw [if_pos hcd, ih (List.not_mem_of_not_mem_cons ha) (List.not_mem_of_not_mem_cons hb)]
        simp [hcd]
      · have hne : c.toNat ≠ d.toNat := fun he ↦ hcd (Char.toNat_inj.mp he)
        have hdiff : (c.toNat : Int) - d.toNat ≠ 0 := by omega
        simp [hcd, hdiff]

/-- Exchanging the strings changes the sign. -/
theorem strcmp_swap (a b : CString) : strcmp b a = -strcmp a b := by
  induction a generalizing b with
  | nil => cases b <;> simp [strcmp]
  | cons c a ih =>
    cases b with
    | nil => simp [strcmp]
    | cons d b =>
      rw [strcmp, strcmp]
      by_cases hcd : c = d
      · rw [if_pos hcd.symm, if_pos hcd, ih]
      · rw [if_neg (Ne.symm hcd), if_neg hcd]
        omega

/-- The order of strings is transitive. -/
theorem strcmp_trans {a b c : CString} (ha : nul ∉ a) (hb : nul ∉ b) (hab : strcmp a b ≤ 0)
    (hbc : strcmp b c ≤ 0) : strcmp a c ≤ 0 := by
  induction a generalizing b c with
  | nil =>
    cases c with
    | nil => simp [strcmp]
    | cons z c =>
      rw [strcmp]
      omega
  | cons x a ih =>
    have hx := toNat_pos (List.ne_of_not_mem_cons ha)
    cases b with
    | nil =>
      rw [strcmp] at hab
      omega
    | cons y b =>
      have hy := toNat_pos (List.ne_of_not_mem_cons hb)
      cases c with
      | nil =>
        rw [strcmp] at hbc
        omega
      | cons z c =>
        rw [strcmp] at hab hbc ⊢
        have hinj {p q : Char} (h : p ≠ q) : p.toNat ≠ q.toNat := fun he ↦ h (Char.toNat_inj.mp he)
        by_cases hxy : x = y
        · subst hxy
          by_cases hxz : x = z
          · rw [if_pos hxz] at hbc ⊢
            rw [if_pos rfl] at hab
            exact ih (List.not_mem_of_not_mem_cons ha) (List.not_mem_of_not_mem_cons hb) hab hbc
          · rw [if_neg hxz] at hbc ⊢
            exact hbc
        · rw [if_neg hxy] at hab
          by_cases hyz : y = z
          · subst hyz
            rw [if_neg hxy]
            exact hab
          · rw [if_neg hyz] at hbc
            have hne := hinj hxy
            have hxz : x ≠ z := by
              rintro rfl
              omega
            rw [if_neg hxz]
            omega

/-- Behind beginnings of one length, the order is that of the beginnings first. -/
theorem strcmp_append_neg_iff {a a' : CString} (b b' : CString) (hlen : a.length = a'.length) :
    strcmp (a ++ b) (a' ++ b') < 0 ↔ strcmp a a' < 0 ∨ a = a' ∧ strcmp b b' < 0 := by
  induction a generalizing a' with
  | nil =>
    obtain rfl : a' = [] := List.eq_nil_of_length_eq_zero hlen.symm
    simp [strcmp]
  | cons c a ih =>
    obtain ⟨d, a', rfl⟩ := List.exists_cons_of_length_eq_add_one hlen.symm
    have ih := ih (Nat.succ.inj hlen)
    rw [List.cons_append, List.cons_append, strcmp, strcmp]
    by_cases hcd : c = d
    · rw [if_pos hcd, if_pos hcd, ih, List.cons.injEq]
      simp [hcd]
    · rw [if_neg hcd, if_neg hcd]
      simp [hcd]

/-- `strchr`: where a character stands first. -/
def strchr (s : CString) (c : Char) : Option Nat :=
  if c ∈ s then some (s.idxOf c) else none

/-! ### Separators -/

/-- The first separator splits a text in one way only. -/
theorem split_first {α : Type} {c : α} {a a' b b' : List α} (h : c ∉ a) (h' : c ∉ a')
    (he : a ++ c :: b = a' ++ c :: b') : a = a' ∧ b = b' := by
  induction a generalizing a' with
  | nil =>
    cases a' with
    | nil => exact ⟨rfl, by simpa using he⟩
    | cons x xs =>
      have hx : c = x := by simpa using congrArg List.head? he
      exact absurd (by simp [hx]) h'
  | cons y ys ih =>
    cases a' with
    | nil =>
      have hy : y = c := by simpa using congrArg List.head? he
      exact absurd (by simp [hy]) h
    | cons x xs =>
      simp only [List.cons_append, List.cons.injEq] at he
      obtain ⟨rfl, he⟩ := he
      have hr := ih (fun hm ↦ h (List.mem_cons_of_mem _ hm))
        (fun hm ↦ h' (List.mem_cons_of_mem _ hm)) he
      exact ⟨congrArg (y :: ·) hr.1, hr.2⟩

/-- The last separator splits a text in one way only. -/
theorem split_last {α : Type} {c : α} {a a' b b' : List α} (h : c ∉ b) (h' : c ∉ b')
    (he : a ++ c :: b = a' ++ c :: b') : a = a' ∧ b = b' := by
  have hr := congrArg List.reverse he
  simp only [List.reverse_append, List.reverse_cons, List.append_assoc, List.singleton_append]
    at hr
  obtain ⟨hb, ha⟩ := split_first (by simpa using h) (by simpa using h') hr
  exact ⟨List.reverse_injective ha, List.reverse_injective hb⟩

/-! ### Decimal printing -/

/-- `sprintf` of `%d` (width zero) or `%0wd` (width `w`) at a 32-bit argument. -/
def printD (width : Nat) (x : Int32) : CString :=
  let sign : CString := if x.toInt < 0 then ['-'] else []
  let digits := Nat.toDigits 10 x.toInt.natAbs
  sign ++ List.replicate (width - sign.length - digits.length) '0' ++ digits

/-- A printed number has digits and at most a sign. -/
theorem mem_printD {width : Nat} {x : Int32} {c : Char} (h : c ∈ printD width x) :
    c = '-' ∨ c.isDigit = true := by
  simp only [printD, List.mem_append, List.mem_replicate] at h
  rcases h with (hs | ⟨-, rfl⟩) | hd
  · split at hs
    · exact Or.inl (by simpa using hs)
    · simp at hs
  · exact Or.inr (by decide)
  · exact Or.inr (Nat.isDigit_of_mem_toDigits (by decide) (by decide) hd)

theorem notMem_printD {width : Nat} {x : Int32} {c : Char} (hs : c ≠ '-')
    (hd : c.isDigit = false) : c ∉ printD width x := by
  intro h
  rcases mem_printD h with rfl | h
  · exact hs rfl
  · rw [hd] at h
    cases h

private theorem value_padded (k n : Nat) :
    Nat.ofDigitChars 10 (List.replicate k '0' ++ Nat.toDigits 10 n) 0 = n := by
  rw [Nat.ofDigitChars_append, Nat.ofDigitChars_replicate_zero, Nat.mul_zero,
    Nat.ofDigitChars_ten_toDigits]

private theorem padded_ne_sign (k n : Nat) (xs : CString) :
    List.replicate k '0' ++ Nat.toDigits 10 n ≠ '-' :: xs := by
  intro he
  have hm : '-' ∈ List.replicate k '0' ++ Nat.toDigits 10 n := by simp [he]
  rcases List.mem_append.mp hm with hz | hd
  · exact absurd (List.eq_of_mem_replicate hz) (by decide)
  · exact absurd (Nat.isDigit_of_mem_toDigits (by decide) (by decide) hd) (by decide)

/-- Printing at one width is injective. -/
theorem printD_inj {width : Nat} {x y : Int32} (h : printD width x = printD width y) : x = y := by
  apply Int32.toInt_inj.mp
  simp only [printD] at h
  by_cases hx : x.toInt < 0 <;> by_cases hy : y.toInt < 0
  · simp only [hx, hy, ↓reduceIte, List.cons_append, List.nil_append, List.cons.injEq,
      true_and] at h
    have hv := congrArg (fun ds ↦ Nat.ofDigitChars 10 ds 0) h
    simp only [value_padded] at hv
    omega
  · simp only [hx, hy, ↓reduceIte, List.cons_append, List.nil_append] at h
    exact absurd h.symm (padded_ne_sign _ _ _)
  · simp only [hx, hy, ↓reduceIte, List.cons_append, List.nil_append] at h
    exact absurd h (padded_ne_sign _ _ _)
  · simp only [hx, hy, ↓reduceIte, List.nil_append] at h
    have hv := congrArg (fun ds ↦ Nat.ofDigitChars 10 ds 0) h
    simp only [value_padded] at hv
    omega

example : printD 3 7 = ['0', '0', '7'] := by decide

/-! ### Decimal parsing -/

/-- `isspace` in the C locale. -/
def isSpace (c : Char) : Bool := c == ' ' || (9 ≤ c.toNat && c.toNat ≤ 13)

/-- The value of the leading digits, as `strtol` accumulates it. -/
def leadingValue (s : CString) : Nat := Nat.ofDigitChars 10 (s.takeWhile Char.isDigit) 0

/-- `strtol` in base ten: white space, an optional sign, digits, clamped to `long`. -/
def strtol (s : CString) : Int :=
  match s.dropWhile isSpace with
  | '-' :: rest => max (-(leadingValue rest : Int)) Int64.minValue.toInt
  | '+' :: rest => min (leadingValue rest) Int64.maxValue.toInt
  | rest => min (leadingValue rest) Int64.maxValue.toInt

/-- `atoi`: the `long` result narrowed to `int`. -/
def atoi (s : CString) : Int32 := Int32.ofInt (strtol s)

/-- `strncpy` into a zeroed buffer of the same length: at most `n` characters. -/
def strncpy (s : CString) (n : Nat) : CString := s.take n

/-- A digit is no white space. -/
theorem isSpace_of_isDigit {c : Char} (h : c.isDigit = true) : isSpace c = false := by
  simp only [Char.isDigit, Bool.and_eq_true, decide_eq_true_eq, ge_iff_le,
    UInt32.le_iff_toNat_le] at h
  have hlow : 48 ≤ c.toNat := h.1
  have hc : c ≠ ' ' := by
    rintro rfl
    revert hlow
    decide
  have hnot : ¬ c.toNat ≤ 13 := by omega
  simp [isSpace, hc, hnot]

private theorem leadingValue_digits {ds rest : CString} (hd : ∀ c ∈ ds, c.isDigit = true)
    (hr : ∀ c ∈ rest.head?, c.isDigit = false) :
    leadingValue (ds ++ rest) = Nat.ofDigitChars 10 ds 0 := by
  have hstop : rest.takeWhile Char.isDigit = [] := by
    cases rest with
    | nil => rfl
    | cons c cs => rw [List.takeWhile_cons_of_neg (by simp [hr c (by simp)])]
  rw [leadingValue, List.takeWhile_append_of_pos hd, hstop, List.append_nil]

/-- A text that begins with digits is read up to their end. -/
theorem strtol_digits {ds rest : CString} (hd : ∀ c ∈ ds, c.isDigit = true) (hne : ds ≠ [])
    (hr : ∀ c ∈ rest.head?, c.isDigit = false) :
    strtol (ds ++ rest) = min (Nat.ofDigitChars 10 ds 0 : Int) Int64.maxValue.toInt := by
  obtain ⟨c, cs, rfl⟩ := List.exists_cons_of_ne_nil hne
  have hc : c.isDigit = true := hd c (by simp)
  have hdrop : ((c :: cs) ++ rest).dropWhile isSpace = (c :: cs) ++ rest := by
    rw [List.cons_append, List.dropWhile_cons_of_neg (by simp [isSpace_of_isDigit hc])]
  simp only [strtol, hdrop]
  split
  · next heq =>
    obtain ⟨rfl, -⟩ := List.cons.inj heq
    cases hc
  · next heq =>
    obtain ⟨rfl, -⟩ := List.cons.inj heq
    cases hc
  · rw [leadingValue_digits hd hr]

/-- So is one that begins with a minus sign and digits. -/
theorem strtol_minus {ds rest : CString} (hd : ∀ c ∈ ds, c.isDigit = true)
    (hr : ∀ c ∈ rest.head?, c.isDigit = false) :
    strtol ('-' :: (ds ++ rest)) =
      max (-(Nat.ofDigitChars 10 ds 0 : Int)) Int64.minValue.toInt := by
  have hdrop : ('-' :: (ds ++ rest)).dropWhile isSpace = '-' :: (ds ++ rest) := by
    rw [List.dropWhile_cons_of_neg (by decide)]
  simp only [strtol, hdrop]
  rw [leadingValue_digits hd hr]

/-- Without a width, a number that is not negative is printed as its digits. -/
theorem printD_of_nonneg {x : Int32} (hx : 0 ≤ x.toInt) :
    printD 0 x = Nat.toDigits 10 x.toInt.natAbs := by
  simp [printD, Int.not_lt.mpr hx]

/-- Without a width, a negative number is printed as a sign and its digits. -/
theorem printD_of_neg {x : Int32} (hx : x.toInt < 0) :
    printD 0 x = '-' :: Nat.toDigits 10 x.toInt.natAbs := by
  simp [printD, hx]

/-- A decimal numeral: digits, with a minus sign or without. -/
def IsDecimal (s : CString) (x : Int) : Prop :=
  ∃ ds : CString, ds ≠ [] ∧ (∀ c ∈ ds, c.isDigit = true) ∧
    (s = ds ∧ x = Nat.ofDigitChars 10 ds 0 ∨ s = '-' :: ds ∧ x = -(Nat.ofDigitChars 10 ds 0 : Int))

/-- A number is printed as a numeral of it. -/
theorem isDecimal_printD (x : Int32) : IsDecimal (printD 0 x) x.toInt := by
  refine ⟨Nat.toDigits 10 x.toInt.natAbs, Nat.toDigits_ne_nil, ?_, ?_⟩
  · exact fun c hc ↦ Nat.isDigit_of_mem_toDigits (by decide) (by decide) hc
  · rw [Nat.ofDigitChars_ten_toDigits]
    by_cases hx : 0 ≤ x.toInt
    · exact .inl ⟨printD_of_nonneg hx, by omega⟩
    · exact .inr ⟨printD_of_neg (by omega), by omega⟩

/-- Numerals of an `int` are read as it. -/
theorem atoi_of_isDecimal {s : CString} {x : Int32} (h : IsDecimal s x.toInt) : atoi s = x := by
  have hlt : x.toInt < 2147483648 := x.toInt_lt
  have hge : -2147483648 ≤ x.toInt := x.le_toInt
  have hread : strtol s = x.toInt := by
    obtain ⟨ds, hne, hd, ⟨rfl, hx⟩ | ⟨rfl, hx⟩⟩ := h
    · have hmax : Int64.maxValue.toInt = 9223372036854775807 := by decide
      rw [← List.append_nil s, strtol_digits hd hne (by simp), hmax]
      omega
    · have hmin : Int64.minValue.toInt = -9223372036854775808 := by decide
      rw [← List.append_nil ds, strtol_minus hd (by simp), hmin]
      omega
  rw [atoi, hread, Int32.ofInt_toInt]

/-- What was printed is read back. -/
theorem atoi_printD (x : Int32) : atoi (printD 0 x) = x := atoi_of_isDecimal (isDecimal_printD x)

/-- Conversion of `unsigned int` to `int`. -/
theorem toInt_toInt32 (x : UInt32) : x.toInt32.toInt =
    if x.toNat < 2147483648 then (x.toNat : Int) else (x.toNat : Int) - 4294967296 := by
  have h : x.toInt32.toInt = x.toBitVec.toInt := rfl
  rw [h, BitVec.toInt_eq_toNat_cond]
  simp only [UInt32.toNat_toBitVec]
  split <;> split <;> omega

/-! ### Order of printed numbers -/

/-- Digit strings of one length are ordered like the numbers they begin or continue. -/
private theorem ofDigitChars_lt_iff {xs ys : CString} (hlen : xs.length = ys.length)
    (hx : ∀ c ∈ xs, c.isDigit = true) (hy : ∀ c ∈ ys, c.isDigit = true) (m n : Nat) :
    Nat.ofDigitChars 10 xs m < Nat.ofDigitChars 10 ys n ↔ m < n ∨ m = n ∧ strcmp xs ys < 0 := by
  induction xs generalizing ys m n with
  | nil =>
    obtain rfl : ys = [] := List.eq_nil_of_length_eq_zero hlen.symm
    simp [strcmp]
  | cons c xs ih =>
    obtain ⟨d, ys, rfl⟩ := List.exists_cons_of_length_eq_add_one hlen.symm
    obtain ⟨hc, hx⟩ := List.forall_mem_cons.mp hx
    obtain ⟨hd, hy⟩ := List.forall_mem_cons.mp hy
    have hdigit {x : Char} (h : x.isDigit = true) : 48 ≤ x.toNat ∧ x.toNat ≤ 57 := by
      simpa [Char.isDigit, UInt32.le_iff_toNat_le] using h
    have hc := hdigit hc
    have hd := hdigit hd
    have h0 : '0'.toNat = 48 := rfl
    rw [Nat.ofDigitChars_cons, Nat.ofDigitChars_cons, ih (Nat.succ.inj hlen) hx hy, strcmp, h0]
    by_cases hcd : c = d
    · subst hcd
      rw [if_pos rfl]
      omega
    · have hne : c.toNat ≠ d.toNat := fun he ↦ hcd (Char.toNat_inj.mp he)
      rw [if_neg hcd]
      omega

private theorem printD_of_nonneg_padded {width : Nat} {x : Int32} (hx : 0 ≤ x.toInt) :
    printD width x = List.replicate (width - (Nat.toDigits 10 x.toInt.natAbs).length) '0' ++
      Nat.toDigits 10 x.toInt.natAbs := by
  simp [printD, Int.not_lt.mpr hx]

/-- Numbers printed with one length are ordered as strings as they are as numbers. -/
theorem strcmp_printD_neg_iff {width : Nat} {x y : Int32} (hx : 0 ≤ x.toInt) (hy : 0 ≤ y.toInt)
    (hlen : (printD width x).length = (printD width y).length) :
    strcmp (printD width x) (printD width y) < 0 ↔ x.toInt < y.toInt := by
  have digits {z : Int32} (hz : 0 ≤ z.toInt) : ∀ c ∈ printD width z, c.isDigit = true := by
    intro c hc
    rw [printD_of_nonneg_padded hz] at hc
    rcases List.mem_append.mp hc with h | h
    · rw [List.eq_of_mem_replicate h]
      decide
    · exact Nat.isDigit_of_mem_toDigits (by decide) (by decide) h
  have value {z : Int32} (hz : 0 ≤ z.toInt) :
      Nat.ofDigitChars 10 (printD width z) 0 = z.toInt.natAbs := by
    rw [printD_of_nonneg_padded hz, value_padded]
  have hlt := ofDigitChars_lt_iff hlen (digits hx) (digits hy) 0 0
  rw [value hx, value hy] at hlt
  simp only [Nat.lt_irrefl, true_and, false_or] at hlt
  rw [← hlt]
  omega

/-- How long a number is that is not negative. -/
theorem length_printD {width : Nat} {x : Int32} (hx : 0 ≤ x.toInt) :
    (printD width x).length = max width (Nat.toDigits 10 x.toInt.natAbs).length := by
  rw [printD_of_nonneg_padded hx, List.length_append, List.length_replicate]
  omega

/-! ### Calls that can fail -/

/-- A chain of two calls succeeds if the first does and the second does on its result. -/
theorem bind_eq_ok {ε α β : Type} {x : Except ε α} {f : α → Except ε β} {b : β} :
    (x >>= f) = .ok b ↔ ∃ a, x = .ok a ∧ f a = .ok b := by
  cases x with
  | error e => simp [bind, Except.bind]
  | ok a => simp [bind, Except.bind]

end DupDistribute.Base

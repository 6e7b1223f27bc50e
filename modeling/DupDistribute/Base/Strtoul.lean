import DupDistribute.Base.CString

/-!
# Unsigned numbers in C strings

Library support, independent of any program. `strtoul` follows `stdlib/strtol_l.c` of the C
library, without grouping: white space and a sign are skipped, base zero takes the base from the
beginning of the number, and the digits are collected until one does not fit the base. What is
printed in base ten is read back.
-/

namespace DupDistribute.Base

/-- The largest `unsigned long`. -/
def ULONG_MAX : Nat := 18446744073709551615

/-- The value of a digit; letters go on after nine. -/
def digitValue (c : Char) : Option Nat :=
  if c.isDigit then some (c.toNat - 48)
  else if c.isAlpha then some (c.toUpper.toNat - 55)
  else none

/-- The loop over the digits: the value, whether it has overflown, and what is left. -/
def strtoulDigits (base : Nat) : CString → Nat → Bool → Nat × Bool × CString
  | [], i, overflow => (i, overflow, [])
  | c :: s, i, overflow =>
    match digitValue c with
    | none => (i, overflow, c :: s)
    | some d =>
      if base ≤ d then (i, overflow, c :: s)
      else if ULONG_MAX / base < i ∨ i = ULONG_MAX / base ∧ ULONG_MAX % base < d then
        strtoulDigits base s i true
      else strtoulDigits base s (i * base + d) overflow

/-- The base of a number, and where its digits begin. -/
def numberPrefix (base : Nat) : CString → Nat × CString
  | '0' :: x :: s =>
    if (base = 0 ∨ base = 16) ∧ x.toUpper = 'X' then (16, s)
    else (if base = 0 then 8 else base, '0' :: x :: s)
  | ['0'] => (if base = 0 then 8 else base, ['0'])
  | s => (if base = 0 then 10 else base, s)

/-- What `strtoul` returns, with `errno` and `endptr`. -/
structure Strtoul where
  value : Nat
  erange : Bool
  endptr : CString
  deriving DecidableEq

/-- The sign, and what comes behind it. -/
def signPart : CString → Bool × CString
  | '-' :: s => (true, s)
  | '+' :: s => (false, s)
  | s => (false, s)

/-- `strtoul(nptr, &endptr, base)` for a base that it knows. -/
def strtoul (nptr : CString) (base : Nat) : Strtoul :=
  let signed := signPart (nptr.dropWhile isSpace)
  let number := numberPrefix base signed.2
  let digits := strtoulDigits number.1 number.2 0 false
  if digits.2.2.length = number.2.length then
    -- No digit: of `0x` alone the zero is the number.
    ⟨0, false, if number.2.length < signed.2.length then signed.2.drop 1 else nptr⟩
  else if digits.2.1 then ⟨ULONG_MAX, true, digits.2.2⟩
  else ⟨if signed.1 then (ULONG_MAX + 1 - digits.1) % (ULONG_MAX + 1) else digits.1, false,
    digits.2.2⟩

/-! ### Printed numbers -/

/-- Nothing at the front of the text is taken for a digit. -/
def StopsDigits (s : CString) : Prop := ∀ c ∈ s.head?, digitValue c = none

theorem digitValue_of_isDigit {c : Char} (h : c.isDigit = true) :
    digitValue c = some (c.toNat - 48) := by
  simp only [digitValue, h, ↓reduceIte]

private theorem strtoulDigits_stop {base i : Nat} {overflow : Bool} {s : CString}
    (h : StopsDigits s) : strtoulDigits base s i overflow = (i, overflow, s) := by
  cases s with
  | nil => rfl
  | cons c s => simp only [strtoulDigits, h c (by simp)]

private theorem le_ofDigitChars (ds : CString) (i : Nat) : i ≤ Nat.ofDigitChars 10 ds i := by
  induction ds generalizing i with
  | nil => simp
  | cons c ds ih =>
    rw [Nat.ofDigitChars_cons]
    have hle := ih (10 * i + (c.toNat - '0'.toNat))
    omega

/-- Decimal digits are collected as long as their value fits. -/
private theorem strtoulDigits_decimal {ds rest : CString} (hd : ∀ c ∈ ds, c.isDigit = true)
    (hrest : StopsDigits rest) {i : Nat} (hfits : Nat.ofDigitChars 10 ds i ≤ ULONG_MAX) :
    strtoulDigits 10 (ds ++ rest) i false = (Nat.ofDigitChars 10 ds i, false, rest) := by
  induction ds generalizing i with
  | nil => exact strtoulDigits_stop hrest
  | cons c ds ih =>
    obtain ⟨hc, hds⟩ := List.forall_mem_cons.mp hd
    have hdigit : c.toNat - 48 ≤ 9 := by
      simp only [Char.isDigit, Bool.and_eq_true, decide_eq_true_eq, ge_iff_le,
        UInt32.le_iff_toNat_le] at hc
      have htop : c.toNat ≤ 57 := hc.2
      omega
    rw [Nat.ofDigitChars_cons] at hfits ⊢
    have hstep : 10 * i + (c.toNat - '0'.toNat) = i * 10 + (c.toNat - 48) := by
      rw [Nat.mul_comm]
      rfl
    have hle := le_ofDigitChars ds (10 * i + (c.toNat - '0'.toNat))
    rw [hstep] at hfits hle ⊢
    have hroom : ¬(ULONG_MAX / 10 < i ∨ i = ULONG_MAX / 10 ∧ ULONG_MAX % 10 < c.toNat - 48) := by
      rw [ULONG_MAX] at hfits ⊢
      omega
    rw [List.cons_append, strtoulDigits, digitValue_of_isDigit hc]
    simp only [show ¬10 ≤ c.toNat - 48 by omega, hroom, ↓reduceIte]
    exact ih hds hfits

/-- A printed number other than zero does not begin with a zero. -/
theorem toDigits_eq_cons {n : Nat} (h : 0 < n) :
    ∃ c ds, Nat.toDigits 10 n = c :: ds ∧ c ≠ '0' := by
  induction n using Nat.strongRecOn with
  | ind n ih =>
    rw [Nat.toDigits_eq_if (by decide)]
    split
    · next hlt =>
      refine ⟨n.digitChar, [], rfl, ?_⟩
      have hall : ∀ m < 10, 0 < m → m.digitChar ≠ '0' := by decide
      exact hall n hlt h
    · obtain ⟨c, ds, heq, hne⟩ := ih (n / 10) (by omega) (by omega)
      exact ⟨c, ds ++ [(n % 10).digitChar], by rw [heq, List.cons_append], hne⟩

/-- What is no digit of any base is no letter. -/
private theorem toUpper_ne_of_digitValue {x : Char} (h : digitValue x = none) :
    x.toUpper ≠ 'X' := by
  have halpha : x.isAlpha = false := by
    simp only [digitValue] at h
    split at h
    · cases h
    · split at h
      · cases h
      · next hx => simpa using hx
  obtain ⟨-, hlower⟩ : x.isUpper = false ∧ x.isLower = false := Bool.or_eq_false_iff.mp halpha
  have hsame : x.toUpper = x := by
    refine dif_neg (fun hrange ↦ ?_)
    have : x.isLower = true := Bool.and_eq_true_iff.mpr
      ⟨decide_eq_true hrange.1, decide_eq_true hrange.2⟩
    rw [hlower] at this
    cases this
  intro hup
  rw [hsame.symm.trans hup] at halpha
  exact absurd halpha (by decide)

private theorem numberPrefix_zero {rest : CString} (h : StopsDigits rest) :
    numberPrefix 0 ('0' :: rest) = (8, '0' :: rest) := by
  cases rest with
  | nil => rfl
  | cons x rest => simp [numberPrefix, toUpper_ne_of_digitValue (h x (by simp))]

private theorem numberPrefix_decimal {c : Char} {s : CString} (h : c ≠ '0') :
    numberPrefix 0 (c :: s) = (10, c :: s) := by
  rw [numberPrefix]
  · rfl
  · rintro x s heq
    exact h (List.cons.inj heq).1
  · rintro heq
    exact h (List.cons.inj heq).1

private theorem signPart_of_isDigit {c : Char} {s : CString} (h : c.isDigit = true) :
    signPart (c :: s) = (false, c :: s) := by
  rw [signPart]
  · rintro s' heq
    rw [(List.cons.inj heq).1] at h
    exact absurd h (by decide)
  · rintro s' heq
    rw [(List.cons.inj heq).1] at h
    exact absurd h (by decide)

/-- A number that is printed in base ten is read back, up to what follows it. -/
theorem strtoul_toDigits {n : Nat} {rest : CString} (hn : n ≤ ULONG_MAX)
    (hrest : StopsDigits rest) :
    strtoul (Nat.toDigits 10 n ++ rest) 0 = ⟨n, false, rest⟩ := by
  have hdigits (c : Char) (hc : c ∈ Nat.toDigits 10 n) : c.isDigit = true :=
    Nat.isDigit_of_mem_toDigits (by decide) (by decide) hc
  obtain ⟨c, ds, heq⟩ := List.exists_cons_of_ne_nil (Nat.toDigits_ne_nil (b := 10) (n := n))
  have hc : c.isDigit = true := hdigits c (by simp [heq])
  have hspace : (Nat.toDigits 10 n ++ rest).dropWhile isSpace = Nat.toDigits 10 n ++ rest := by
    rw [heq, List.cons_append, List.dropWhile_cons_of_neg (by simp [isSpace_of_isDigit hc])]
  have hsign : signPart (Nat.toDigits 10 n ++ rest) = (false, Nat.toDigits 10 n ++ rest) := by
    rw [heq, List.cons_append, signPart_of_isDigit hc]
  have hnumber : ∃ base, numberPrefix 0 (Nat.toDigits 10 n ++ rest) =
      (base, Nat.toDigits 10 n ++ rest) ∧
      strtoulDigits base (Nat.toDigits 10 n ++ rest) 0 false = (n, false, rest) := by
    rcases Nat.eq_zero_or_pos n with rfl | hpos
    · refine ⟨8, numberPrefix_zero hrest, ?_⟩
      change strtoulDigits 8 rest 0 false = _
      exact strtoulDigits_stop hrest
    · obtain ⟨c', ds', heq', hne⟩ := toDigits_eq_cons hpos
      have hvalue : Nat.ofDigitChars 10 (Nat.toDigits 10 n) 0 = n := Nat.ofDigitChars_ten_toDigits
      refine ⟨10, by rw [heq', List.cons_append, numberPrefix_decimal hne], ?_⟩
      rw [strtoulDigits_decimal hdigits hrest (by rwa [hvalue]), hvalue]
  obtain ⟨base, hbase, hloop⟩ := hnumber
  have hlen : rest.length ≠ (Nat.toDigits 10 n ++ rest).length := by
    rw [heq, List.cons_append, List.length_cons, List.length_append]
    omega
  simp only [strtoul, hspace, hsign, hbase, hloop, hlen, ↓reduceIte, Bool.false_eq_true]

end DupDistribute.Base

import DupDistribute.Base.Memory
import Mathlib.Logic.Function.Basic

/-!
# Hexadecimal conversion

`jinzhiConvert.c:3-74`: `lowtocap`, `AsciiToHex` and `HexToAscii` over blocks of bytes, a
`char` being a signed byte. The two blocks of a call do not overlap. `AsciiToHex` reads two
characters for each of the `len` bytes it stores; for an odd `len` every iteration stores the
digit of `src[len - 1]` at `len / 2` once more, whatever the iteration itself stored there. `len`
and the index `2 * i` are an `int` in the source: up to a `len` of 2 ^ 30 the indices of
`AsciiToHex` do not overflow, below it those of `HexToAscii`, and the model is of such calls.
-/

namespace DupDistribute.Convert

open DupDistribute.Base

/-- `lowtocap` (jinzhiConvert.c:4-9). -/
def lowtocap (c : Int8) : Int8 :=
  if 97 ≤ c ∧ c ≤ 122 then c - 32 else c

/-- The digit of one character as the loop of `AsciiToHex` takes it
(jinzhiConvert.c:28-35). -/
def digitOf (c : Int8) : Int :=
  let d := (lowtocap c).toInt - 48
  if d > 9 then (lowtocap c).toInt - 65 + 10 else d

/-- The store made for an odd `len` (jinzhiConvert.c:38-41): the first assignment does not
look at the case of the letter, the second one does. -/
def oddDigit (c : Int8) : UInt8 :=
  let d := UInt8.ofInt (c.toInt - 48)
  if d > 9 then UInt8.ofInt ((lowtocap c).toInt - 65 + 10) else d

/-- One iteration of `AsciiToHex` (jinzhiConvert.c:25-43). -/
def asciiToHexBody (src : Memory) (len : Nat) (dest : Memory) (i : Nat) : Memory :=
  let dh := digitOf (src (2 * i)).toInt8
  let dl := digitOf (src (2 * i + 1)).toInt8
  let dest := Function.update dest i (UInt8.ofInt (dh * 16 + dl))
  if len % 2 > 0 then
    Function.update dest (len / 2) (oddDigit (src (len - 1)).toInt8)
  else dest

/-- `AsciiToHex` (jinzhiConvert.c:12-45). -/
def asciiToHex (src dest : Memory) (len : Int) : Memory :=
  if len < 1 then dest
  else (List.range len.toNat).foldl (asciiToHexBody src len.toNat) dest

/-- The character of one digit as the loop of `HexToAscii` writes it
(jinzhiConvert.c:62-69). -/
def charOf (value : UInt8) : Int8 :=
  let d := 48 + value.toInt8
  if d > 57 then d - 57 - 1 + 65 else d

/-- One iteration of `HexToAscii` (jinzhiConvert.c:61-72). -/
def hexToAsciiBody (src : Memory) (dest : Memory) (i : Nat) : Memory :=
  let dest := Function.update dest (2 * i) (charOf (src i / 16)).toUInt8
  Function.update dest (2 * i + 1) (charOf (src i % 16)).toUInt8

/-- `HexToAscii` (jinzhiConvert.c:48-74). -/
def hexToAscii (src dest : Memory) (len : Int) : Memory :=
  if len < 1 then dest
  else
    let dest := (List.range len.toNat).foldl (hexToAsciiBody src) dest
    Function.update dest (2 * len.toNat) 0

/-! ### Hex digits -/

/-- A hex digit of either case. -/
def IsHexDigit (c : UInt8) : Prop :=
  48 ≤ c ∧ c ≤ 57 ∨ 65 ≤ c ∧ c ≤ 70 ∨ 97 ≤ c ∧ c ≤ 102

instance (c : UInt8) : Decidable (IsHexDigit c) :=
  inferInstanceAs (Decidable (_ ∨ _ ∨ _))

/-- The value of a hex digit, for reference. -/
def digit (c : UInt8) : Nat :=
  if c ≤ 57 then c.toNat - 48 else if c ≤ 70 then c.toNat - 55 else c.toNat - 87

/-- The character in upper case. -/
def toUpper (c : UInt8) : UInt8 :=
  if 97 ≤ c ∧ c ≤ 122 then c - 32 else c

private theorem digitOf_digit {c : UInt8} : IsHexDigit c → digitOf c.toInt8 = digit c := by
  revert c
  apply forall_byte
  decide +kernel

private theorem oddDigit_digit {c : UInt8} :
    IsHexDigit c → (oddDigit c.toInt8).toNat = digit c := by
  revert c
  apply forall_byte
  decide +kernel

private theorem digit_lt {c : UInt8} : IsHexDigit c → digit c < 16 := by
  revert c
  apply forall_byte
  decide +kernel

/-- What is written for a digit is the digit in upper case. -/
private theorem charOf_digit {c : UInt8} :
    IsHexDigit c → (charOf (UInt8.ofNat (digit c))).toUInt8 = toUpper c := by
  revert c
  apply forall_byte
  decide +kernel

private theorem charOf_high {b : UInt8} :
    IsHexDigit (charOf (b / 16)).toUInt8 ∧ digit (charOf (b / 16)).toUInt8 = b.toNat / 16 := by
  revert b
  apply forall_byte
  decide +kernel

private theorem charOf_low {b : UInt8} :
    IsHexDigit (charOf (b % 16)).toUInt8 ∧ digit (charOf (b % 16)).toUInt8 = b.toNat % 16 := by
  revert b
  apply forall_byte
  decide +kernel

private theorem toUpper_eq_zero_iff {c : UInt8} : IsHexDigit c → (toUpper c = 48 ↔ c = 48) := by
  revert c
  apply forall_byte
  decide +kernel

/-! ### The two loops -/

/-- What one iteration computes for the byte it is at. -/
def pairByte (src : Memory) (i : Nat) : UInt8 :=
  UInt8.ofInt (digitOf (src (2 * i)).toInt8 * 16 + digitOf (src (2 * i + 1)).toInt8)

private theorem toNat_pairByte {src : Memory} {i : Nat} (hh : IsHexDigit (src (2 * i)))
    (hl : IsHexDigit (src (2 * i + 1))) :
    (pairByte src i).toNat = 16 * digit (src (2 * i)) + digit (src (2 * i + 1)) := by
  have hlt := digit_lt hh
  have hlt' := digit_lt hl
  rw [pairByte, digitOf_digit hh, digitOf_digit hl, UInt8.ofInt, UInt8.toNat_ofNat']
  omega

/-- One more pair is stored. -/
private theorem update_pairByte {src dest now : Memory} {k j : Nat}
    (h : now j = if j < k then pairByte src j else dest j) :
    Function.update now k (pairByte src k) j = if j < k + 1 then pairByte src j else dest j := by
  rcases Nat.lt_trichotomy j k with hlt | rfl | hgt
  · rw [Function.update_of_ne (by omega), h, if_pos hlt, if_pos (by omega)]
  · rw [Function.update_self, if_pos (by omega)]
  · rw [Function.update_of_ne (by omega), h, if_neg (by omega), if_neg (by omega)]

/-- After `k` iterations the bytes before `k` hold their pairs, except that for an odd length
the byte at `len / 2` holds the odd digit from the first iteration on. -/
private theorem asciiToHex_loop (src dest : Memory) (len k j : Nat) :
    (List.range k).foldl (asciiToHexBody src len) dest j =
      if 0 < len % 2 ∧ 0 < k ∧ j = len / 2 then oddDigit (src (len - 1)).toInt8
      else if j < k then pairByte src j else dest j := by
  induction k with
  | zero => simp
  | succ k ih =>
    rw [List.range_succ, List.foldl_append, List.foldl_cons, List.foldl_nil, asciiToHexBody]
    by_cases hodd : len % 2 > 0
    · rw [if_pos hodd]
      by_cases hmid : j = len / 2
      · subst hmid
        rw [Function.update_self, if_pos ⟨hodd, by omega, rfl⟩]
      · rw [if_neg (fun h ↦ hmid h.2.2)] at ih
        rw [Function.update_of_ne hmid, if_neg (fun h ↦ hmid h.2.2)]
        exact update_pairByte ih
    · rw [if_neg (fun h ↦ hodd h.1)] at ih
      rw [if_neg hodd, if_neg (fun h ↦ hodd h.1)]
      exact update_pairByte ih

/-- The byte `AsciiToHex` leaves at an index below its length. -/
theorem asciiToHex_apply (src dest : Memory) {len j : Nat} (hj : j < len) :
    asciiToHex src dest len j =
      if 0 < len % 2 ∧ j = len / 2 then oddDigit (src (len - 1)).toInt8 else pairByte src j := by
  rw [asciiToHex, if_neg (by omega), Int.toNat_natCast, asciiToHex_loop, if_pos hj]
  have hk : 0 < len := by omega
  simp only [hk, true_and]

private theorem hexToAscii_loop (src dest : Memory) (k i : Nat) (hi : i < k) :
    (List.range k).foldl (hexToAsciiBody src) dest (2 * i) = (charOf (src i / 16)).toUInt8 ∧
      (List.range k).foldl (hexToAsciiBody src) dest (2 * i + 1) =
        (charOf (src i % 16)).toUInt8 := by
  induction k with
  | zero => omega
  | succ k ih =>
    rw [List.range_succ, List.foldl_append, List.foldl_cons, List.foldl_nil, hexToAsciiBody]
    rcases Nat.lt_or_eq_of_le (Nat.le_of_lt_succ hi) with hlt | rfl
    · obtain ⟨hhigh, hlow⟩ := ih hlt
      constructor
      · rw [Function.update_of_ne (by omega), Function.update_of_ne (by omega), hhigh]
      · rw [Function.update_of_ne (by omega), Function.update_of_ne (by omega), hlow]
    · constructor
      · rw [Function.update_of_ne (by omega), Function.update_self]
      · rw [Function.update_self]

/-- The two characters `HexToAscii` leaves for a byte. -/
theorem hexToAscii_apply (src dest : Memory) {len i : Nat} (hi : i < len) :
    hexToAscii src dest len (2 * i) = (charOf (src i / 16)).toUInt8 ∧
      hexToAscii src dest len (2 * i + 1) = (charOf (src i % 16)).toUInt8 := by
  obtain ⟨hhigh, hlow⟩ := hexToAscii_loop src dest len i hi
  rw [hexToAscii, if_neg (by omega), Int.toNat_natCast]
  constructor
  · rw [Function.update_of_ne (by omega), hhigh]
  · rw [Function.update_of_ne (by omega), hlow]

/-- The text `HexToAscii` writes is terminated. -/
theorem hexToAscii_end (src dest : Memory) {len : Nat} (h : 0 < len) :
    hexToAscii src dest len (2 * len) = 0 := by
  rw [hexToAscii, if_neg (by omega), Int.toNat_natCast, Function.update_self]

/-! ### Bytes to text and back -/

private theorem pairByte_hexToAscii (b s : Memory) {n i : Nat} (hi : i < n) :
    pairByte (hexToAscii b s n) i = b i := by
  obtain ⟨hhigh, hlow⟩ := hexToAscii_apply b s hi
  obtain ⟨hdh, hvh⟩ := charOf_high (b := b i)
  obtain ⟨hdl, hvl⟩ := charOf_low (b := b i)
  apply UInt8.toNat_inj.mp
  rw [toNat_pairByte (by rwa [hhigh]) (by rwa [hlow]), hhigh, hlow, hvh, hvl]
  omega

private theorem oddDigit_hexToAscii (b s : Memory) {n : Nat} (hodd : 0 < n % 2) :
    (oddDigit (hexToAscii b s n (n - 1)).toInt8).toNat = (b (n / 2)).toNat / 16 := by
  have hmid : n / 2 < n := by omega
  obtain ⟨hhigh, -⟩ := hexToAscii_apply b s hmid
  obtain ⟨hd, hv⟩ := charOf_high (b := b (n / 2))
  have hidx : n - 1 = 2 * (n / 2) := by omega
  rw [hidx, hhigh, oddDigit_digit hd, hv]

/-- A byte array comes back from its text exactly if no odd digit spoils it. -/
theorem bytes_return_iff (b s d : Memory) {n : Nat} (hn : 0 < n) :
    (∀ i < n, asciiToHex (hexToAscii b s n) d n i = b i) ↔ n % 2 = 0 ∨ b (n / 2) = 0 := by
  constructor
  · intro h
    by_cases hodd : 0 < n % 2
    · right
      have hmid := h (n / 2) (by omega)
      rw [asciiToHex_apply _ _ (by omega), if_pos ⟨hodd, rfl⟩] at hmid
      have hval := oddDigit_hexToAscii b s hodd
      rw [hmid] at hval
      apply UInt8.toNat_inj.mp
      rw [UInt8.toNat_zero]
      omega
    · left
      omega
  · intro h i hi
    rw [asciiToHex_apply _ _ hi]
    by_cases hmid : 0 < n % 2 ∧ i = n / 2
    · obtain ⟨hodd, rfl⟩ := hmid
      have hzero : b (n / 2) = 0 := h.resolve_left (by omega)
      rw [if_pos ⟨hodd, rfl⟩]
      apply UInt8.toNat_inj.mp
      rw [oddDigit_hexToAscii b s hodd, hzero]
      rfl
    · rw [if_neg hmid, pairByte_hexToAscii b s hi]

private theorem nibbles_of_toNat {r : UInt8} {h l : Nat} (hh : h < 16) (hl : l < 16)
    (hr : r.toNat = 16 * h + l) : r / 16 = UInt8.ofNat h ∧ r % 16 = UInt8.ofNat l := by
  constructor
  · apply UInt8.toNat_inj.mp
    rw [UInt8.toNat_div, UInt8.toNat_ofNat', hr]
    have h16 : (16 : UInt8).toNat = 16 := rfl
    rw [h16]
    omega
  · apply UInt8.toNat_inj.mp
    rw [UInt8.toNat_mod, UInt8.toNat_ofNat', hr]
    have h16 : (16 : UInt8).toNat = 16 := rfl
    rw [h16]
    omega

/-- Away from the odd digit a pair of digits comes back in upper case. -/
private theorem pair_returns {s d t : Memory} {n i : Nat} (hi : i < n)
    (hs : ∀ i < 2 * n, IsHexDigit (s i)) (hmid : ¬(0 < n % 2 ∧ i = n / 2)) :
    hexToAscii (asciiToHex s d n) t n (2 * i) = toUpper (s (2 * i)) ∧
      hexToAscii (asciiToHex s d n) t n (2 * i + 1) = toUpper (s (2 * i + 1)) := by
  have hh := hs (2 * i) (by omega)
  have hl := hs (2 * i + 1) (by omega)
  obtain ⟨hhigh, hlow⟩ := hexToAscii_apply (asciiToHex s d n) t hi
  have hbyte : asciiToHex s d n i = pairByte s i := by
    rw [asciiToHex_apply _ _ hi, if_neg hmid]
  obtain ⟨hdiv, hmod⟩ := nibbles_of_toNat (digit_lt hh) (digit_lt hl) (toNat_pairByte hh hl)
  rw [hhigh, hlow, hbyte, hdiv, hmod, charOf_digit hh, charOf_digit hl]
  exact ⟨rfl, rfl⟩

/-- The middle pair of an odd length comes back as a zero and its first digit. -/
private theorem middle_returns {s d t : Memory} {n : Nat} (hodd : 0 < n % 2)
    (hs : ∀ i < 2 * n, IsHexDigit (s i)) :
    hexToAscii (asciiToHex s d n) t n (n - 1) = 48 ∧
      hexToAscii (asciiToHex s d n) t n n = toUpper (s (n - 1)) := by
  have hc := hs (n - 1) (by omega)
  have hmid : n / 2 < n := by omega
  obtain ⟨hhigh, hlow⟩ := hexToAscii_apply (asciiToHex s d n) t hmid
  have hbyte : (asciiToHex s d n (n / 2)).toNat = 16 * 0 + digit (s (n - 1)) := by
    rw [asciiToHex_apply _ _ hmid, if_pos ⟨hodd, rfl⟩, oddDigit_digit hc]
    omega
  obtain ⟨hdiv, hmod⟩ := nibbles_of_toNat (by omega) (digit_lt hc) hbyte
  have hhi : 2 * (n / 2) = n - 1 := by omega
  have hlo : n - 1 + 1 = n := by omega
  rw [hhi] at hhigh
  rw [hhi, hlo] at hlow
  rw [hhigh, hlow, hdiv, hmod, charOf_digit hc]
  exact ⟨by decide, rfl⟩

/-- A text of hex digits comes back in upper case exactly if no odd digit spoils it. -/
theorem text_returns_iff (s d t : Memory) {n : Nat} (hs : ∀ i < 2 * n, IsHexDigit (s i)) :
    (∀ i < 2 * n, hexToAscii (asciiToHex s d n) t n i = toUpper (s i)) ↔
      n % 2 = 0 ∨ (s (n - 1) = 48 ∧ s n = 48) := by
  constructor
  · intro h
    by_cases hodd : 0 < n % 2
    · right
      obtain ⟨hhigh, hlow⟩ := middle_returns (d := d) (t := t) hodd hs
      rw [h (n - 1) (by omega)] at hhigh
      rw [h n (by omega)] at hlow
      have hfirst := (toUpper_eq_zero_iff (hs (n - 1) (by omega))).mp hhigh
      refine ⟨hfirst, (toUpper_eq_zero_iff (hs n (by omega))).mp ?_⟩
      rw [hlow, hfirst]
      decide
    · left
      omega
  · intro h i hi
    by_cases hmid : 0 < n % 2 ∧ i / 2 = n / 2
    · obtain ⟨hodd, hi2⟩ := hmid
      obtain ⟨hfirst, hsecond⟩ := h.resolve_left (by omega)
      obtain ⟨hhigh, hlow⟩ := middle_returns (d := d) (t := t) hodd hs
      have hcase : i = n - 1 ∨ i = n := by omega
      rcases hcase with rfl | rfl
      · rw [hhigh, hfirst]
        decide
      · rw [hlow, hfirst, hsecond]
    · obtain ⟨hhigh, hlow⟩ := pair_returns (d := d) (t := t) (i := i / 2) (by omega) hs hmid
      rcases Nat.mod_two_eq_zero_or_one i with heven | hodd
      · have hj : 2 * (i / 2) = i := by omega
        rwa [hj] at hhigh
      · have hj : 2 * (i / 2) + 1 = i := by omega
        rwa [hj] at hlow

/-- Encoding and decoding with a length in bytes: bytes come back from their text, and a text
of hex digits comes back in upper case and terminated, exactly if the length is even or the
byte in the middle, which the odd digit overwrites, is zero. -/
theorem hex_round_trip_iff (n : Nat) (hn : 0 < n) :
    (∀ b s d : Memory, (∀ i < n, asciiToHex (hexToAscii b s n) d n i = b i) ↔
      n % 2 = 0 ∨ b (n / 2) = 0) ∧
    (∀ s d t : Memory, (∀ i < 2 * n, IsHexDigit (s i)) →
      (((∀ i < 2 * n, hexToAscii (asciiToHex s d n) t n i = toUpper (s i)) ∧
          hexToAscii (asciiToHex s d n) t n (2 * n) = 0) ↔
        n % 2 = 0 ∨ (s (n - 1) = 48 ∧ s n = 48))) := by
  constructor
  · intro b s d
    exact bytes_return_iff b s d hn
  · intro s d t hs
    rw [text_returns_iff s d t hs, and_iff_left (hexToAscii_end _ t hn)]

/-- Two bytes of any value and a text of four digits come back. -/
theorem hex_round_trip_two :
    (∀ i < 2, asciiToHex (hexToAscii (fun i ↦ [0x9f, 0x3c].getD i 0) (fun _ ↦ 7) 2)
      (fun _ ↦ 7) 2 i = [0x9f, 0x3c].getD i 0) ∧
    (∀ i < 4, hexToAscii (asciiToHex (fun _ ↦ 97) (fun _ ↦ 7) 2) (fun _ ↦ 7) 2 i = 65) := by
  obtain ⟨hbytes, htext⟩ := hex_round_trip_iff 2 (by decide)
  constructor
  · exact (hbytes (fun i ↦ [0x9f, 0x3c].getD i 0) _ _).mpr (Or.inl rfl)
  · exact ((htext (fun _ ↦ 97) (fun _ ↦ 7) (fun _ ↦ 7) (fun _ _ ↦ by decide)).mpr
      (Or.inl rfl)).1

/-- One byte does not come back: `0x12` is written as `12` and read as `0x01`, and the text
`12` comes back as `01`. -/
theorem one_byte_is_lost :
    asciiToHex (hexToAscii (fun _ ↦ 0x12) (fun _ ↦ 0) 1) (fun _ ↦ 0) 1 0 = 0x01 ∧
    (List.range 3).map (hexToAscii (asciiToHex (fun i ↦ [49, 50].getD i 0) (fun _ ↦ 0) 1)
      (fun _ ↦ 0) 1) = [48, 49, 0] := by
  decide +kernel

/-! ### Length in characters -/

/-- Called with the number of characters, as the sample `main` does (jinzhiConvert.c:93-118),
the loop runs over twice the text. The bytes that the text denotes are left alone by the
stores beyond it, and for an odd number the last one is the odd digit. -/
theorem asciiToHex_decodes (s d : Memory) (L : Nat) (hL : 0 < L)
    (hs : ∀ i < L, IsHexDigit (s i)) :
    (∀ j < L / 2, (asciiToHex s d L j).toNat = 16 * digit (s (2 * j)) + digit (s (2 * j + 1))) ∧
    (L % 2 = 1 → (asciiToHex s d L (L / 2)).toNat = digit (s (L - 1))) ∧
    (∀ s' d' : Memory, (∀ i < L, s' i = s i) →
      ∀ j < (L + 1) / 2, asciiToHex s' d' L j = asciiToHex s d L j) := by
  refine ⟨?_, ?_, ?_⟩
  · intro j hj
    rw [asciiToHex_apply _ _ (by omega), if_neg (by omega),
      toNat_pairByte (hs _ (by omega)) (hs _ (by omega))]
  · intro hodd
    rw [asciiToHex_apply _ _ (by omega), if_pos ⟨by omega, rfl⟩,
      oddDigit_digit (hs _ (by omega))]
  · intro s' d' heq j hj
    rw [asciiToHex_apply _ _ (by omega), asciiToHex_apply _ _ (by omega), heq _ (by omega)]
    by_cases hmid : 0 < L % 2 ∧ j = L / 2
    · rw [if_pos hmid, if_pos hmid]
    · rw [if_neg hmid, if_neg hmid, pairByte, pairByte, heq _ (by omega), heq _ (by omega)]

/-- The text `AbC` with bytes `0xff` behind it is `0xab` and `0x0c`. -/
theorem asciiToHex_decodes_three :
    (asciiToHex (fun i ↦ [65, 98, 67].getD i 255) (fun _ ↦ 0) 3 0).toNat = 0xab ∧
      (asciiToHex (fun i ↦ [65, 98, 67].getD i 255) (fun _ ↦ 0) 3 1).toNat = 0xc := by
  obtain ⟨hpairs, hlast, -⟩ := asciiToHex_decodes (fun i ↦ [65, 98, 67].getD i 255) (fun _ ↦ 0) 3
    (by decide) (by decide)
  exact ⟨hpairs 0 (by decide), hlast rfl⟩

end DupDistribute.Convert

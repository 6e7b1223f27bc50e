import Mathlib.Data.List.Basic

/-!
# Byte memory and bounded copies

Library support, independent of any program. A memory block is a total byte function;
its capacity belongs to the declaration of the block, so a copy reports the capacity
of its destination and the length it writes, and `Copy.InBounds` compares the two.
Words are read in little-endian order.
-/

namespace DupDistribute.Base

/-- Contents of a memory block, by byte index. -/
abbrev Memory := Nat → UInt8

/-- One block write: the capacity of the destination and the number of bytes written. -/
structure Copy where
  capacity : Nat
  length : Nat
  deriving DecidableEq, Repr

/-- Every written index lies inside the destination. -/
def Copy.InBounds (c : Copy) : Prop := ∀ i < c.length, i < c.capacity

/-- A copy is in bounds exactly when it is no longer than its destination. -/
theorem Copy.inBounds_iff (c : Copy) : c.InBounds ↔ c.length ≤ c.capacity := by
  constructor
  · intro h
    by_contra hlt
    exact Nat.lt_irrefl c.capacity (h c.capacity (by omega))
  · intro h i hi
    omega

instance (c : Copy) : Decidable c.InBounds := decidable_of_iff _ c.inBounds_iff.symm

/-- A decidable property of bytes is checked at the 256 values. -/
theorem forall_byte {P : UInt8 → Prop} (h : ∀ n : Fin 256, P (UInt8.ofFin n)) (c : UInt8) : P c :=
  h c.toFin

namespace Memory

/-- `memset` to zero of the first `n` bytes. -/
def memset (m : Memory) (n : Nat) : Memory := fun i ↦ if i < n then 0 else m i

/-- `memcpy` of the first `n` bytes of `src`. -/
def memcpy (dst src : Memory) (n : Nat) : Memory := fun i ↦ if i < n then src i else dst i

/-- Bytes stored from index zero on, as a receive into the block stores them. -/
def store (m : Memory) (bytes : List UInt8) : Memory := fun i ↦ bytes[i]?.getD (m i)

/-- The first `n` bytes as a list. -/
def read (m : Memory) (n : Nat) : List UInt8 := (List.range n).map m

/-- Little-endian 32-bit word at a byte offset. -/
def word32 (m : Memory) (offset : Nat) : UInt32 :=
  UInt32.ofNat ((m offset).toNat + 256 * (m (offset + 1)).toNat +
    65536 * (m (offset + 2)).toNat + 16777216 * (m (offset + 3)).toNat)

/-- Two blocks that agree on the first `n` bytes read alike there. -/
theorem read_congr {m m' : Memory} {n : Nat} (h : ∀ i < n, m i = m' i) :
    m.read n = m'.read n := by
  apply List.map_congr_left
  intro i hi
  exact h i (List.mem_range.mp hi)

/-- Reading back what was stored. -/
theorem read_store (m : Memory) (bytes : List UInt8) :
    (m.store bytes).read bytes.length = bytes := by
  apply List.ext_getElem
  · simp [read]
  · intro i hi _
    have hi : i < bytes.length := by simpa [read] using hi
    simp [read, store, hi]

/-- A store into a zeroed block leaves the zero-padded bytes there. -/
theorem store_memset (m : Memory) (bytes : List UInt8) {n i : Nat} (hi : i < n) :
    (m.memset n).store bytes i = bytes.getD i 0 := by
  simp [store, memset, hi, List.getD_eq_getElem?_getD]

private theorem word_eq_iff (a b c d a' b' c' d' : Nat) (ha : a < 256) (hb : b < 256)
    (hc : c < 256) (ha' : a' < 256) (hb' : b' < 256) (hc' : c' < 256) :
    a + 256 * b + 65536 * c + 16777216 * d = a' + 256 * b' + 65536 * c' + 16777216 * d' ↔
      a = a' ∧ b = b' ∧ c = c' ∧ d = d' := by
  constructor
  · intro h
    refine ⟨?_, ?_, ?_, ?_⟩ <;> omega
  · rintro ⟨rfl, rfl, rfl, rfl⟩
    rfl

/-- A word with four equal bytes is recognised by those bytes, in either byte order. -/
theorem word32_eq_iff (m : Memory) (offset : Nat) (b : UInt8) :
    m.word32 offset = UInt32.ofNat (16843009 * b.toNat) ↔
      m offset = b ∧ m (offset + 1) = b ∧ m (offset + 2) = b ∧ m (offset + 3) = b := by
  have hlt (x : UInt8) : x.toNat < 256 := x.toNat_lt
  have hw := word_eq_iff _ _ _ (m (offset + 3)).toNat _ _ _ b.toNat (hlt (m offset))
    (hlt (m (offset + 1))) (hlt (m (offset + 2))) (hlt b) (hlt b) (hlt b)
  simp only [UInt8.toNat_inj] at hw
  rw [← hw, word32, ← UInt32.toNat_inj, UInt32.toNat_ofNat', UInt32.toNat_ofNat']
  have h0 := hlt (m offset)
  have h1 := hlt (m (offset + 1))
  have h2 := hlt (m (offset + 2))
  have h3 := hlt (m (offset + 3))
  have hb := hlt b
  rw [Nat.mod_eq_of_lt (by omega), Nat.mod_eq_of_lt (by omega)]
  constructor <;> intro h <;> omega

end Memory
end DupDistribute.Base

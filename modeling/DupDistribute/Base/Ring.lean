import Mathlib.Data.List.Basic
import Mathlib.Data.Nat.ModEq
import Mathlib.Logic.Function.Basic

/-!
# Ring buffers

Library support, independent of any program. A ring of capacity `n` keeps `size` elements in
the slots from `front` on, counted modulo `n`. Its contents are a list: writing the slot after
the last element appends to it, moving `front` drops its head, and nothing else changes it.
-/

namespace DupDistribute.Base

variable {α : Type} {slots : Nat → α} {n front size : Nat}

/-- The elements of a ring, from its front. -/
def ringContents (slots : Nat → α) (n front size : Nat) : List α :=
  (List.range size).map (fun i ↦ slots ((front + i) % n))

/-- The rear of a ring whose front is a slot is `size` slots further. -/
def ringRear (n front size : Nat) : Nat := (front + size) % n

private theorem slot_ne_rear {i : Nat} (hi : i < size) (hs : size < n) :
    (front + i) % n ≠ ringRear n front size := by
  intro h
  have hmod : Nat.ModEq n i size := Nat.ModEq.add_left_cancel' front h
  rw [Nat.ModEq, Nat.mod_eq_of_lt (by omega), Nat.mod_eq_of_lt hs] at hmod
  omega

/-- Writing at the rear of a ring that is not full overwrites no element. -/
theorem ringContents_update_rear (x : α) (hs : size < n) :
    ringContents (Function.update slots (ringRear n front size) x) n front size =
      ringContents slots n front size := by
  apply List.map_congr_left
  intro i hi
  rw [Function.update_of_ne (slot_ne_rear (List.mem_range.mp hi) hs)]

/-- It appends to the contents. -/
theorem ringContents_push (x : α) (hs : size < n) :
    ringContents (Function.update slots (ringRear n front size) x) n front (size + 1) =
      ringContents slots n front size ++ [x] := by
  rw [← ringContents_update_rear x hs]
  simp only [ringContents, List.range_succ, List.map_append, List.map_cons, List.map_nil]
  rw [← ringRear, Function.update_self]

/-- The rear moves on by one slot. -/
theorem ringRear_push : (ringRear n front size + 1) % n = ringRear n front (size + 1) := by
  rw [ringRear, ringRear, Nat.mod_add_mod, Nat.add_assoc]

/-- Moving the front of a ring that is not empty drops the element there. -/
theorem ringContents_pop (hf : front < n) :
    ringContents slots n front (size + 1) =
      slots front :: ringContents slots n ((front + 1) % n) size := by
  simp only [ringContents, List.range_succ_eq_map, List.map_cons, List.map_map, Nat.add_zero,
    Nat.mod_eq_of_lt hf]
  congr 1
  apply List.map_congr_left
  intro i _
  simp only [Function.comp_apply, Nat.mod_add_mod, Nat.succ_eq_add_one]
  congr 2
  omega

/-- The rear stays where it is. -/
theorem ringRear_pop : ringRear n ((front + 1) % n) size = ringRear n front (size + 1) := by
  rw [ringRear, ringRear, Nat.mod_add_mod, Nat.add_assoc, Nat.add_comm 1 size]

end DupDistribute.Base

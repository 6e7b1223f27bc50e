import Mathlib.Algebra.BigOperators.Group.Finset.Piecewise
import Mathlib.Data.Finset.Card

/-!
# Sums and counts over the members of a family

Library support, independent of any program. A family gives each number below `n` a value;
when one member changes, a sum over the members changes by that member's share, and so does
the number of members with some property.
-/

namespace DupDistribute.Base

variable {β : Type} {n m : Nat}

/-- The sum after one member has changed. -/
theorem sum_update (f : β → Nat) (hm : m < n) (w : Nat → β) (x : β) :
    ∑ j ∈ Finset.range n, f (Function.update w m x j) + f (w m) =
      ∑ j ∈ Finset.range n, f (w j) + f x := by
  have hmem : m ∈ Finset.range n := Finset.mem_range.mpr hm
  rw [← Finset.add_sum_erase _ _ hmem, ← Finset.add_sum_erase _ _ hmem, Function.update_self]
  have hrest : ∑ j ∈ (Finset.range n).erase m, f (Function.update w m x j) =
      ∑ j ∈ (Finset.range n).erase m, f (w j) := by
    apply Finset.sum_congr rfl
    intro j hj
    rw [Function.update_of_ne (Finset.ne_of_mem_erase hj)]
  omega

/-- How many of the first `n` members have property `p`. -/
def countMembers (p : β → Bool) (w : Nat → β) (n : Nat) : Nat :=
  ((Finset.range n).filter (fun j ↦ p (w j) = true)).card

/-- Only the property of the members matters. -/
theorem countMembers_congr {p : β → Bool} {w w' : Nat → β} (h : ∀ j, p (w' j) = p (w j)) :
    countMembers p w' n = countMembers p w n := by
  simp only [countMembers, h]

/-- The count after a member has lost the property. -/
theorem countMembers_lose {p : β → Bool} {w : Nat → β} {x : β} (hm : m < n)
    (hp : p (w m) = true) (hx : p x = false) :
    countMembers p (Function.update w m x) n + 1 = countMembers p w n := by
  have hsum := sum_update (fun y ↦ if p y = true then 1 else 0) hm w x
  simp only [hp, hx, ↓reduceIte, Bool.false_eq_true, Nat.add_zero] at hsum
  rw [countMembers, countMembers, Finset.card_filter, Finset.card_filter]
  exact hsum

/-- The count with a new member that has the property. -/
theorem countMembers_succ {p : β → Bool} {w : Nat → β} {x : β} (hx : p x = true) :
    countMembers p (Function.update w n x) (n + 1) = countMembers p w n + 1 := by
  rw [countMembers, countMembers, Finset.card_filter, Finset.card_filter,
    Finset.sum_range_succ, Function.update_self, if_pos hx]
  congr 1
  apply Finset.sum_congr rfl
  intro j hj
  rw [Function.update_of_ne (by have := Finset.mem_range.mp hj; omega)]

/-- The count after one member has changed. -/
theorem countMembers_update (p : β → Bool) (hm : m < n) (w : Nat → β) (x : β) :
    countMembers p (Function.update w m x) n + (p (w m)).toNat =
      countMembers p w n + (p x).toNat := by
  have hsum := sum_update (fun y ↦ (p y).toNat) hm w x
  have hcard (w : Nat → β) :
      countMembers p w n = ∑ j ∈ Finset.range n, (p (w j)).toNat := by
    rw [countMembers, Finset.card_filter]
    apply Finset.sum_congr rfl
    intro j _
    cases p (w j) <;> rfl
  rw [hcard, hcard]
  exact hsum

/-- The count with one more member. -/
theorem countMembers_add_one (p : β → Bool) (w : Nat → β) (n : Nat) :
    countMembers p w (n + 1) = countMembers p w n + (p (w n)).toNat := by
  rw [countMembers, countMembers, Finset.card_filter, Finset.card_filter, Finset.sum_range_succ]
  cases p (w n) <;> rfl

/-- The count with a new member. -/
theorem countMembers_push (p : β → Bool) (w : Nat → β) (n : Nat) (x : β) :
    countMembers p (Function.update w n x) (n + 1) = countMembers p w n + (p x).toNat := by
  rw [countMembers_add_one, Function.update_self, Nat.add_right_cancel_iff, countMembers,
    countMembers]
  congr 1
  apply Finset.filter_congr
  intro j hj
  rw [Function.update_of_ne (Nat.ne_of_lt (Finset.mem_range.mp hj))]

/-- A positive count has a member behind it. -/
theorem exists_of_countMembers_pos {p : β → Bool} {w : Nat → β}
    (h : 0 < countMembers p w n) : ∃ j, j < n ∧ p (w j) = true := by
  obtain ⟨j, hj⟩ := Finset.card_pos.mp h
  rw [Finset.mem_filter, Finset.mem_range] at hj
  exact ⟨j, hj⟩

/-- A member with the property is counted. -/
theorem countMembers_pos {p : β → Bool} {w : Nat → β} (hm : m < n) (hp : p (w m) = true) :
    0 < countMembers p w n :=
  Finset.card_pos.mpr ⟨m, Finset.mem_filter.mpr ⟨Finset.mem_range.mpr hm, hp⟩⟩

/-! ### What the members hold -/

variable {γ : Type}

/-- What the first `n` members hold, in their order. -/
def held (f : β → Option γ) (w : Nat → β) (n : Nat) : List γ :=
  (List.range n).filterMap (fun j ↦ f (w j))

theorem mem_held {f : β → Option γ} {w : Nat → β} {x : γ} :
    x ∈ held f w n ↔ ∃ j, j < n ∧ f (w j) = some x := by
  simp [held]

/-- Only what each member holds matters. -/
theorem held_congr {f : β → Option γ} {w w' : Nat → β} (h : ∀ j < n, f (w' j) = f (w j)) :
    held f w' n = held f w n :=
  List.filterMap_congr fun j hj ↦ h j (List.mem_range.mp hj)

/-- One more member. -/
theorem held_succ (f : β → Option γ) (w : Nat → β) (n : Nat) :
    held f w (n + 1) = held f w n ++ (f (w n)).toList := by
  rw [held, List.range_succ, List.filterMap_append]
  cases h : f (w n) <;> simp [held, h]

/-- What is held after one member has changed: its old share goes, its new one comes. -/
theorem held_update (f : β → Option γ) (hm : m < n) (w : Nat → β) (x : β) :
    (held f (Function.update w m x) n ++ (f (w m)).toList).Perm
      (held f w n ++ (f x).toList) := by
  induction n with
  | zero => exact absurd hm (Nat.not_lt_zero _)
  | succ n ih =>
    rw [held_succ, held_succ]
    rcases Nat.lt_succ_iff_lt_or_eq.mp hm with hlt | rfl
    · rw [Function.update_of_ne (Nat.ne_of_gt hlt)]
      -- Both sides end with the share of the last member, behind that of the changed one.
      have hswap (l a b : List γ) : (l ++ a ++ b).Perm (l ++ b ++ a) := by
        rw [List.append_assoc, List.append_assoc]
        exact List.perm_append_comm.append_left l
      exact (hswap _ _ _).trans (((ih hlt).append_right _).trans (hswap _ _ _))
    · have hsame : held f (Function.update w m x) m = held f w m :=
        held_congr fun j hj ↦ by rw [Function.update_of_ne (Nat.ne_of_lt hj)]
      rw [hsame, Function.update_self, List.append_assoc, List.append_assoc]
      exact List.perm_append_comm.append_left _

end DupDistribute.Base

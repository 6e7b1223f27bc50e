import Mathlib.Algebra.Order.Group.Multiset

/-!
# Resources held over a sequence of operations

Library support, independent of any program. A program acquires and releases resources; what
it holds is a multiset, since one resource may be acquired twice. `Turns` is a triple with
its frame: whatever else is held, the operations turn `pre` into `post`. Triples compose
along a trace, so a run is balanced when each of its steps accounts for what it keeps.
-/

namespace DupDistribute.Base

/-- One use of a resource. -/
inductive LedgerOp (α : Type) where
  | acquire (a : α)
  | release (a : α)
  deriving DecidableEq

variable {α : Type} [DecidableEq α]

/-- What is held after an operation. -/
def LedgerOp.apply (held : Multiset α) : LedgerOp α → Multiset α
  | .acquire a => held + {a}
  | .release a => held.erase a

/-- What is held after all of the operations, in this order. -/
def heldAfter (held : Multiset α) (ops : List (LedgerOp α)) : Multiset α :=
  ops.foldl LedgerOp.apply held

/-- Operations follow each other. -/
theorem heldAfter_append (held : Multiset α) (ops ops' : List (LedgerOp α)) :
    heldAfter held (ops ++ ops') = heldAfter (heldAfter held ops) ops' :=
  List.foldl_append

/-- Whatever else is held, the operations turn `pre` into `post`. -/
def Turns (ops : List (LedgerOp α)) (pre post : Multiset α) : Prop :=
  ∀ frame, heldAfter (frame + pre) ops = frame + post

variable {ops ops' : List (LedgerOp α)} {pre mid post : Multiset α}

/-- Nothing happens without an operation. -/
theorem Turns.refl (pre : Multiset α) : Turns [] pre pre := fun _ ↦ rfl

/-- A resource is acquired. -/
theorem Turns.acquire (a : α) : Turns [.acquire a] 0 {a} := by
  intro frame
  rw [add_zero]
  rfl

/-- A resource that is held is released. -/
theorem Turns.release (a : α) : Turns [.release a] {a} 0 := by
  intro frame
  show (frame + {a}).erase a = frame + 0
  rw [add_zero, Multiset.erase_add_right_pos _ (Multiset.mem_singleton_self a),
    Multiset.erase_singleton, add_zero]

/-- Resources that the operations do not need stay. -/
theorem Turns.frame (extra : Multiset α) (h : Turns ops pre post) :
    Turns ops (extra + pre) (extra + post) := by
  intro frame
  rw [← add_assoc, h, add_assoc]

/-- Triples compose. -/
theorem Turns.append (h : Turns ops pre mid) (h' : Turns ops' mid post) :
    Turns (ops ++ ops') pre post := by
  intro frame
  rw [heldAfter_append, h, h']

/-- Operations from nothing add what they end with. -/
theorem Turns.heldAfter_eq (h : Turns ops 0 post) (held : Multiset α) :
    heldAfter held ops = held + post := by
  have := h held
  rwa [add_zero] at this

/-- One after the other, operations from nothing add what each of them ends with. -/
theorem Turns.add {post' : Multiset α} (h : Turns ops 0 post) (h' : Turns ops' 0 post') :
    Turns (ops ++ ops') 0 (post + post') := by
  have hframed := h'.frame post
  rw [add_zero] at hframed
  exact h.append hframed

/-- A resource that is acquired and released at once. -/
theorem Turns.brief (a : α) : Turns [.acquire a, .release a] 0 0 :=
  (Turns.acquire a).append (Turns.release a)

/-! ### Releases of what is held only -/

/-- What is held after the operations, if each of them releases only what is held. -/
def settle (held : Multiset α) : List (LedgerOp α) → Option (Multiset α)
  | [] => some held
  | .acquire a :: ops => settle (held + {a}) ops
  | .release a :: ops => if a ∈ held then settle (held.erase a) ops else none

/-- Operations follow each other. -/
theorem settle_append (held : Multiset α) (ops ops' : List (LedgerOp α)) :
    settle held (ops ++ ops') = (settle held ops).bind (fun held' ↦ settle held' ops') := by
  induction ops generalizing held with
  | nil => rfl
  | cons op ops ih =>
    cases op with
    | acquire a => exact ih _
    | release a =>
      simp only [List.cons_append, settle]
      split
      · exact ih _
      · rfl

/-- Whatever else is held, the operations turn `pre` into `post` and release nothing twice. -/
def Settles (ops : List (LedgerOp α)) (pre post : Multiset α) : Prop :=
  ∀ frame, settle (frame + pre) ops = some (frame + post)

/-- Nothing happens without an operation. -/
theorem Settles.refl (pre : Multiset α) : Settles [] pre pre := fun _ ↦ rfl

/-- Resources that the operations do not need stay. -/
theorem Settles.frame (extra : Multiset α) (h : Settles ops pre post) :
    Settles ops (extra + pre) (extra + post) := by
  intro frame
  rw [← add_assoc, h, add_assoc]

/-- Triples compose. -/
theorem Settles.append (h : Settles ops pre mid) (h' : Settles ops' mid post) :
    Settles (ops ++ ops') pre post := by
  intro frame
  rw [settle_append, h, Option.bind_some, h']

/-- All of some resources are acquired. -/
theorem Settles.acquire (xs : List α) : Settles (xs.map .acquire) 0 (xs : Multiset α) := by
  induction xs with
  | nil => exact .refl 0
  | cons x xs ih =>
    intro frame
    have := ih (frame + {x})
    rw [add_zero] at this ⊢
    rw [List.map_cons, settle, this, add_assoc, Multiset.singleton_add, Multiset.cons_coe]

/-- Resources that are held are released. -/
theorem Settles.release (xs : List α) : Settles (xs.map .release) (xs : Multiset α) 0 := by
  induction xs with
  | nil => exact .refl 0
  | cons x xs ih =>
    intro frame
    have hm : x ∈ frame + (x :: xs : List α) := by simp
    have herase : (frame + (x :: xs : List α)).erase x = frame + (xs : Multiset α) := by
      rw [← Multiset.cons_coe, Multiset.erase_add_right_pos _ (Multiset.mem_cons_self x _),
        Multiset.erase_cons_head]
    rw [List.map_cons, settle, if_pos hm, herase]
    exact ih frame

end DupDistribute.Base

import Mathlib.Data.Set.Insert

/-!
# The lock-file protocol

What the lock files are for, without any code: processes that replay records to an address,
and a set of locks that they create, poll and remove. Processes and addresses are arbitrary
types. A lock is meant to say that a replay is going on (`Guarded`), and there is meant to
be one replay for an address (`Exclusive`); the lemmas say which moves keep this.
-/

namespace DupDistribute.System

variable {ι α : Type}

/-- What a process is doing for an address. -/
inductive Role (α : Type) where
  | away
  | creating (a : α)
  | serving (a : α)
  | polling (a : α)
  | sending (a : α)
  | failed (a : α)
  | removing (a : α)
  deriving DecidableEq

namespace Role

/-- A move of one process, from its role and the locks to its next role and the locks. -/
inductive Moves (locks : Set α) : Role α → Role α → Set α → Prop where
  | stay (r : Role α) : Moves locks r r locks
  | start (a : α) : Moves locks .away (.creating a) locks
  | stop (a : α) : Moves locks .away (.removing a) locks
  | create (a : α) : Moves locks (.creating a) (.serving a) (insert a locks)
  | refuse (a : α) : Moves locks (.creating a) .away locks
  | serve (a : α) : Moves locks (.serving a) (.polling a) locks
  | noRecords (a : α) : Moves locks (.serving a) (.failed a) locks
  | pass (a : α) (h : a ∈ locks) : Moves locks (.polling a) (.sending a) locks
  | finish (a : α) : Moves locks (.polling a) .away locks
  | next (a : α) : Moves locks (.sending a) (.polling a) locks
  | fail (a : α) : Moves locks (.sending a) (.failed a) locks
  | crash (a : α) : Moves locks (.sending a) .away locks
  | cleanUp (a : α) : Moves locks (.failed a) .away (locks \ {a})
  | remove (a : α) : Moves locks (.removing a) .away (locks \ {a})

/-- Inside the loop that polls the lock and sends records. -/
def Scanning (a : α) (r : Role α) : Prop := r = .polling a ∨ r = .sending a

/-- Between the creation of the lock and the end of the replay. -/
def Replaying (a : α) (r : Role α) : Prop := r = .serving a ∨ r.Scanning a

/-- Between the creation of the lock and the end of the START branch. -/
def InStart (a : α) (r : Role α) : Prop := r.Replaying a ∨ r = .failed a

variable {locks locks' : Set α} {r r' : Role α} {a : α}

/-- A replay begins with the creation of its lock. -/
theorem Moves.replaying (h : Moves locks r r' locks') (hr : r'.Replaying a) :
    r.Replaying a ∨ r = .creating a ∧ r' = .serving a := by
  cases h <;> simp_all [Replaying, Scanning]

/-- A lock that is there was there before, or has just been created for a replay. -/
theorem Moves.locked (h : Moves locks r r' locks') (ha : a ∈ locks') :
    a ∈ locks ∨ r' = .serving a := by
  cases h <;> simp_all
  case create b =>
    rcases ha with rfl | ha
    · exact .inr rfl
    · exact .inl ha

/-- Who leaves the START branch has removed the lock, or was replaying and leaves it. -/
theorem Moves.leaves (h : Moves locks r r' locks') (hr : r.InStart a) (hr' : ¬ r'.InStart a) :
    a ∉ locks' ∨ r.Replaying a ∧ r' = .away ∧ locks' = locks := by
  cases h <;> simp_all [InStart, Replaying, Scanning]

end Role

/-! ### All processes -/

variable [DecidableEq ι] {locks locks' : Set α} {roles : ι → Role α} {i : ι} {r' : Role α}

/-- A lock exists only while some process is in the START branch for its address. -/
def Guarded (locks : Set α) (roles : ι → Role α) : Prop :=
  ∀ a ∈ locks, ∃ i, (roles i).InStart a

/-- No two processes replay to one address. -/
def Exclusive (roles : ι → Role α) : Prop :=
  ∀ a i j, (roles i).Replaying a → (roles j).Replaying a → i = j

/-- Locks stay guarded if a process leaves a lock behind only to another process. -/
theorem Guarded.move (h : Guarded locks roles) (hm : (roles i).Moves locks r' locks')
    (hc : ∀ a, (roles i).Replaying a → r' = .away → a ∈ locks →
      ∃ j, j ≠ i ∧ (roles j).InStart a) :
    Guarded locks' (Function.update roles i r') := by
  intro a ha
  have other {j : ι} (hj : j ≠ i) (hs : (roles j).InStart a) :
      ∃ k, (Function.update roles i r' k).InStart a :=
    ⟨j, by rwa [Function.update_of_ne hj]⟩
  have self (hs : r'.InStart a) : ∃ k, (Function.update roles i r' k).InStart a :=
    ⟨i, by rwa [Function.update_self]⟩
  rcases hm.locked ha with hold | rfl
  · obtain ⟨j, hj⟩ := h a hold
    by_cases hji : j = i
    · subst hji
      by_cases hs : r'.InStart a
      · exact self hs
      · rcases hm.leaves hj hs with hn | ⟨hrep, haway, rfl⟩
        · exact absurd ha hn
        · obtain ⟨k, hk, hks⟩ := hc a hrep haway hold
          exact other hk hks
    · exact other hji hj
  · exact self (.inl (.inl rfl))

/-- Replays stay exclusive if a lock is created only while nobody replays to its address. -/
theorem Exclusive.move (h : Exclusive roles) (hm : (roles i).Moves locks r' locks')
    (hc : ∀ a, roles i = .creating a → r' = .serving a →
      ∀ j, j ≠ i → ¬ (roles j).Replaying a) :
    Exclusive (Function.update roles i r') := by
  have single {a : α} {j : ι} (hj : j ≠ i) (hr : r'.Replaying a)
      (hrj : (roles j).Replaying a) : False := by
    rcases hm.replaying hr with hr | ⟨hcr, hs⟩
    · exact hj (h a j i hrj hr)
    · exact hc a hcr hs j hj hrj
  intro a j k hj hk
  by_cases hji : j = i <;> by_cases hki : k = i
  · rw [hji, hki]
  · subst hji
    rw [Function.update_self] at hj
    rw [Function.update_of_ne hki] at hk
    exact (single hki hj hk).elim
  · subst hki
    rw [Function.update_of_ne hji] at hj
    rw [Function.update_self] at hk
    exact (single hji hk hj).elim
  · rw [Function.update_of_ne hji] at hj
    rw [Function.update_of_ne hki] at hk
    exact h a j k hj hk

end DupDistribute.System

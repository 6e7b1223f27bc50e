import Mathlib.Data.List.Chain
import Mathlib.Logic.Function.Basic

/-!
# Machines, open runs and interleaving

Library support, independent of any program. A machine is a partial step on a
local state and on a world that it shares with others. An open run lets the world
change arbitrarily between two steps of the machine, which is how one process sees
all the others. `interleave` closes a family of machines over one shared world, and
`RunIn.project` turns every interleaved run into an open run of each member; `closed` leaves
one machine alone with its world.
-/

namespace DupDistribute.Base

/-- A component with world `ω`, local state `σ`, actions `α` and events `ε`.
An action carries the outcomes that the environment chooses; `none` is a disabled step. -/
structure Machine (ω σ α ε : Type) where
  step : ω → σ → α → Option (σ × ω × List ε)

namespace Machine

variable {ω σ α ε : Type}

/-- Runs from `s₀` all of whose steps meet `C`, with the events they leave.
The world before each step is arbitrary. -/
inductive RunIn (M : Machine ω σ α ε) (C : ω → σ → α → Prop) (s₀ : σ) : List ε → σ → Prop where
  | refl : RunIn M C s₀ [] s₀
  | snoc {τ : List ε} {s s' : σ} {w w' : ω} {a : α} {es : List ε} :
      RunIn M C s₀ τ s → C w s a → M.step w s a = some (s', w', es) →
      RunIn M C s₀ (τ ++ es) s'

/-- Runs without a condition on the steps. -/
abbrev Open (M : Machine ω σ α ε) : σ → List ε → σ → Prop := M.RunIn (fun _ _ _ ↦ True)

variable {M : Machine ω σ α ε} {C D : ω → σ → α → Prop} {s₀ s s' : σ} {τ τ' : List ε}

/-- One admitted step is a run. -/
theorem RunIn.single {w w' : ω} {a : α} {es : List ε} (hc : C w s a)
    (h : M.step w s a = some (s', w', es)) : M.RunIn C s es s' := by
  have hr : M.RunIn C s ([] ++ es) s' := RunIn.snoc RunIn.refl hc h
  simpa only [List.nil_append] using hr

/-- Runs compose and their traces concatenate. -/
theorem RunIn.trans (h : M.RunIn C s₀ τ s) (h' : M.RunIn C s τ' s') :
    M.RunIn C s₀ (τ ++ τ') s' := by
  induction h' with
  | refl => simpa only [List.append_nil] using h
  | snoc _ hc hs ih =>
    rw [← List.append_assoc]
    exact RunIn.snoc ih hc hs

/-- A weaker step condition admits every run of a stronger one. -/
theorem RunIn.mono (hcd : ∀ w s a, C w s a → D w s a) (h : M.RunIn C s₀ τ s) :
    M.RunIn D s₀ τ s := by
  induction h with
  | refl => exact RunIn.refl
  | snoc _ hc hs ih => exact RunIn.snoc ih (hcd _ _ _ hc) hs

/-- A property of trace and state that holds at the start and is kept by every admitted
step holds after every run. -/
theorem RunIn.invariant (I : List ε → σ → Prop) (h₀ : I [] s₀)
    (hstep : ∀ τ s w a s' w' es, I τ s → C w s a → M.step w s a = some (s', w', es) →
      I (τ ++ es) s')
    (h : M.RunIn C s₀ τ s) : I τ s := by
  induction h with
  | refl => exact h₀
  | snoc _ hc hs ih => exact hstep _ _ _ _ _ _ _ ih hc hs

/-- Execute a list of actions, each in the world given with it and if `ok` admits it. -/
def exec (M : Machine ω σ α ε) (ok : ω → σ → α → Bool) :
    σ → List (ω × α) → Option (σ × List ε)
  | s, [] => some (s, [])
  | s, (w, a) :: rest =>
    match ok w s a, M.step w s a with
    | true, some (s', _, es) => (exec M ok s' rest).map (fun r ↦ (r.1, es ++ r.2))
    | _, _ => none

/-- A successful execution is a run with the trace it returns. -/
theorem exec_run {ok : ω → σ → α → Bool} {acts : List (ω × α)}
    (hc : ∀ w s a, ok w s a = true → C w s a) (h : M.exec ok s acts = some (s', τ)) :
    M.RunIn C s τ s' := by
  induction acts generalizing s τ with
  | nil =>
    simp only [exec, Option.some.injEq, Prod.mk.injEq] at h
    obtain ⟨rfl, rfl⟩ := h
    exact RunIn.refl
  | cons wa rest ih =>
    obtain ⟨w, a⟩ := wa
    simp only [exec] at h
    split at h
    · next t w' es hok hs =>
      obtain ⟨⟨u, υ⟩, hu, he⟩ := Option.map_eq_some_iff.mp h
      obtain ⟨rfl, rfl⟩ := Prod.mk.inj he
      have hfirst : M.RunIn C s es t := RunIn.single (hc w s a hok) hs
      exact hfirst.trans (ih hu)
    · cases h

/-- What is observed after an execution is observed after some run. -/
theorem exec_observe (M : Machine ω σ α ε) (ok : ω → σ → α → Bool) (s : σ)
    (acts : List (ω × α)) (P : σ → List ε → Prop) (hc : ∀ w s a, ok w s a = true → C w s a)
    (h : ∃ r, r ∈ M.exec ok s acts ∧ P r.1 r.2) : ∃ τ s', M.RunIn C s τ s' ∧ P s' τ := by
  obtain ⟨⟨s', τ⟩, hr, hp⟩ := h
  exact ⟨τ, s', exec_run hc hr, hp⟩

/-- Whatever the world does within `W` and however the machine is scheduled, with actions in
`C`, it never stops before `Q` and reaches `Q` after finitely many steps. -/
inductive Inevitably (M : Machine ω σ α ε) (W : ω → Prop) (C : α → Prop) (Q : σ → Prop) :
    σ → Prop where
  | now {s : σ} (h : Q s) : Inevitably M W C Q s
  | later {s : σ} (enabled : ∀ w, W w → ∃ a, C a ∧ (M.step w s a).isSome)
      (next : ∀ w a s' w' es, W w → C a → M.step w s a = some (s', w', es) →
        Inevitably M W C Q s') : Inevitably M W C Q s

/-- A measure that every admitted step before `Q` decreases makes `Q` inevitable. -/
theorem Inevitably.of_measure {W : ω → Prop} {A : α → Prop} {Q I : σ → Prop} (μ : σ → Nat)
    (enabled : ∀ w s, I s → ¬ Q s → W w → ∃ a, A a ∧ (M.step w s a).isSome)
    (next : ∀ w s a s' w' es, I s → ¬ Q s → W w → A a → M.step w s a = some (s', w', es) →
      Q s' ∨ I s' ∧ μ s' < μ s)
    (h : I s) : M.Inevitably W A Q s := by
  induction hn : μ s using Nat.strongRecOn generalizing s with
  | ind n ih =>
    by_cases hq : Q s
    · exact .now hq
    refine .later (fun w ↦ enabled w s h hq) ?_
    intro w a s' w' es hw ha hs
    rcases next w s a s' w' es h hq hw ha hs with hq' | ⟨hi, hlt⟩
    · exact .now hq'
    · exact ih (μ s') (hn ▸ hlt) hi rfl

/-- The machine with its own steps as events: the state before, the action, the state after. -/
def traced (M : Machine ω σ α ε) : Machine ω σ α (σ × α × σ) where
  step w s a := (M.step w s a).map (fun r ↦ (r.1, r.2.1, [(s, a, r.1)]))

/-- A recorded step is a step of the machine. -/
theorem traced_step {w w' : ω} {a : α} {ρ : List (σ × α × σ)}
    (h : M.traced.step w s a = some (s', w', ρ)) :
    ρ = [(s, a, s')] ∧ ∃ es, M.step w s a = some (s', w', es) := by
  obtain ⟨⟨t, v, es⟩, hs, he⟩ := Option.map_eq_some_iff.mp h
  simp only [Prod.mk.injEq] at he
  obtain ⟨rfl, rfl, rfl⟩ := he
  exact ⟨rfl, es, hs⟩

/-- What one admitted step of the machine guarantees, from a state in which the invariant
holds, is true of every recorded step; the invariant may assume it of the steps so far. -/
theorem RunIn.traced_forall {ρ : List (σ × α × σ)} (I : σ → Prop) (A G : σ × α × σ → Prop)
    (h₀ : I s₀)
    (hstep : ∀ s w a s' w' es, I s → C w s a → M.step w s a = some (s', w', es) →
      A (s, a, s') → I s' ∧ G (s, a, s'))
    (h : M.traced.RunIn C s₀ ρ s) (ha : ∀ x ∈ ρ, A x) : I s ∧ ∀ x ∈ ρ, G x := by
  refine h.invariant (fun ρ s ↦ (∀ x ∈ ρ, A x) → I s ∧ ∀ x ∈ ρ, G x) (fun _ ↦ ⟨h₀, by simp⟩) ?_ ha
  intro ρ s w a s' w' es hi hc hs ha
  obtain ⟨rfl, es', hm⟩ := traced_step hs
  simp only [List.mem_append, List.mem_singleton] at ha ⊢
  obtain ⟨hs, hg⟩ := hi (fun x hx ↦ ha x (.inl hx))
  obtain ⟨hs', hg'⟩ := hstep s w a s' w' es' hs hc hm (ha _ (.inr rfl))
  refine ⟨hs', ?_⟩
  rintro x (hx | rfl)
  · exact hg x hx
  · exact hg'

/-- Each recorded step begins where the one before has ended. -/
theorem RunIn.traced_chain {ρ : List (σ × α × σ)} (h : M.traced.RunIn C s₀ ρ s) :
    ρ.IsChain (fun x y ↦ x.2.2 = y.1) := by
  have hinv := h.invariant
    (fun ρ s ↦ ρ.IsChain (fun x y ↦ x.2.2 = y.1) ∧ ∀ x ∈ ρ.getLast?, x.2.2 = s)
    ⟨.nil, by simp⟩ ?_
  · exact hinv.1
  rintro ρ s w a s' w' es ⟨hchain, hlast⟩ - hs
  obtain ⟨rfl, -, -⟩ := traced_step hs
  refine ⟨List.isChain_append.mpr ⟨hchain, .singleton _, ?_⟩, by simp⟩
  simpa using hlast

/-- The machine alone with its world, which nothing else changes. -/
def closed (M : Machine ω σ α ε) : Machine Unit (σ × ω) α ε where
  step _ s a := (M.step s.2 s.1 a).map (fun r ↦ ((r.1, r.2.1), (), r.2.2))

/-- A step in the closed world is a step of the machine. -/
theorem closed_step {u u' : Unit} {x x' : σ × ω} {a : α} {es : List ε}
    (h : M.closed.step u x a = some (x', u', es)) : M.step x.2 x.1 a = some (x'.1, x'.2, es) := by
  obtain ⟨⟨t, v, es'⟩, hs, he⟩ := Option.map_eq_some_iff.mp h
  simp only [Prod.mk.injEq] at he
  obtain ⟨rfl, -, rfl⟩ := he
  exact hs

/-- A step of the machine is a run alone with its world. -/
theorem RunIn.closed_single {E : ω → σ → α → Prop} {w w' : ω} {a : α} {es : List ε}
    (hc : E w s a) (h : M.step w s a = some (s', w', es)) :
    M.closed.RunIn (fun _ x b ↦ E x.2 x.1 b) (s, w) es (s', w') := by
  have hstep : M.closed.step () (s, w) a = some ((s', w'), (), es) := by
    simp only [closed, h, Option.map_some]
  exact RunIn.single hc hstep

/-- A run in the closed world is an open run of the machine. -/
theorem RunIn.open_of_closed {E : Unit → σ × ω → α → Prop} {x x₀ : σ × ω}
    (h : M.closed.RunIn E x₀ τ x) : M.Open x₀.1 τ x.1 := by
  induction h with
  | refl => exact RunIn.refl
  | snoc _ _ hs ih => exact RunIn.snoc ih trivial (closed_step hs)

end Machine

/-! ### Traces -/

/-- Every event of the trace meets `Q` of the events before it. -/
def Always {ε : Type} (Q : List ε → ε → Prop) (τ : List ε) : Prop :=
  ∀ before e after, τ = before ++ e :: after → Q before e

/-- The empty trace has no event. -/
theorem always_nil {ε : Type} (Q : List ε → ε → Prop) : Always Q [] := by
  intro before e after h
  simp at h

/-- One more event. -/
theorem always_concat {ε : Type} {Q : List ε → ε → Prop} {τ : List ε} {e : ε} :
    Always Q (τ ++ [e]) ↔ Always Q τ ∧ Q τ e := by
  constructor
  · intro h
    refine ⟨fun before d after hτ ↦ h before d (after ++ [e]) (by simp [hτ]), h τ e [] rfl⟩
  · rintro ⟨hτ, he⟩ before d after heq
    rcases List.eq_nil_or_concat after with rfl | ⟨after, c, rfl⟩
    · obtain ⟨rfl, hd⟩ := List.append_inj' heq rfl
      obtain rfl : e = d := by simpa using hd
      exact he
    · rw [List.concat_eq_append, ← List.cons_append, ← List.append_assoc] at heq
      exact hτ before d after (List.append_inj' heq rfl).1

/-- Events of which nothing is asked. -/
theorem Always.append {ε : Type} {Q : List ε → ε → Prop} {τ es : List ε} (h : Always Q τ)
    (hes : ∀ e ∈ es, ∀ before, Q before e) : Always Q (τ ++ es) := by
  induction es generalizing τ with
  | nil => rwa [List.append_nil]
  | cons e es ih =>
    obtain ⟨he, hrest⟩ := List.forall_mem_cons.mp hes
    rw [← List.singleton_append, ← List.append_assoc]
    exact ih (always_concat.mpr ⟨h, he τ⟩) hrest

/-- More events, each with those before it in both parts. -/
theorem Always.trans {ε : Type} {Q : List ε → ε → Prop} {τ es : List ε} (h : Always Q τ)
    (hes : Always (fun before ↦ Q (τ ++ before)) es) : Always Q (τ ++ es) := by
  intro before e after heq
  rcases List.append_eq_append_iff.mp heq with ⟨mid, rfl, hmid⟩ | ⟨mid, rfl, hmid⟩
  · exact hes mid e after hmid
  · cases mid with
    | nil => simpa using hes [] e after hmid.symm
    | cons d mid =>
      obtain ⟨rfl, -⟩ := List.cons.inj hmid
      exact h before e mid rfl

/-! ### Families of machines over one world -/

/-- The local states of a family of machines with the world they share. -/
structure Sys (ι ω σ : Type) where
  procs : ι → σ
  world : ω

namespace Machine

variable {ι ω σ α ε : Type} [DecidableEq ι]

/-- Interleaving: one member acts, in the common world, and the others keep their states. -/
def interleave (ι : Type) [DecidableEq ι] (M : Machine ω σ α ε) :
    Machine Unit (Sys ι ω σ) (ι × α) (ι × ε) where
  step _ S a :=
    (M.step S.world (S.procs a.1) a.2).map (fun r ↦
      (⟨Function.update S.procs a.1 r.1, r.2.1⟩, (), r.2.2.map (fun e ↦ (a.1, e))))

/-- The events of one member of a family, in order. -/
def eventsOf (i : ι) (τ : List (ι × ε)) : List ε :=
  τ.filterMap (fun e ↦ if e.1 = i then some e.2 else none)

/-- A member's view holds exactly its own events. -/
theorem mem_eventsOf {i : ι} {e : ε} {τ : List (ι × ε)} : e ∈ eventsOf i τ ↔ (i, e) ∈ τ := by
  simp only [eventsOf, List.mem_filterMap, Option.ite_none_right_eq_some, Option.some.injEq]
  constructor
  · rintro ⟨⟨j, f⟩, hm, rfl, rfl⟩
    exact hm
  · intro hm
    exact ⟨(i, e), hm, rfl, rfl⟩

/-- No events of a member before the family moves. -/
@[simp] theorem eventsOf_nil (i : ι) : eventsOf i ([] : List (ι × ε)) = [] := rfl

/-- The member's view of a longer trace. -/
@[simp] theorem eventsOf_append (i : ι) (τ τ' : List (ι × ε)) :
    eventsOf i (τ ++ τ') = eventsOf i τ ++ eventsOf i τ' := by
  simp [eventsOf]

/-- A member sees all events of its own step. -/
theorem eventsOf_self (i : ι) (es : List ε) :
    eventsOf i (es.map (fun e ↦ (i, e))) = es := by
  induction es with
  | nil => rfl
  | cons e es ih =>
    simp only [eventsOf, List.map_cons, List.filterMap_cons, ↓reduceIte] at ih ⊢
    rw [ih]

/-- A member sees nothing of another member's step. -/
theorem eventsOf_other {i j : ι} (h : j ≠ i) (es : List ε) :
    eventsOf i (es.map (fun e ↦ (j, e))) = [] := by
  simp [eventsOf, h]

variable {M : Machine ω σ α ε} {C : Unit → Sys ι ω σ → ι × α → Prop}
  {S S₀ S' : Sys ι ω σ} {τ : List (ι × ε)}

/-- Everything an interleaved step can do. -/
theorem interleave_step {u u' : Unit} {a : ι × α} {es : List (ι × ε)}
    (h : (M.interleave ι).step u S a = some (S', u', es)) :
    ∃ s' w' es', M.step S.world (S.procs a.1) a.2 = some (s', w', es') ∧
      S' = ⟨Function.update S.procs a.1 s', w'⟩ ∧ es = es'.map (fun e ↦ (a.1, e)) := by
  obtain ⟨⟨s', w', es'⟩, hs, he⟩ := Option.map_eq_some_iff.mp h
  simp only [Prod.mk.injEq] at he
  obtain ⟨rfl, -, rfl⟩ := he
  exact ⟨s', w', es', hs, rfl, rfl⟩

/-- A member's step, taken in the common world, is a step of the family. -/
theorem step_interleave {i : ι} {a : α} {s' : σ} {w' : ω} {es : List ε}
    (h : M.step S.world (S.procs i) a = some (s', w', es)) :
    (M.interleave ι).step () S (i, a) =
      some (⟨Function.update S.procs i s', w'⟩, (), es.map (fun e ↦ (i, e))) := by
  simp only [interleave, h, Option.map_some]

/-- Every interleaved run is a run of each member, with the assumptions made on its steps. -/
theorem RunIn.project_of {E : ω → σ → α → Prop}
    (hE : ∀ S a, C () S a → E S.world (S.procs a.1) a.2)
    (h : (M.interleave ι).RunIn C S₀ τ S) (i : ι) :
    M.RunIn E (S₀.procs i) (eventsOf i τ) (S.procs i) := by
  induction h with
  | refl => exact RunIn.refl
  | @snoc τ S S' _ _ a es _ hc hs ih =>
    obtain ⟨s', w', es', hm, rfl, rfl⟩ := interleave_step hs
    rw [eventsOf_append]
    by_cases hi : a.1 = i
    · subst hi
      rw [eventsOf_self]
      simpa using RunIn.snoc ih (hE S a hc) hm
    · rw [eventsOf_other hi]
      simpa [Function.update_of_ne (Ne.symm hi)] using ih

/-- Every interleaved run is an open run of each member. -/
theorem RunIn.project (h : (M.interleave ι).RunIn C S₀ τ S) (i : ι) :
    M.Open (S₀.procs i) (eventsOf i τ) (S.procs i) :=
  h.project_of (fun _ _ _ ↦ trivial) i

/-- Steps that a member takes one after the other, alone with the world, are a run of the
family. -/
theorem RunIn.interleave_member {E : ω → σ → α → Prop} {i : ι} {x : σ × ω} {ρ : List ε}
    (h : M.closed.RunIn (fun _ x a ↦ E x.2 x.1 a) (S.procs i, S.world) ρ x) :
    (M.interleave ι).RunIn (fun _ S y ↦ E S.world (S.procs y.1) y.2) S
      (ρ.map (fun e ↦ (i, e))) ⟨Function.update S.procs i x.1, x.2⟩ := by
  induction h with
  | refl =>
    rw [Function.update_eq_self]
    exact RunIn.refl
  | @snoc ρ x x' _ _ a es _ hc hs ih =>
    have hm : M.step x.2 (Function.update S.procs i x.1 i) a = some (x'.1, x'.2, es) := by
      rw [Function.update_self]
      exact closed_step hs
    have hstep := step_interleave (S := ⟨Function.update S.procs i x.1, x.2⟩) hm
    rw [Function.update_idem] at hstep
    rw [List.map_append]
    refine RunIn.snoc ih ?_ hstep
    simpa only [Function.update_self] using hc

/-- One machine alone is a family of one member. -/
theorem RunIn.interleave_of_closed {x₀ x : σ × ω} {ρ : List ε} (h : M.closed.Open x₀ ρ x) :
    (M.interleave Unit).Open ⟨fun _ ↦ x₀.1, x₀.2⟩ (ρ.map (fun e ↦ ((), e)))
      ⟨fun _ ↦ x.1, x.2⟩ := by
  have hmember := RunIn.interleave_member (M := M) (E := fun _ _ _ ↦ True)
    (S := ⟨fun _ : Unit ↦ x₀.1, x₀.2⟩) (i := ()) h
  have hupdate : Function.update (fun _ : Unit ↦ x₀.1) () x.1 = fun _ ↦ x.1 :=
    funext (fun _ ↦ Function.update_self _ _ _)
  rwa [hupdate] at hmember

/-- A relation between the members of two families, such that every admitted step on the left is
matched on the right by steps with the same events and the same effect on the world, carries over
from the start to all runs. -/
theorem RunIn.simulate {σ' α' : Type} {N : Machine ω σ' α' ε} {R : σ → σ' → Prop}
    {E : ω → σ → α → Prop} {F : ω → σ' → α' → Prop} (T₀ : Sys ι ω σ')
    (sim : ∀ w s a s' w' es t, R s t → E w s a → M.step w s a = some (s', w', es) →
      ∃ t', N.closed.RunIn (fun _ x b ↦ F x.2 x.1 b) (t, w) es (t', w') ∧ R s' t')
    (h₀ : ∀ i, R (S₀.procs i) (T₀.procs i)) (hw : T₀.world = S₀.world)
    (h : (M.interleave ι).RunIn (fun _ S x ↦ E S.world (S.procs x.1) x.2) S₀ τ S) :
    ∃ T, (N.interleave ι).RunIn (fun _ T x ↦ F T.world (T.procs x.1) x.2) T₀ τ T ∧
      (∀ i, R (S.procs i) (T.procs i)) ∧ T.world = S.world := by
  induction h with
  | refl => exact ⟨T₀, RunIn.refl, h₀, hw⟩
  | @snoc τ S S' _ _ a es _ hc hs ih =>
    obtain ⟨T, hrun, hrel, hworld⟩ := ih
    obtain ⟨s', w', es', hm, rfl, rfl⟩ := interleave_step hs
    obtain ⟨t', hmatch, hrel'⟩ := sim _ _ _ _ _ _ _ (hrel a.1) hc hm
    rw [← hworld] at hmatch
    refine ⟨_, hrun.trans hmatch.interleave_member, fun i ↦ ?_, rfl⟩
    by_cases hi : i = a.1
    · subst hi
      simpa only [Function.update_self] using hrel'
    · simpa only [Function.update_of_ne hi] using hrel i

/-- If every admitted step of a member pays for its events out of the member's budget, then
so does every run of the family. `J` is an invariant that the payment may rely on. -/
theorem RunIn.spend (J : Sys ι ω σ → Prop) (i : ι) (budget : σ → Nat) (costs : ε → Bool)
    (h₀ : J S₀)
    (keep : ∀ S x S' es, J S → C () S x → (M.interleave ι).step () S x = some (S', (), es) → J S')
    (pay : ∀ S a s' w' es, J S → C () S (i, a) →
      M.step S.world (S.procs i) a = some (s', w', es) →
      es.countP costs + budget s' ≤ budget (S.procs i))
    (h : (M.interleave ι).RunIn C S₀ τ S) :
    (eventsOf i τ).countP costs + budget (S.procs i) ≤ budget (S₀.procs i) := by
  have hinv := h.invariant
    (fun τ S ↦ J S ∧ (eventsOf i τ).countP costs + budget (S.procs i) ≤ budget (S₀.procs i))
    ⟨h₀, by simp⟩ ?_
  · exact hinv.2
  rintro τ S u x S' u' es ⟨hj, hle⟩ hc hs
  refine ⟨keep S x S' es hj hc hs, ?_⟩
  obtain ⟨j, a⟩ := x
  obtain ⟨s', w', es', hm, rfl, rfl⟩ := interleave_step hs
  rw [eventsOf_append, List.countP_append]
  by_cases hi : j = i
  · subst hi
    have hpay := pay S a s' w' es' hj hc hm
    rw [eventsOf_self]
    simp only [Function.update_self]
    omega
  · rw [eventsOf_other hi]
    simpa [Function.update_of_ne (Ne.symm hi)] using hle

end Machine
end DupDistribute.Base

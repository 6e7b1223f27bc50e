import DupDistribute.Pool.Size

/-!
# Destruction of the pool

`threadpool_destroy` (`threadpool.c:280-296`) joins the slots below `live_thr_num` and then
frees the pool. That reaches every worker if the workers that have not terminated are in those
slots, and if `live_thr_num` and the slots stay as they are while it joins (`Settled`). After
the pool has grown and shrunk again a worker may be in a slot behind.
-/

namespace DupDistribute.Pool

open DupDistribute.Base

variable {cfg : Config} {P P' : Threadpool} {es : List PoolEvent}

/-- Every worker ever created has terminated. -/
def Threadpool.AllGone (P : Threadpool) : Prop :=
  ∀ k, P.workers k ≠ .unborn → P.workers k = .terminated

/-- Every worker that has not terminated is in a slot below `live_thr_num`, and no worker will
take the exit branch: the quota is used up, or no worker is to spare. -/
structure Settled (cfg : Config) (P : Threadpool) : Prop where
  slots : ∀ k, P.workers k ≠ .unborn → P.workers k = .terminated ∨
    ∃ i : Nat, (i : Int) < P.liveThrNum ∧ P.threads i = k
  quota : P.waitExitThrNum ≤ 0 ∨ P.liveThrNum ≤ cfg.minThrNum

/-- The manager is about to create a worker. -/
def Threadpool.Creates (cfg : Config) (P : Threadpool) : Prop :=
  ∃ i add live busy, P.manager = .grow i add live busy ∧ i < cfg.maxThrNum ∧
    add < DEFAULT_THREAD_VARY ∧ P.liveThrNum < cfg.maxThrNum ∧
    (P.threads i = 0 ∨ P.workers (P.threads i) = .terminated)

/-- `threadpool_destroy` is called on a settled pool, and after that the manager neither
creates a worker nor sets the exit quota. -/
def Undisturbed (cfg : Config) (P : Threadpool) : Act → Prop
  | .destroyer => P.destroyer = .idle → Settled cfg P
  | .manager _ => P.shutdown = true → ¬ P.Creates cfg ∧ P.manager ≠ .shrink
  | _ => True

/-! ### After `shutdown` -/

/-- What a step keeps of the workers and their slots. -/
structure Keeps (P P' : Threadpool) : Prop where
  live : P'.liveThrNum = P.liveThrNum
  threads : P'.threads = P.threads
  quota : P'.waitExitThrNum ≤ P.waitExitThrNum
  gone : ∀ k, P.workers k = .terminated → P'.workers k = .terminated
  born : ∀ k, P'.workers k ≠ .unborn → P.workers k ≠ .unborn

private theorem gone_update {k : Nat} {pc : WorkerPc} (hp : P.workers k ≠ .terminated) :
    ∀ j, P.workers j = .terminated → Function.update P.workers k pc j = .terminated := by
  rw [Function.forall_update_iff P.workers
    (fun j x ↦ P.workers j = .terminated → x = .terminated)]
  exact ⟨fun h ↦ absurd h hp, fun _ _ h ↦ h⟩

private theorem born_update {k : Nat} {pc : WorkerPc} (hp : P.workers k ≠ .unborn) :
    ∀ j, Function.update P.workers k pc j ≠ .unborn → P.workers j ≠ .unborn := by
  rw [Function.forall_update_iff P.workers (fun j x ↦ x ≠ .unborn → P.workers j ≠ .unborn)]
  exact ⟨fun _ ↦ hp, fun _ _ h ↦ h⟩

private theorem WorkerDoes.keeps {k : Nat} (h : WorkerDoes cfg P k P' es)
    (hs : Settled cfg P) : Keeps P P' := by
  cases h with
  | exit hp hw hm => rcases hs.quota with hq | hq <;> omega
  | spared hp hw =>
    exact ⟨rfl, rfl, by simp only; omega, gone_update (by simp [hp]), born_update (by simp [hp])⟩
  | lock hp | empty hp | goOn hp | sleep hp | wake hp | relock hp | stay hp | shut hp
  | take hp | start task hp | returns task hp | finish hp | terminate hp =>
    exact ⟨rfl, rfl, le_refl _, gone_update (by simp [hp]), born_update (by simp [hp])⟩

private theorem Keeps.signals {n : Nat} (hl : P'.liveThrNum = P.liveThrNum)
    (ht : P'.threads = P.threads) (hq : P'.waitExitThrNum = P.waitExitThrNum)
    (hs : Signals P.workers n P'.workers) : Keeps P P' := by
  refine ⟨hl, ht, le_of_eq hq, ?_, ?_⟩
  · generalize P'.workers = workers at hs
    cases hs with
    | one k hk => exact gone_update (by simp [hk])
    | lost => exact fun _ h ↦ h
  · generalize P'.workers = workers at hs
    cases hs with
    | one k hk => exact born_update (by simp [hk])
    | lost => exact fun _ h ↦ h

private theorem AdderDoes.keeps {j : Nat} {called : Task}
    (h : AdderDoes cfg P j called P' es) : Keeps P P' := by
  cases h with
  | add task workers hp hs => exact .signals rfl rfl rfl hs
  | late pc task hp h =>
    obtain ⟨_, _, _, workers, _, _, rfl, hw, -⟩ := h.frame
    rcases hw with rfl | hs
    · exact ⟨rfl, rfl, le_refl _, fun _ h ↦ h, fun _ h ↦ h⟩
    · exact .signals rfl rfl rfl hs
  | _ => exact ⟨rfl, rfl, le_refl _, fun _ h ↦ h, fun _ h ↦ h⟩

private theorem ManagerDoes.keeps (h : ManagerDoes cfg P P')
    (hc : ¬ P.Creates cfg ∧ P.manager ≠ .shrink) : Keeps P P' := by
  cases h with
  | create i add live busy hp hi ha hm hf =>
    exact absurd ⟨i, add, live, busy, hp, hi, ha, hm, hf⟩ hc.1
  | quota hp => exact absurd hp hc.2
  | signal i workers hp hi hs => exact .signals rfl rfl rfl hs
  | _ => exact ⟨rfl, rfl, le_refl _, fun _ h ↦ h, fun _ h ↦ h⟩

private theorem DestroyerDoes.keeps (h : DestroyerDoes P P') : Keeps P P' := by
  cases h with
  | broadcast hp =>
    refine ⟨rfl, rfl, le_refl _, ?_, ?_⟩
    · intro k hk
      simp only [hk, WorkerPc.broadcast]
    · intro k hk hu
      simp only [hu, WorkerPc.broadcast] at hk
      exact hk rfl
  | _ => exact ⟨rfl, rfl, le_refl _, fun _ h ↦ h, fun _ h ↦ h⟩

private theorem PoolDoes.keeps {a : Act} (h : PoolDoes cfg P a P' es)
    (hd : P.shutdown = true) (hc : Undisturbed cfg P a) (hs : Settled cfg P) : Keeps P P' := by
  cases h with
  | worker h => exact h.keeps hs
  | adder h => exact h.keeps
  | manager h => exact h.keeps (hc hd)
  | destroyer h => exact h.keeps

private theorem Settled.keep (hs : Settled cfg P) (hk : Keeps P P') : Settled cfg P' := by
  constructor
  · intro k hb
    rw [hk.live, hk.threads]
    rcases hs.slots k (hk.born k hb) with hg | hslot
    · exact .inl (hk.gone k hg)
    · exact .inr hslot
  · rw [hk.live]
    have := hk.quota
    rcases hs.quota with hq | hq
    · exact .inl (by omega)
    · exact .inr hq

/-! ### The joins -/

/-- How far the joins have come. -/
def DestroyerPc.Joined (P : Threadpool) : DestroyerPc → Prop
  | .idle => False
  | .broadcast => True
  | .test i => ∀ i' < i, P.workers (P.threads i') = .terminated
  | .join i tid => tid = P.threads i ∧ ∀ i' < i, P.workers (P.threads i') = .terminated
  | .free | .freed => P.AllGone

private theorem joined_keep {pc : DestroyerPc} (h : pc.Joined P) (hk : Keeps P P') :
    pc.Joined P' := by
  cases pc with
  | idle => exact h
  | broadcast => trivial
  | test i =>
    intro i' hi'
    rw [hk.threads]
    exact hk.gone _ (h i' hi')
  | join i tid =>
    refine ⟨by rw [hk.threads]; exact h.1, fun i' hi' ↦ ?_⟩
    rw [hk.threads]
    exact hk.gone _ (h.2 i' hi')
  | free | freed => exact fun k hb ↦ hk.gone k (h k (hk.born k hb))

/-- When no slot is left to join, all workers are gone. -/
private theorem Settled.allGone (hs : Settled cfg P) {i : Nat}
    (hj : ∀ i' < i, P.workers (P.threads i') = .terminated)
    (hi : ¬ (i : Int) < P.liveThrNum) : P.AllGone := by
  intro k hb
  rcases hs.slots k hb with hg | ⟨i', hlt, rfl⟩
  · exact hg
  · exact hj i' (by omega)

/-- Before `shutdown` the joins have not begun; after it the pool is settled, and they have
come as far as `threadpool_destroy` is in its loop. -/
def Winding (cfg : Config) (P : Threadpool) : Prop :=
  P.shutdown = false ∧ P.destroyer = .idle ∨
    P.shutdown = true ∧ Settled cfg P ∧ P.destroyer.Joined P

private theorem DestroyerDoes.winding (h : DestroyerDoes P P')
    (hc : Undisturbed cfg P .destroyer) (hw : Winding cfg P) : Winding cfg P' := by
  have hk := h.keeps
  rcases hw with ⟨hd, hidle⟩ | ⟨hd, hs, hj⟩
  · cases h with
    | shutdown hp => exact .inr ⟨rfl, (hc hp).keep hk, trivial⟩
    | broadcast hp | more i hp | joined i tid hp | done i hp | free hp =>
      rw [hidle] at hp
      cases hp
  · cases h with
    | shutdown hp => rw [hp] at hj; exact hj.elim
    | broadcast hp => exact .inr ⟨hd, hs.keep hk, fun i' hi' ↦ (by cases hi')⟩
    | more i hp hi =>
      rw [hp] at hj
      exact .inr ⟨hd, hs.keep hk, rfl, hj⟩
    | joined i tid hp ht =>
      rw [hp] at hj
      obtain ⟨rfl, hj⟩ := hj
      refine .inr ⟨hd, hs.keep hk, fun i' hi' ↦ ?_⟩
      rcases Nat.lt_succ_iff_lt_or_eq.mp hi' with hlt | rfl
      · exact hj i' hlt
      · exact ht
    | done i hp hi =>
      rw [hp] at hj
      exact .inr ⟨hd, hs.keep hk, hs.allGone hj hi⟩
    | free hp =>
      rw [hp] at hj
      exact .inr ⟨hd, hs.keep hk, hj⟩

private theorem PoolDoes.winding {a : Act} (h : PoolDoes cfg P a P' es)
    (hc : Undisturbed cfg P a) (hw : Winding cfg P) : Winding cfg P' := by
  by_cases ha : a = .destroyer
  · subst ha
    cases h with
    | destroyer h => exact h.winding hc hw
  · obtain ⟨hd', hp'⟩ := h.destroyer_eq ha
    rcases hw with ⟨hd, hidle⟩ | ⟨hd, hs, hj⟩
    · exact .inl ⟨hd'.trans hd, hp'.trans hidle⟩
    · have hk := h.keeps hd hc hs
      refine .inr ⟨hd'.trans hd, hs.keep hk, ?_⟩
      rw [hp']
      exact joined_keep hj hk

/-! ### Whole runs -/

/-- For every history of the pool and every interleaving: if `threadpool_destroy` is called on
a settled pool and the manager then neither creates a worker nor sets the exit quota, every
worker ever created has terminated when the pool is freed. -/
theorem allGone_at_free_if_settled (cfg : Config) (taskQueue : Nat → Task)
    {τ : List PoolEvent} {P : Threadpool}
    (h : (pool cfg).RunIn (fun _ P a ↦ Undisturbed cfg P a) (threadpoolCreate cfg taskQueue) τ P)
    (hf : P.destroyer = .free) : P.AllGone := by
  have hw := h.invariant (fun _ P ↦ Winding cfg P) (.inl ⟨rfl, rfl⟩)
    (fun _ _ _ _ _ _ _ hw hc hs ↦ (poolDoes_of_step hs).winding hc hw)
  rcases hw with ⟨-, hidle⟩ | ⟨-, -, hj⟩
  · rw [hf] at hidle
    cases hidle
  · rw [hf] at hj
    exact hj

/-- The pool has grown to two workers and the first has exited. `threadpool_destroy` joins the
slot of the first and frees the pool while the second still runs. -/
theorem worker_left_at_free :
    ∃ τ P, (pool oneToTwo).Open (threadpoolCreate oneToTwo (fun _ ↦ ⟨0, none⟩)) τ P ∧
      (P.destroyer = .free ∧ P.threads 1 = 2 ∧ P.workers 2 = .lock) ∧ ¬ P.AllGone := by
  obtain ⟨τ, P, hrun, hobs⟩ := Machine.exec_observe (pool oneToTwo) (fun _ _ _ ↦ true)
    (threadpoolCreate oneToTwo (fun _ ↦ ⟨0, none⟩))
    (fillAndGrow ++ setQuota ++ List.replicate 3 ((), .worker 1) ++
      List.replicate 5 ((), .destroyer))
    (fun P _ ↦ P.destroyer = .free ∧ P.threads 1 = 2 ∧ P.workers 2 = .lock)
    (fun _ _ _ _ ↦ trivial) (by decide +kernel)
  refine ⟨τ, P, hrun, hobs, fun hgone ↦ ?_⟩
  have hg := hgone 2 (by simp [hobs.2.2])
  rw [hobs.2.2] at hg
  cases hg

/-- A pool that has not grown is settled. -/
private theorem threadpoolCreate_settled (cfg : Config) (taskQueue : Nat → Task) :
    Settled cfg (threadpoolCreate cfg taskQueue) := by
  refine ⟨fun k hb ↦ .inr ?_, .inl (le_refl _)⟩
  simp only [threadpoolCreate] at hb ⊢
  split at hb
  · next hk =>
    refine ⟨k - 1, by omega, ?_⟩
    rw [if_pos (by omega)]
    omega
  · exact absurd rfl hb

/-- Destruction of a pool that has not grown. -/
theorem allGone_at_free_one_worker :
    ∃ τ P, (pool oneToTwo).RunIn (fun _ P a ↦ Undisturbed oneToTwo P a)
        (threadpoolCreate oneToTwo (fun _ ↦ ⟨0, none⟩)) τ P ∧
      (P.destroyer = .free ∧ P.workers 1 = .terminated) ∧ P.AllGone := by
  let P₀ := threadpoolCreate oneToTwo (fun _ ↦ ⟨0, none⟩)
  let P₁ : Threadpool := { P₀ with shutdown := true, destroyer := .broadcast }
  have hc : Undisturbed oneToTwo P₀ .destroyer :=
    fun _ ↦ threadpoolCreate_settled oneToTwo _
  have hs : (pool oneToTwo).step () P₀ .destroyer = some (P₁, (), []) := rfl
  have hfirst : (pool oneToTwo).RunIn (fun _ P a ↦ Undisturbed oneToTwo P a) P₀ [] P₁ :=
    Machine.RunIn.single hc hs
  let ok : Unit → Threadpool → Act → Bool := fun _ P a ↦ match a with
    | .destroyer => decide (P.destroyer ≠ .idle)
    | .manager _ => false
    | _ => true
  have hok (w : Unit) (P : Threadpool) (a : Act) (ha : ok w P a = true) :
      Undisturbed oneToTwo P a := by
    cases a with
    | destroyer => exact fun hp ↦ absurd hp (of_decide_eq_true ha)
    | manager => cases ha
    | worker | adder => trivial
  obtain ⟨τ, P, hrun, hobs⟩ := Machine.exec_observe (pool oneToTwo) ok P₁
    (List.replicate 3 ((), .worker 1) ++ List.replicate 4 ((), .destroyer))
    (fun P _ ↦ P.destroyer = .free ∧ P.workers 1 = .terminated) hok (by decide +kernel)
  have hall := hfirst.trans hrun
  exact ⟨_, P, hall, hobs, allGone_at_free_if_settled oneToTwo _ hall hobs.1⟩

end DupDistribute.Pool

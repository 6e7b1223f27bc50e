import DupDistribute.Base.Family
import DupDistribute.Pool.Threadpool

/-!
# The number of workers

A worker counts from its creation until it takes the exit branch (`threadpool.c:92-102`).
The manager grows the pool slot by slot under the lock, testing `live_thr_num` each time
(`threadpool.c:186-195`), and it uses a slot only if the slot was never used or its thread has
terminated; so it does no harm that it decides on copies.
-/

namespace DupDistribute.Pool

open DupDistribute.Base

variable {cfg : Config} {P P' : Threadpool} {es : List PoolEvent}

/-- The worker was started and has not taken an exit branch. -/
def WorkerPc.live : WorkerPc → Bool
  | .unborn | .exiting | .terminated => false
  | _ => true

/-- The accounting of the pool before `shutdown`: bounds, counters, and one slot for each live
worker. -/
structure Accounted (cfg : Config) (P : Threadpool) : Prop where
  min_le : (cfg.minThrNum : Int) ≤ P.liveThrNum
  le_max : P.liveThrNum ≤ cfg.maxThrNum
  quota_nonneg : 0 ≤ P.waitExitThrNum
  quota_le : P.waitExitThrNum ≤ DEFAULT_THREAD_VARY
  count : P.liveThrNum = countMembers WorkerPc.live P.workers P.nextTid
  slot : ∀ k, (P.workers k).live = true → ∃! i, i < cfg.maxThrNum ∧ P.threads i = k

/-! ### The array of threads -/

/-- The workers, their number and their slots. Ids from `nextTid` on are not in use. -/
structure Staff (cfg : Config) (live : Int) (threads : Nat → Nat) (nextTid : Nat)
    (workers : Nat → WorkerPc) : Prop where
  min_le : (cfg.minThrNum : Int) ≤ live
  le_max : live ≤ cfg.maxThrNum
  count : live = countMembers WorkerPc.live workers nextTid
  slot : ∀ k, (workers k).live = true → ∃! i, i < cfg.maxThrNum ∧ threads i = k
  id_lt : ∀ i, threads i < nextTid
  unborn : ∀ k, k = 0 ∨ nextTid ≤ k → workers k = .unborn

/-- The workers of the pool are accounted for. -/
abbrev Threadpool.Staff (cfg : Config) (P : Threadpool) : Prop :=
  Pool.Staff cfg P.liveThrNum P.threads P.nextTid P.workers

section
variable {live : Int} {threads : Nat → Nat} {nextTid : Nat} {workers workers' : Nat → WorkerPc}

/-- A worker that was started has an id below `nextTid`. -/
private theorem Staff.lt (h : Staff cfg live threads nextTid workers) {k : Nat}
    (hk : workers k ≠ .unborn) : k < nextTid := by
  by_contra hge
  exact hk (h.unborn k (.inr (by omega)))

/-- No worker is started, and none exits. -/
private theorem Staff.frame (h : Staff cfg live threads nextTid workers)
    (hl : ∀ k, (workers' k).live = (workers k).live)
    (hu : ∀ k, workers k = .unborn → workers' k = .unborn) :
    Staff cfg live threads nextTid workers' where
  min_le := h.min_le
  le_max := h.le_max
  count := by rw [countMembers_congr hl]; exact h.count
  slot k hk := h.slot k (by rw [← hl]; exact hk)
  id_lt := h.id_lt
  unborn k hk := hu k (h.unborn k hk)

private theorem Staff.setWorker (h : Staff cfg live threads nextTid workers) {k : Nat}
    {pc : WorkerPc} (hl : pc.live = (workers k).live) (hu : workers k ≠ .unborn) :
    Staff cfg live threads nextTid (Function.update workers k pc) := by
  apply h.frame
  · rw [Function.forall_update_iff workers (fun j x ↦ x.live = (workers j).live)]
    exact ⟨hl, fun _ _ ↦ rfl⟩
  · rw [Function.forall_update_iff workers (fun j x ↦ workers j = .unborn → x = .unborn)]
    exact ⟨fun hk ↦ absurd hk hu, fun _ _ hj ↦ hj⟩

private theorem Staff.signals {n : Nat} (h : Staff cfg live threads nextTid workers)
    (hs : Signals workers n workers') : Staff cfg live threads nextTid workers' := by
  cases hs with
  | one k hk => exact h.setWorker (by rw [hk]; rfl) (by simp [hk])
  | lost => exact h

private theorem Staff.broadcast (h : Staff cfg live threads nextTid workers) :
    Staff cfg live threads nextTid (fun k ↦ (workers k).broadcast) := by
  apply h.frame
  · intro k
    cases workers k <;> rfl
  · intro k hk
    simp only [hk, WorkerPc.broadcast]

/-- A worker takes the exit branch: its slot is not needed any more. -/
private theorem Staff.exit (h : Staff cfg live threads nextTid workers) {k : Nat}
    (hk : (workers k).live = true) (hm : (cfg.minThrNum : Int) < live) :
    Staff cfg (live - 1) threads nextTid (Function.update workers k .exiting) := by
  have hne : workers k ≠ .unborn := by
    intro hu
    rw [hu] at hk
    cases hk
  have hcount := countMembers_lose (x := .exiting) (h.lt hne) hk rfl
  refine ⟨by omega, by have := h.le_max; omega, by have := h.count; omega, ?_, h.id_lt, ?_⟩
  · rw [Function.forall_update_iff workers
      (fun j x ↦ x.live = true → ∃! i, i < cfg.maxThrNum ∧ threads i = j)]
    exact ⟨fun hl ↦ (by cases hl), fun j _ hl ↦ h.slot j hl⟩
  · rw [Function.forall_update_iff workers (fun j x ↦ j = 0 ∨ nextTid ≤ j → x = .unborn)]
    exact ⟨fun hj ↦ absurd (h.unborn k hj) hne, fun j _ hj ↦ h.unborn j hj⟩

/-- The manager creates a worker in a slot that no live worker has. -/
private theorem Staff.create (h : Staff cfg live threads nextTid workers) {i : Nat}
    (hi : i < cfg.maxThrNum) (hm : live < cfg.maxThrNum)
    (hf : threads i = 0 ∨ workers (threads i) = .terminated) :
    Staff cfg (live + 1) (Function.update threads i nextTid) (nextTid + 1)
      (Function.update workers nextTid .lock) := by
  have hdead : (workers (threads i)).live = false := by
    rcases hf with hf | hf
    · rw [h.unborn _ (.inl hf)]; rfl
    · rw [hf]; rfl
  have hpos : 0 < nextTid := Nat.zero_lt_of_lt (h.id_lt 0)
  have hcount := countMembers_succ (n := nextTid) (w := workers) (p := WorkerPc.live)
    (x := .lock) rfl
  refine ⟨by have := h.min_le; omega, by omega, by have := h.count; omega, ?_, ?_, ?_⟩
  · rw [Function.forall_update_iff workers (fun k x ↦ x.live = true →
      ∃! i', i' < cfg.maxThrNum ∧ Function.update threads i nextTid i' = k)]
    constructor
    · -- the new id stands in slot `i` only, for all ids so far are smaller
      intro _
      refine ⟨i, ⟨hi, Function.update_self ..⟩, ?_⟩
      rintro i' ⟨-, hi'⟩
      by_contra hne
      rw [Function.update_of_ne hne] at hi'
      exact absurd (h.id_lt i') (by omega)
    · intro k hne hk
      obtain ⟨i₀, ⟨hlt, heq⟩, huniq⟩ := h.slot k hk
      have hi₀ : i₀ ≠ i := by
        rintro rfl
        rw [heq, hk] at hdead
        cases hdead
      refine ⟨i₀, ⟨hlt, by rw [Function.update_of_ne hi₀]; exact heq⟩, ?_⟩
      rintro i' ⟨hlt', hi'⟩
      have hii : i' ≠ i := by
        rintro rfl
        rw [Function.update_self] at hi'
        exact hne hi'.symm
      rw [Function.update_of_ne hii] at hi'
      exact huniq i' ⟨hlt', hi'⟩
  · rw [Function.forall_update_iff threads (fun _ x ↦ x < nextTid + 1)]
    exact ⟨Nat.lt_succ_self _, fun j _ ↦ Nat.lt_succ_of_lt (h.id_lt j)⟩
  · rw [Function.forall_update_iff workers (fun j x ↦ j = 0 ∨ nextTid + 1 ≤ j → x = .unborn)]
    exact ⟨fun hj ↦ (by omega), fun j _ hj ↦ h.unborn j (by omega)⟩

end

/-! ### Steps -/

private theorem WorkerDoes.staff {k : Nat} (h : WorkerDoes cfg P k P' es)
    (hd : P.shutdown = false) (hs : P.Staff cfg) : P'.Staff cfg := by
  cases h with
  | exit hp hw hm => exact hs.exit (by rw [hp]; rfl) hm
  | shut hp hd' => rw [hd] at hd'; cases hd'
  | lock hp | empty hp | goOn hp | sleep hp | wake hp | relock hp | spared hp | stay hp
  | take hp | start task hp | returns task hp | finish hp | terminate hp =>
    exact hs.setWorker (by rw [hp]; rfl) (by simp [hp])

private theorem AdderDoes.staff {j : Nat} {called : Task} (h : AdderDoes cfg P j called P' es)
    (hs : P.Staff cfg) : P'.Staff cfg := by
  cases h with
  | add task workers hp hsig => exact hs.signals hsig
  | late pc task hp h =>
    obtain ⟨_, _, _, workers, _, _, rfl, hw, -⟩ := h.frame
    rcases hw with rfl | hsig
    · exact hs
    · exact hs.signals hsig
  | _ => exact hs

private theorem ManagerDoes.staff (h : ManagerDoes cfg P P') (hs : P.Staff cfg) :
    P'.Staff cfg := by
  cases h with
  | create i add live busy hp hi ha hm hf => exact hs.create hi hm hf
  | signal i workers hp hi hsig => exact hs.signals hsig
  | _ => exact hs

/-- Before `shutdown` the workers stay accounted for. -/
theorem PoolDoes.staff {a : Act} (h : PoolDoes cfg P a P' es) (hd : P'.shutdown = false)
    (hs : P.Staff cfg) : P'.Staff cfg := by
  have hd₀ := h.shutdown_eq_false hd
  cases h with
  | worker h => exact h.staff hd₀ hs
  | adder h => exact h.staff hs
  | manager h => exact h.staff hs
  | destroyer h =>
    cases h with
    | broadcast => exact hs.broadcast
    | _ => exact hs

/-- The exit quota is within its bounds. -/
def Threadpool.QuotaOk (P : Threadpool) : Prop :=
  0 ≤ P.waitExitThrNum ∧ P.waitExitThrNum ≤ DEFAULT_THREAD_VARY

private theorem PoolDoes.quotaOk {a : Act} (h : PoolDoes cfg P a P' es) (hq : P.QuotaOk) :
    P'.QuotaOk := by
  obtain ⟨hnn, hle⟩ := hq
  cases h with
  | worker h =>
    cases h with
    | exit hp hw | spared hp hw =>
      constructor <;> simp only <;> omega
    | _ => exact ⟨hnn, hle⟩
  | adder h =>
    cases h with
    | late pc task hp h =>
      obtain ⟨_, _, _, _, _, _, rfl, -, -⟩ := h.frame
      exact ⟨hnn, hle⟩
    | _ => exact ⟨hnn, hle⟩
  | manager h =>
    cases h with
    | quota => exact ⟨Int.natCast_nonneg _, le_refl _⟩
    | _ => exact ⟨hnn, hle⟩
  | destroyer h => cases h <;> exact ⟨hnn, hle⟩

private theorem threadpoolCreate_live (cfg : Config) (taskQueue : Nat → Task) (k : Nat) :
    ((threadpoolCreate cfg taskQueue).workers k).live = true ↔ k ≠ 0 ∧ k < cfg.minThrNum + 1 := by
  simp only [threadpoolCreate]
  split
  · next hk =>
    simp only [WorkerPc.live, true_iff]
    omega
  · next hk =>
    simp only [WorkerPc.live, Bool.false_eq_true, false_iff]
    omega

/-- The workers of a new pool are accounted for. -/
theorem threadpoolCreate_staff (cfg : Config) (taskQueue : Nat → Task) :
    (threadpoolCreate cfg taskQueue).Staff cfg where
  min_le := le_refl _
  le_max := Int.ofNat_le.mpr cfg.min_le_max
  count := by
    have hfilter : (Finset.range (cfg.minThrNum + 1)).filter
        (fun k ↦ ((threadpoolCreate cfg taskQueue).workers k).live = true) =
          (Finset.range (cfg.minThrNum + 1)).erase 0 := by
      ext k
      rw [Finset.mem_filter, Finset.mem_erase, Finset.mem_range, threadpoolCreate_live]
      tauto
    have hcard : countMembers WorkerPc.live (threadpoolCreate cfg taskQueue).workers
        (cfg.minThrNum + 1) = cfg.minThrNum := by
      rw [countMembers, hfilter, Finset.card_erase_of_mem (by simp), Finset.card_range]
      rfl
    exact congrArg Nat.cast hcard.symm
  slot k hk := by
    have hmax := cfg.min_le_max
    rw [threadpoolCreate_live] at hk
    simp only [threadpoolCreate]
    refine ⟨k - 1, ⟨by omega, ?_⟩, ?_⟩
    · rw [if_pos (by omega)]
      omega
    · rintro i ⟨-, hi⟩
      split at hi <;> omega
  id_lt i := by
    simp only [threadpoolCreate]
    split <;> omega
  unborn k hk := by
    simp only [threadpoolCreate] at hk ⊢
    rw [if_neg (by omega)]

/-! ### Whole runs -/

/-- In every state before `shutdown` the workers are accounted for. -/
theorem staff_before_shutdown {C : Unit → Threadpool → Act → Prop} {taskQueue : Nat → Task}
    {τ : List PoolEvent} (h : (pool cfg).RunIn C (threadpoolCreate cfg taskQueue) τ P)
    (hd : P.shutdown = false) : P.Staff cfg :=
  before_shutdown (fun _ P ↦ P.Staff cfg) (threadpoolCreate_staff cfg taskQueue)
    (fun _ _ _ _ _ hd' _ hdoes hs ↦ hdoes.staff hd' hs) h hd

/-- For every configuration, however adders, workers and manager interleave and however old
the manager's copies are: in every state before `shutdown` the number of workers is within
bounds and counted right, the exit quota is between zero and `DEFAULT_THREAD_VARY`, and each
live worker has one slot of the array. -/
theorem accounted_before_shutdown (cfg : Config) (taskQueue : Nat → Task)
    {τ : List PoolEvent} {P : Threadpool}
    (h : (pool cfg).Open (threadpoolCreate cfg taskQueue) τ P) (hd : P.shutdown = false) :
    Accounted cfg P := by
  have hs := staff_before_shutdown h hd
  have hq := before_shutdown (fun _ P ↦ P.QuotaOk) ⟨le_refl _, Int.natCast_nonneg _⟩
    (fun _ _ _ _ _ _ _ hdoes hq ↦ hdoes.quotaOk hq) h hd
  exact ⟨hs.min_le, hs.le_max, hq.1, hq.2, hs.count, hs.slot⟩

/-! ### A pool that grows and shrinks -/

/-- One to two workers and ten slots, so that a full queue makes the pool grow. -/
def oneToTwo : Config := ⟨1, 2, 10, by decide, by decide, by decide⟩

/-- The only worker falls asleep, ten tasks are added, the first of them wakes it, and the
manager creates a second worker. -/
def fillAndGrow : List (Unit × Act) :=
  List.replicate 3 ((), .worker 1) ++ List.replicate 5 ((), .adder 0 ⟨0, none⟩ (some 1)) ++
    List.replicate 45 ((), .adder 0 ⟨0, none⟩ none) ++ List.replicate 9 ((), .manager none)

/-- A round in which the manager sets the exit quota, and its signals find nobody asleep. -/
def setQuota : List (Unit × Act) := List.replicate 10 ((), .manager none)

/-- The pool grows to two workers, and the first worker takes the exit branch. -/
theorem accounted_after_exit :
    ∃ τ P, (pool oneToTwo).Open (threadpoolCreate oneToTwo (fun _ ↦ ⟨0, none⟩)) τ P ∧
      (P.shutdown = false ∧ P.liveThrNum = 1 ∧ P.waitExitThrNum = 2 ∧
        P.workers 1 = .terminated ∧ P.workers 2 = .lock) ∧
      Accounted oneToTwo P := by
  obtain ⟨τ, P, hrun, hobs⟩ := Machine.exec_observe (pool oneToTwo) (fun _ _ _ ↦ true)
    (threadpoolCreate oneToTwo (fun _ ↦ ⟨0, none⟩))
    (fillAndGrow ++ setQuota ++ List.replicate 3 ((), .worker 1))
    (fun P _ ↦ P.shutdown = false ∧ P.liveThrNum = 1 ∧ P.waitExitThrNum = 2 ∧
        P.workers 1 = .terminated ∧ P.workers 2 = .lock)
    (fun _ _ _ _ ↦ trivial) (by decide +kernel)
  exact ⟨τ, P, hrun, hobs, accounted_before_shutdown oneToTwo _ hrun hobs.1⟩

end DupDistribute.Pool

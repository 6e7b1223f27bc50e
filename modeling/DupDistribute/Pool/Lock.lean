import DupDistribute.Pool.Queue

/-!
# The pool lock is given back

`pool->lock` is held over a few statements of `threadpool_thread` and `threadpool_add`
(`threadpool.c:82-128`, `threadpool.c:223-251`) and over the loop in which the manager creates
workers (`threadpool.c:181-196`). Each of these ends by itself: a thread that has the lock is
never kept from going on, and no other thread releases the lock for it or moves it.
-/

namespace DupDistribute.Pool

open DupDistribute.Base

variable {cfg : Config} {P P' : Threadpool} {es τ : List PoolEvent} {o : Owner}

/-- The thread that acts, if it is one that takes the lock. -/
def Act.owner : Act → Option Owner
  | .worker k => some (.worker k)
  | .adder j _ _ => some (.adder j)
  | .manager _ => some .manager
  | .destroyer => none

/-! ### The way to the next unlock -/

/-- How many steps a worker makes at most until it unlocks. -/
def WorkerPc.ahead : WorkerPc → Nat
  | .woken => 3
  | .test => 2
  | .wait | .take => 1
  | _ => 0

/-- The same for a thread in `threadpool_add`. -/
def AdderPc.ahead : AdderPc → Nat
  | .test _ => 3
  | .check _ => 2
  | .wait _ | .body _ => 1
  | _ => 0

/-- The same for the manager: the slots that its loop has not looked at. -/
def ManagerPc.ahead (cfg : Config) : ManagerPc → Nat
  | .grow i .. => cfg.maxThrNum - i + 1
  | _ => 0

/-- The same for any of them. -/
def Owner.ahead (cfg : Config) (workers : Nat → WorkerPc) (adders : Nat → AdderPc)
    (manager : ManagerPc) : Owner → Nat
  | .worker k => (workers k).ahead
  | .adder j => (adders j).ahead
  | .manager => manager.ahead cfg

/-- The same in the state of the pool. -/
abbrev Threadpool.ahead (cfg : Config) (P : Threadpool) (o : Owner) : Nat :=
  o.ahead cfg P.workers P.adders P.manager

section
variable {workers workers' : Nat → WorkerPc} {adders : Nat → AdderPc} {manager : ManagerPc}

private theorem ahead_setWorker {k : Nat} {pc : WorkerPc} (h : o ≠ .worker k) :
    o.ahead cfg (Function.update workers k pc) adders manager =
      o.ahead cfg workers adders manager := by
  cases o with
  | worker k' =>
    have hne : k' ≠ k := fun he ↦ h (by rw [he])
    simp [Owner.ahead, Function.update_of_ne hne]
  | _ => rfl

private theorem ahead_setAdder {j : Nat} {pc : AdderPc} (h : o ≠ .adder j) :
    o.ahead cfg workers (Function.update adders j pc) manager =
      o.ahead cfg workers adders manager := by
  cases o with
  | adder j' =>
    have hne : j' ≠ j := fun he ↦ h (by rw [he])
    simp [Owner.ahead, Function.update_of_ne hne]
  | _ => rfl

private theorem ahead_setManager {pc : ManagerPc} (h : o ≠ .manager) :
    o.ahead cfg workers adders pc = o.ahead cfg workers adders manager := by
  cases o with
  | manager => exact absurd rfl h
  | _ => rfl

private theorem ahead_signals {n : Nat} (h : Signals workers n workers') :
    o.ahead cfg workers' adders manager = o.ahead cfg workers adders manager := by
  cases h with
  | lost => rfl
  | one k hk =>
    by_cases ho : o = .worker k
    · subst ho
      simp [Owner.ahead, hk, WorkerPc.ahead]
    · exact ahead_setWorker ho

end

/-! ### Steps -/

/-- The holder has moved: it has unlocked, or is nearer to it. -/
def Nearer (cfg : Config) (o : Owner) (P P' : Threadpool) : Prop :=
  P'.lock = none ∨ P'.lock = some o ∧ 0 < P'.ahead cfg o ∧ P'.ahead cfg o < P.ahead cfg o

/-- The holder is where it was. -/
def Untouched (cfg : Config) (o : Owner) (P P' : Threadpool) : Prop :=
  P'.lock = some o ∧ P'.ahead cfg o = P.ahead cfg o

private theorem WorkerDoes.holder {k : Nat} (h : WorkerDoes cfg P k P' es)
    (hl : P.lock = some (.worker k)) (hpos : 0 < P.ahead cfg (.worker k)) :
    Nearer cfg (.worker k) P P' := by
  cases h with
  | lock hp hn | relock hp hn => simp [hl] at hn
  | sleep | exit | shut | take => exact .inl rfl
  | _ => exact .inr (by simp_all [Owner.ahead, WorkerPc.ahead])

private theorem WorkerDoes.other {k : Nat} (h : WorkerDoes cfg P k P' es) (ho : P.Orderly cfg)
    (hl : P.lock = some o) (hne : o ≠ .worker k) : Untouched cfg o P P' := by
  have hk := ho.workers k
  have hother : P.lock ≠ some (.worker k) := by simpa [hl] using hne
  cases h with
  | lock hp hn | relock hp hn => simp [hl] at hn
  | sleep hp | take hp =>
    rw [hp] at hk
    exact absurd hk.1 hother
  | exit hp | shut hp =>
    rw [hp] at hk
    exact absurd hk hother
  | _ => exact ⟨hl, ahead_setWorker hne⟩

private theorem AdderDoes.holder {j : Nat} {called : Task} (h : AdderDoes cfg P j called P' es)
    (hl : P.lock = some (.adder j)) (hpos : 0 < P.ahead cfg (.adder j)) :
    Nearer cfg (.adder j) P P' := by
  cases h with
  | lock task hp hn => simp [hl] at hn
  | sleep | shut | add => exact .inl rfl
  | late pc task hp => simp [Owner.ahead, hp, AdderPc.ahead] at hpos
  | _ => exact .inr (by simp_all [Owner.ahead, AdderPc.ahead])

private theorem AdderDoes.other {j : Nat} {called : Task} (h : AdderDoes cfg P j called P' es)
    (ho : P.Orderly cfg) (hd : P.shutdown = false) (hl : P.lock = some o) (hne : o ≠ .adder j) :
    Untouched cfg o P P' := by
  have hj := ho.adders j
  have hother : P.lock ≠ some (.adder j) := by simpa [hl] using hne
  cases h with
  | lock task hp hn => simp [hl] at hn
  | sleep task hp =>
    rw [hp] at hj
    exact absurd hj hother
  | shut task hp hs => simp [hd] at hs
  | add task workers hp hs =>
    rw [hp] at hj
    exact absurd hj.1 hother
  | late pc task hp => exact absurd hp (ho.not_late j pc task)
  | _ => exact ⟨hl, ahead_setAdder hne⟩

private theorem ManagerDoes.holder (h : ManagerDoes cfg P P') (hl : P.lock = some .manager)
    (hpos : 0 < P.ahead cfg .manager) : Nearer cfg .manager P P' := by
  cases h with
  | lock live busy hp hn => simp [hl] at hn
  | snapshot hp hn | quota hp hn => simp [hl] at hn
  | grown => exact .inl rfl
  | create i add live busy hp hi | skip i add live busy hp hi =>
    refine .inr ⟨hl, Nat.succ_pos _, ?_⟩
    simp only [Owner.ahead, ManagerPc.ahead, hp]
    omega
  | _ => simp_all [Owner.ahead, ManagerPc.ahead]

private theorem ManagerDoes.other (h : ManagerDoes cfg P P') (ho : P.Orderly cfg)
    (hl : P.lock = some o) (hne : o ≠ .manager) : Untouched cfg o P P' := by
  have hm := ho.manager
  have hother : P.lock ≠ some .manager := by simpa [hl] using hne
  cases h with
  | lock live busy hp hn => simp [hl] at hn
  | create i add live busy hp | grown i add live busy hp =>
    rw [hp] at hm
    exact absurd hm hother
  | signal i workers hp hi hs =>
    exact ⟨hl, (ahead_signals hs).trans (ahead_setManager hne)⟩
  | _ => exact ⟨hl, ahead_setManager hne⟩

/-- A step of the holder. -/
private theorem PoolDoes.holder {a : Act} (h : PoolDoes cfg P a P' es) (ha : a.owner = some o)
    (hl : P.lock = some o) (hpos : 0 < P.ahead cfg o) : Nearer cfg o P P' := by
  cases h with
  | worker h =>
    obtain rfl := Option.some.inj ha
    exact h.holder hl hpos
  | adder h =>
    obtain rfl := Option.some.inj ha
    exact h.holder hl hpos
  | manager h =>
    obtain rfl := Option.some.inj ha
    exact h.holder hl hpos
  | destroyer => cases ha

/-- A step of another thread. -/
private theorem PoolDoes.other {a : Act} (h : PoolDoes cfg P a P' es) (ha : a.owner ≠ some o)
    (ho : P.Orderly cfg) (hd : P.shutdown = false) (hl : P.lock = some o) :
    Untouched cfg o P P' := by
  have hne {o' : Owner} (ha : some o' ≠ some o) : o ≠ o' := fun he ↦ ha (by rw [he])
  cases h with
  | worker h => exact h.other ho hl (hne ha)
  | adder h => exact h.other ho hd hl (hne ha)
  | manager h => exact h.other ho hl (hne ha)
  | destroyer h =>
    cases h with
    | broadcast =>
      refine ⟨hl, ?_⟩
      cases o with
      | worker k =>
        simp only [Owner.ahead]
        cases P.workers k <;> rfl
      | _ => rfl
    | _ => exact ⟨hl, rfl⟩

/-- Who has the lock is on the way to an unlock. -/
def Threadpool.Held (cfg : Config) (P : Threadpool) : Prop :=
  ∀ o, P.lock = some o → 0 < P.ahead cfg o

private theorem PoolDoes.held {a : Act} (h : PoolDoes cfg P a P' es) (ho : P.Orderly cfg)
    (hd : P.shutdown = false) (hh : P.Held cfg) : P'.Held cfg := by
  intro o hl'
  cases hl : P.lock with
  | some o₀ =>
    have hpos := hh o₀ hl
    by_cases ha : a.owner = some o₀
    · rcases h.holder ha hl hpos with hfree | ⟨hkept, hpos', -⟩
      · simp [hl'] at hfree
      · obtain rfl := Option.some.inj (hl'.symm.trans hkept)
        exact hpos'
    · obtain ⟨hkept, hsame⟩ := h.other ha ho hd hl
      obtain rfl := Option.some.inj (hl'.symm.trans hkept)
      exact hsame ▸ hpos
  | none =>
    -- Only a thread that has just taken the lock has it now.
    cases h with
    | worker h =>
      cases h with
      | lock | relock =>
        obtain rfl := Option.some.inj hl'
        simp [Owner.ahead, WorkerPc.ahead]
      | _ => simp_all
    | adder h =>
      cases h with
      | lock =>
        obtain rfl := Option.some.inj hl'
        simp [Owner.ahead, AdderPc.ahead]
      | late pc task hp => exact absurd hp (ho.not_late _ pc task)
      | _ => simp_all
    | manager h =>
      cases h with
      | lock =>
        obtain rfl := Option.some.inj hl'
        exact Nat.succ_pos _
      | _ => simp_all
    | destroyer h => cases h <;> simp_all

/-! ### Whole runs -/

/-- Before `shutdown` the lock is held on the way to an unlock, and nobody destroys the pool. -/
private theorem held_before_shutdown (cfg : Config) (taskQueue : Nat → Task)
    (h : (pool cfg).Open (threadpoolCreate cfg taskQueue) τ P) (hd : P.shutdown = false) :
    P.Orderly cfg ∧ P.Held cfg ∧ P.destroyer = .idle := by
  refine before_shutdown (fun _ P ↦ P.Orderly cfg ∧ P.Held cfg ∧ P.destroyer = .idle)
    ⟨threadpoolCreate_orderly cfg taskQueue, fun o ho ↦ (by cases ho), rfl⟩ ?_ h hd
  rintro τ P a P' es hd' - hdoes ⟨ho, hh, hidle⟩
  have hd₀ := hdoes.shutdown_eq_false hd'
  refine ⟨hdoes.orderly hd' ho, hdoes.held ho hd₀ hh, ?_⟩
  by_cases ha : a = .destroyer
  · subst ha
    cases hdoes with
    | destroyer hdes => cases hdes <;> simp_all
  · rw [(hdoes.destroyer_eq ha).2, hidle]

private theorem ahead_le (cfg : Config) (P : Threadpool) (o : Owner) :
    P.ahead cfg o ≤ cfg.maxThrNum + 2 := by
  have hmin := cfg.one_le_min
  have hmax := cfg.min_le_max
  cases o with
  | worker k =>
    simp only [Owner.ahead]
    cases P.workers k <;> simp only [WorkerPc.ahead] <;> omega
  | adder j =>
    simp only [Owner.ahead]
    cases P.adders j <;> simp only [AdderPc.ahead] <;> omega
  | manager =>
    simp only [Owner.ahead]
    cases P.manager <;> simp only [ManagerPc.ahead] <;> omega

/-- A signal wakes some sleeper, or nobody sleeps. -/
private theorem exists_signal (workers : Nat → WorkerPc) (n : Nat) :
    ∃ wake, (signal workers n wake).isSome := by
  by_cases h : ∃ k, workers k = .asleep
  · obtain ⟨k, hk⟩ := h
    exact ⟨some k, by simp [signal, hk]⟩
  · have hnone : ∀ k < n, workers k ≠ .asleep := fun k _ hk ↦ h ⟨k, hk⟩
    exact ⟨none, by simp [signal, if_pos hnone]⟩

private theorem threadpoolThread_isSome (cfg : Config) {k : Nat} (h : 0 < (P.workers k).ahead) :
    (P.threadpoolThread cfg k).isSome := by
  simp only [Threadpool.threadpoolThread]
  cases hk : P.workers k with
  | test =>
    simp only
    split
    · rfl
    · split <;> rfl
  | wait | woken | take => rfl
  | _ => simp [hk, WorkerPc.ahead] at h

private theorem threadpoolAdd_isSome (cfg : Config) {j : Nat} (task : Task)
    (h : 0 < (P.adders j).ahead) : ∃ wake, (P.threadpoolAdd cfg j task wake).isSome := by
  cases hj : P.adders j with
  | test | check =>
    refine ⟨none, ?_⟩
    simp only [Threadpool.threadpoolAdd, hj]
    split <;> rfl
  | wait => exact ⟨none, by simp [Threadpool.threadpoolAdd, hj]⟩
  | body called =>
    obtain ⟨wake, hw⟩ := exists_signal P.workers P.nextTid
    exact ⟨wake, by simpa [Threadpool.threadpoolAdd, hj, Threadpool.enqueue] using hw⟩
  | _ => simp [hj, AdderPc.ahead] at h

private theorem adjustThread_isSome (h : 0 < P.manager.ahead cfg) :
    (P.adjustThread cfg none).isSome := by
  simp only [Threadpool.adjustThread]
  cases hm : P.manager with
  | grow => simp only; split <;> rfl
  | _ => simp [hm, ManagerPc.ahead] at h

/-- The holder can go on. -/
private theorem Threadpool.Held.enabled (hh : P.Held cfg) (hidle : P.destroyer = .idle)
    (hl : P.lock = some o) : ∃ a, a.owner = some o ∧ ((pool cfg).step () P a).isSome := by
  have hpos := hh o hl
  cases o with
  | worker k =>
    have hsome := threadpoolThread_isSome cfg hpos
    exact ⟨.worker k, rfl, by simpa [pool, Threadpool.step, hidle] using hsome⟩
  | adder j =>
    obtain ⟨wake, hsome⟩ := threadpoolAdd_isSome cfg ⟨0, none⟩ hpos
    exact ⟨.adder j ⟨0, none⟩ wake, rfl, by simpa [pool, Threadpool.step, hidle] using hsome⟩
  | manager =>
    have hsome := adjustThread_isSome hpos
    exact ⟨.manager none, rfl, by simpa [pool, Threadpool.step, hidle] using hsome⟩

/-- For every pool and every interleaving before `shutdown`: who has the lock can go on, and in
every continuation in which that thread still has the lock it has made at most as many steps as
there are slots for workers, and two. -/
theorem lock_given_back (cfg : Config) (taskQueue : Nat → Task)
    (h : (pool cfg).Open (threadpoolCreate cfg taskQueue) τ P) (hd : P.shutdown = false)
    (hl : P.lock = some o) :
    (∃ a, a.owner = some o ∧ ((pool cfg).step () P a).isSome) ∧
      ∀ ρ P', (pool cfg).traced.RunIn (fun _ Q _ ↦ Q.lock = some o ∧ Q.shutdown = false) P ρ P' →
        ρ.countP (fun s ↦ s.2.1.owner = some o) ≤ cfg.maxThrNum + 2 := by
  obtain ⟨ho, hh, hidle⟩ := held_before_shutdown cfg taskQueue h hd
  refine ⟨hh.enabled hidle hl, fun ρ P' hrun ↦ ?_⟩
  -- Each step of the holder is paid for by the way that it has come nearer to the unlock.
  have hinv := hrun.invariant (fun ρ Q ↦
      (Q.shutdown = false → Q.Orderly cfg) ∧
      (Q.lock = some o → 0 < Q.ahead cfg o ∧
        ρ.countP (fun s ↦ s.2.1.owner = some o) + Q.ahead cfg o ≤ P.ahead cfg o) ∧
      ρ.countP (fun s ↦ s.2.1.owner = some o) ≤ P.ahead cfg o)
    ⟨fun _ ↦ ho, fun _ ↦ ⟨hh o hl, by simp⟩, by simp⟩ ?_
  · exact Nat.le_trans hinv.2.2 (ahead_le cfg P o)
  rintro ρ Q w a Q' w' es ⟨hord, hpaid, -⟩ ⟨hlock, hup⟩ hs
  obtain ⟨rfl, es', hstep⟩ := Machine.traced_step hs
  have hdoes := poolDoes_of_step hstep
  obtain ⟨hpos, hle⟩ := hpaid hlock
  refine ⟨fun hd' ↦ hdoes.orderly hd' (hord hup), ?_⟩
  rw [List.countP_append]
  by_cases ha : a.owner = some o
  · have hone : [(Q, a, Q')].countP (fun s ↦ s.2.1.owner = some o) = 1 := by simp [ha]
    rw [hone]
    rcases hdoes.holder ha hlock hpos with hfree | ⟨-, hpos', hlt⟩
    · exact ⟨fun hl' ↦ by simp [hfree] at hl', by omega⟩
    · exact ⟨fun _ ↦ ⟨hpos', by omega⟩, by omega⟩
  · have hzero : [(Q, a, Q')].countP (fun s ↦ s.2.1.owner = some o) = 0 := by simp [ha]
    obtain ⟨-, hsame⟩ := hdoes.other ha (hord hup) hup hlock
    rw [hzero, hsame]
    exact ⟨fun _ ↦ ⟨hpos, by omega⟩, by omega⟩

/-- A thread has entered `threadpool_add` and has the lock, while the worker and the manager are
about to ask for it. -/
theorem lock_given_back_by_adder :
    let cfg : Config := ⟨1, 1, 1, by decide, by decide, by decide⟩
    ∃ τ P, (pool cfg).Open (threadpoolCreate cfg (fun _ ↦ ⟨0, none⟩)) τ P ∧
      (P.shutdown = false ∧ P.lock = some (.adder 0) ∧ P.workers 1 = .lock ∧
        P.manager = .snapshot) ∧
      (∃ a, a.owner = some (.adder 0) ∧ ((pool cfg).step () P a).isSome) ∧
      ∀ ρ P', (pool cfg).traced.RunIn
          (fun _ Q _ ↦ Q.lock = some (.adder 0) ∧ Q.shutdown = false) P ρ P' →
        ρ.countP (fun s ↦ s.2.1.owner = some (.adder 0)) ≤ 3 := by
  intro cfg
  obtain ⟨τ, P, hrun, hobs⟩ := Machine.exec_observe (pool cfg) (fun _ _ _ ↦ true)
    (threadpoolCreate cfg (fun _ ↦ ⟨0, none⟩))
    [((), .manager none), ((), .adder 0 ⟨1, none⟩ none), ((), .adder 0 ⟨1, none⟩ none)]
    (fun P _ ↦ P.shutdown = false ∧ P.lock = some (.adder 0) ∧ P.workers 1 = .lock ∧
      P.manager = .snapshot)
    (fun _ _ _ _ ↦ trivial) (by decide)
  exact ⟨τ, P, hrun, hobs, lock_given_back cfg _ hrun hobs.1 hobs.2.1⟩

end DupDistribute.Pool

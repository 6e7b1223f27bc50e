import DupDistribute.Pool.Size

/-!
# Sleepers and shutdown

`threadpool_destroy` (`threadpool.c:286-289`) writes `shutdown` and broadcasts
`queue_not_empty`, both without `pool->lock`, and after that only a worker that is already
about to take a task broadcasts `queue_not_full`. So a worker between its test and its sleep
misses the broadcast, and a thread that waits in `threadpool_add` for room may sleep on.
-/

namespace DupDistribute.Pool

open DupDistribute.Base

variable {cfg : Config} {P P' : Threadpool} {es : List PoolEvent}

/-- `threadpool_destroy` has made its broadcast. -/
def DestroyerPc.hasBroadcast : DestroyerPc → Bool
  | .idle | .broadcast => false
  | _ => true

/-- After the broadcast no worker sleeps, and when all workers have exited no thread sleeps in
`threadpool_add`. -/
structure NobodyStranded (P : Threadpool) : Prop where
  workers : P.destroyer.hasBroadcast = true → ∀ k, P.workers k ≠ .asleep
  adders : P.destroyer.hasBroadcast = true → (∀ k, (P.workers k).live = false) →
    ∀ j task, P.adders j ≠ .asleep task

/-- The worker sleeps, or has decided to. -/
def WorkerPc.dozing : WorkerPc → Bool
  | .wait | .asleep => true
  | _ => false

/-- The thread sleeps in `threadpool_add`, or has decided to. -/
def AdderPc.dozing : AdderPc → Bool
  | .wait _ | .asleep _ => true
  | _ => false

/-- `shutdown` is written while no thread waits for room in `threadpool_add`, and the broadcast
is made while no worker is between its test and its sleep. -/
def Quiet (P : Threadpool) : Act → Prop
  | .destroyer => (P.destroyer = .idle → ∀ j, (P.adders j).dozing = false) ∧
      (P.destroyer = .broadcast → ∀ k, P.workers k ≠ .wait)
  | _ => True

/-- After `shutdown` nobody waits for room, and after the broadcast nobody waits for a task. -/
structure Roused (P : Threadpool) : Prop where
  begun : P.destroyer = .idle ∨ P.shutdown = true
  adders : P.shutdown = true → ∀ j, (P.adders j).dozing = false
  workers : P.destroyer.hasBroadcast = true → ∀ k, (P.workers k).dozing = false

private theorem Roused.shutdown (h : Roused P) (hb : P.destroyer.hasBroadcast = true) :
    P.shutdown = true := by
  refine h.begun.resolve_left fun hp ↦ ?_
  rw [hp] at hb
  cases hb

private theorem dozing_update {workers : Nat → WorkerPc} {k : Nat} {pc : WorkerPc}
    (h : ∀ k, (workers k).dozing = false) (hpc : pc.dozing = false) :
    ∀ k', (Function.update workers k pc k').dozing = false := by
  rw [Function.forall_update_iff workers (fun _ x ↦ x.dozing = false)]
  exact ⟨hpc, fun k' _ ↦ h k'⟩

private theorem dozing_signals {workers workers' : Nat → WorkerPc} {n : Nat}
    (h : ∀ k, (workers k).dozing = false) (hs : Signals workers n workers') :
    ∀ k, (workers' k).dozing = false := by
  cases hs with
  | one k hk => exact dozing_update h rfl
  | lost => exact h

private theorem dozing_updateAdder {adders : Nat → AdderPc} {j : Nat} {pc : AdderPc}
    (h : ∀ j, (adders j).dozing = false) (hpc : pc.dozing = false) :
    ∀ j', (Function.update adders j pc j').dozing = false := by
  rw [Function.forall_update_iff adders (fun _ x ↦ x.dozing = false)]
  exact ⟨hpc, fun j' _ ↦ h j'⟩

private theorem broadcast_dozing {pc : AdderPc} (h : pc.dozing = false) :
    pc.broadcast.dozing = false := by
  cases pc with
  | asleep => cases h
  | _ => exact h

private theorem WorkerDoes.roused {k : Nat} (h : WorkerDoes cfg P k P' es) (hr : Roused P) :
    Roused P' := by
  cases h with
  | empty hp hs hd =>
    -- the test that leads to sleep fails once `shutdown` is set
    refine ⟨hr.begun, hr.adders, fun hb ↦ ?_⟩
    have hd' := hr.shutdown hb
    rw [hd] at hd'
    cases hd'
  | sleep hp =>
    refine ⟨hr.begun, hr.adders, fun hb ↦ ?_⟩
    have hk := hr.workers hb k
    rw [hp] at hk
    cases hk
  | take hp =>
    exact ⟨hr.begun, fun hd j ↦ broadcast_dozing (hr.adders hd j),
      fun hb ↦ dozing_update (hr.workers hb) rfl⟩
  | _ => exact ⟨hr.begun, hr.adders, fun hb ↦ dozing_update (hr.workers hb) rfl⟩

private theorem AdderDoes.roused {j : Nat} {called : Task} (h : AdderDoes cfg P j called P' es)
    (hr : Roused P) : Roused P' := by
  cases h with
  | full task hp hs hd =>
    refine ⟨hr.begun, fun hd' ↦ ?_, hr.workers⟩
    have hne : P.shutdown = true := hd'
    rw [hd] at hne
    cases hne
  | sleep task hp =>
    refine ⟨hr.begun, fun hd ↦ ?_, hr.workers⟩
    have hj := hr.adders hd j
    rw [hp] at hj
    cases hj
  | add task workers hp hs =>
    exact ⟨hr.begun, fun hd ↦ dozing_updateAdder (hr.adders hd) rfl,
      fun hb ↦ dozing_signals (hr.workers hb) hs⟩
  | late pc task hp h =>
    obtain ⟨_, _, _, workers, _, place, rfl, hw, hplace⟩ := h.frame
    have hdoze : place.dozing = false := by
      rcases hplace with rfl | ⟨pc', rfl⟩ <;> rfl
    refine ⟨hr.begun, fun hd ↦ dozing_updateAdder (hr.adders hd) hdoze, fun hb ↦ ?_⟩
    rcases hw with rfl | hs
    · exact hr.workers hb
    · exact dozing_signals (hr.workers hb) hs
  | _ => exact ⟨hr.begun, fun hd ↦ dozing_updateAdder (hr.adders hd) rfl, hr.workers⟩

private theorem ManagerDoes.roused (h : ManagerDoes cfg P P') (hr : Roused P) : Roused P' := by
  cases h with
  | create => exact ⟨hr.begun, hr.adders, fun hb ↦ dozing_update (hr.workers hb) rfl⟩
  | signal i workers hp hi hs =>
    exact ⟨hr.begun, hr.adders, fun hb ↦ dozing_signals (hr.workers hb) hs⟩
  | _ => exact ⟨hr.begun, hr.adders, hr.workers⟩

private theorem broadcast_dozing_worker {pc : WorkerPc} (h : pc ≠ .wait) :
    pc.broadcast.dozing = false := by
  cases pc with
  | wait => exact absurd rfl h
  | _ => rfl

private theorem DestroyerDoes.roused (h : DestroyerDoes P P') (hc : Quiet P .destroyer)
    (hr : Roused P) : Roused P' := by
  cases h with
  | shutdown hp => exact ⟨.inr rfl, fun _ ↦ hc.1 hp, fun hb ↦ (by cases hb)⟩
  | broadcast hp =>
    have hd : P.shutdown = true := hr.begun.resolve_left (by simp [hp])
    exact ⟨.inr hd, hr.adders, fun _ k ↦ broadcast_dozing_worker (hc.2 hp k)⟩
  | more i hp | joined i tid hp | done i hp | free hp =>
    have hb : P.destroyer.hasBroadcast = true := by rw [hp]; rfl
    exact ⟨.inr (hr.shutdown hb), hr.adders, fun _ ↦ hr.workers hb⟩

private theorem PoolDoes.roused {a : Act} (h : PoolDoes cfg P a P' es) (hc : Quiet P a)
    (hr : Roused P) : Roused P' := by
  cases h with
  | worker h => exact h.roused hr
  | adder h => exact h.roused hr
  | manager h => exact h.roused hr
  | destroyer h => exact h.roused hc hr

/-! ### Whole runs -/

/-- For every configuration and every interleaving: if `shutdown` is written while no thread
waits for room and the broadcast is made while no worker is about to sleep, then in every state
after the broadcast no worker sleeps, and no thread sleeps in `threadpool_add` when all workers
have exited. -/
theorem nobodyStranded_if_quiet (cfg : Config) (taskQueue : Nat → Task)
    {τ : List PoolEvent} {P : Threadpool}
    (h : (pool cfg).RunIn (fun _ P a ↦ Quiet P a) (threadpoolCreate cfg taskQueue) τ P) :
    NobodyStranded P := by
  have hr := h.invariant (fun _ P ↦ Roused P)
    ⟨.inl rfl, fun hd ↦ (by cases hd), fun hb ↦ (by cases hb)⟩
    (fun _ _ _ _ _ _ _ hr hc hs ↦ (poolDoes_of_step hs).roused hc hr)
  constructor
  · intro hb k hk
    have hdoze := hr.workers hb k
    rw [hk] at hdoze
    cases hdoze
  · intro hb _ j task hj
    have hdoze := hr.adders (hr.shutdown hb) j
    rw [hj] at hdoze
    cases hdoze

/-- A worker is about to sleep when the broadcast is made: its next step strands it. -/
theorem worker_stranded {k : Nat} (hk : P.workers k = .wait) (hp : P.destroyer = .broadcast) :
    ∃ P' P'', (pool cfg).step () P .destroyer = some (P', (), []) ∧
      (pool cfg).step () P' (.worker k) = some (P'', (), []) ∧ ¬ NobodyStranded P'' := by
  refine ⟨{ P with workers := fun k ↦ (P.workers k).broadcast, destroyer := .test 0 },
    { P with
      lock := none, destroyer := .test 0
      workers := Function.update (fun k ↦ (P.workers k).broadcast) k .asleep }, ?_, ?_, ?_⟩
  · simp only [pool, Threadpool.step, hp, Threadpool.threadpoolDestroy, Option.map_some]
  · simp only [pool, Threadpool.step, Threadpool.threadpoolThread, hk, WorkerPc.broadcast,
      Option.map_some]
    rfl
  · intro h
    exact h.workers rfl k (by simp)

private theorem update_ne_take {workers : Nat → WorkerPc} {k : Nat} {pc : WorkerPc}
    (h : ∀ k, workers k ≠ .take) (hpc : pc ≠ .take) :
    ∀ k', Function.update workers k pc k' ≠ .take := by
  rw [Function.forall_update_iff workers (fun _ x ↦ x ≠ .take)]
  exact ⟨hpc, fun k' _ ↦ h k'⟩

private theorem signals_ne_take {workers workers' : Nat → WorkerPc} {n : Nat}
    (h : ∀ k, workers k ≠ .take) (hs : Signals workers n workers') : ∀ k, workers' k ≠ .take := by
  cases hs with
  | one k hk => exact update_ne_take h (by simp)
  | lost => exact h

/-- After `shutdown` no worker gets to take a task that is not about to take one. -/
private theorem PoolDoes.ne_take {a : Act} (h : PoolDoes cfg P a P' es)
    (hd : P.shutdown = true) (hw : ∀ k, P.workers k ≠ .take) : ∀ k, P'.workers k ≠ .take := by
  cases h with
  | worker h =>
    cases h with
    | goOn _ _ hd' => simp [hd] at hd'
    | _ => exact update_ne_take hw (by simp)
  | adder h =>
    cases h with
    | add task workers hp hs => exact signals_ne_take hw hs
    | late pc task hp h =>
      obtain ⟨_, _, _, workers, _, _, rfl, hw', -⟩ := h.frame
      rcases hw' with rfl | hs
      · exact hw
      · exact signals_ne_take hw hs
    | _ => exact hw
  | manager h =>
    cases h with
    | create => exact update_ne_take hw (by simp)
    | signal i workers hp hi hs => exact signals_ne_take hw hs
    | _ => exact hw
  | destroyer h =>
    cases h with
    | broadcast =>
      intro k hk
      have hne := hw k
      cases hpc : P.workers k <;> simp_all [WorkerPc.broadcast]
    | _ => exact hw

/-- A thread that sleeps in `threadpool_add` is woken by a worker that takes a task, or by
itself. -/
private theorem PoolDoes.asleep {a : Act} {j : Nat} {task : Task} (h : PoolDoes cfg P a P' es)
    (ha : ∀ called wake, a ≠ .adder j called wake) (hw : ∀ k, P.workers k ≠ .take)
    (hj : P.adders j = .asleep task) : P'.adders j = .asleep task := by
  cases h with
  | worker h =>
    cases h with
    | take hp => exact absurd hp (hw _)
    | _ => exact hj
  | @adder j' called wake _ _ h =>
    have hne : j ≠ j' := by
      rintro rfl
      exact ha called wake rfl
    cases h with
    | late pc task' hp h =>
      obtain ⟨_, _, _, _, _, _, rfl, -, -⟩ := h.frame
      simpa [Function.update_of_ne hne] using hj
    | _ => simpa [Function.update_of_ne hne] using hj
  | manager h => cases h <;> exact hj
  | destroyer h => cases h <;> exact hj

/-- After `shutdown`, when no worker is about to take a task, a thread that sleeps in
`threadpool_add` sleeps on, whatever the others do. -/
theorem adder_stranded {j : Nat} {task : Task} {τ : List PoolEvent}
    (hd : P.shutdown = true) (hw : ∀ k, P.workers k ≠ .take) (hj : P.adders j = .asleep task)
    (h : (pool cfg).RunIn (fun _ _ a ↦ ∀ called wake, a ≠ .adder j called wake) P τ P') :
    P'.adders j = .asleep task := by
  have hinv := h.invariant (fun _ Q ↦ Q.shutdown = true ∧ (∀ k, Q.workers k ≠ .take) ∧
    Q.adders j = .asleep task) ⟨hd, hw, hj⟩ ?_
  · exact hinv.2.2
  rintro τ Q w a Q' w' es ⟨hd, hw, hj⟩ hc hs
  have hdoes := poolDoes_of_step hs
  refine ⟨?_, hdoes.ne_take hd hw, hdoes.asleep hc hw hj⟩
  by_contra hd'
  have hup := hdoes.shutdown_eq_false (by simpa using hd')
  simp [hd] at hup

/-- One worker and one slot: the worker finds the queue empty, `threadpool_destroy` writes
`shutdown` and broadcasts, and then the worker goes to sleep. And with the slot full and a
second add waiting for room: the worker exits and the add sleeps on. -/
theorem stranded_by_shutdown :
    let cfg : Config := ⟨1, 1, 1, by decide, by decide, by decide⟩
    let P₀ := threadpoolCreate cfg (fun _ ↦ ⟨0, none⟩)
    (∃ τ P, (pool cfg).Open P₀ τ P ∧
      (P.destroyer = .join 0 1 ∧ P.threads 0 = 1 ∧ P.workers 1 = .asleep) ∧ ¬ NobodyStranded P) ∧
    ∃ τ P, (pool cfg).Open P₀ τ P ∧
      (P.destroyer = .free ∧ P.workers 1 = .terminated ∧ P.adders 1 = .asleep ⟨2, none⟩) := by
  intro cfg P₀
  constructor
  · obtain ⟨τ, P, hrun, hobs⟩ := Machine.exec_observe (pool cfg) (fun _ _ _ ↦ true) P₀
      (List.replicate 2 ((), .worker 1) ++ List.replicate 2 ((), .destroyer) ++
        [((), .worker 1), ((), .destroyer)])
      (fun P _ ↦ P.destroyer = .join 0 1 ∧ P.threads 0 = 1 ∧ P.workers 1 = .asleep)
      (fun _ _ _ _ ↦ trivial) (by decide +kernel)
    refine ⟨τ, P, hrun, hobs, fun hn ↦ ?_⟩
    exact hn.workers (by rw [hobs.1]; rfl) 1 hobs.2.2
  · exact Machine.exec_observe (pool cfg) (fun _ _ _ ↦ true) P₀
      (List.replicate 5 ((), .adder 0 ⟨1, none⟩ none) ++
        List.replicate 4 ((), .adder 1 ⟨2, none⟩ none) ++ List.replicate 2 ((), .destroyer) ++
        List.replicate 3 ((), .worker 1) ++ List.replicate 3 ((), .destroyer))
      (fun P _ ↦ P.destroyer = .free ∧ P.workers 1 = .terminated ∧
        P.adders 1 = .asleep ⟨2, none⟩)
      (fun _ _ _ _ ↦ trivial) (by decide +kernel)

/-- The worker sleeps before `threadpool_destroy` begins, and the broadcast wakes it. -/
theorem nobodyStranded_sleeping_worker :
    let cfg : Config := ⟨1, 1, 1, by decide, by decide, by decide⟩
    let P₀ := threadpoolCreate cfg (fun _ ↦ ⟨0, none⟩)
    ∃ τ P, (pool cfg).RunIn (fun _ P a ↦ Quiet P a) P₀ τ P ∧
      (P.destroyer = .test 0 ∧ P.workers 1 = .signalled) ∧ NobodyStranded P := by
  intro cfg P₀
  let P₁ : Threadpool :=
    { P₀ with lock := some (.worker 1), workers := Function.update P₀.workers 1 .test }
  let P₂ : Threadpool := { P₁ with workers := Function.update P₁.workers 1 .wait }
  let P₃ : Threadpool :=
    { P₂ with lock := none, workers := Function.update P₂.workers 1 .asleep }
  let P₄ : Threadpool := { P₃ with shutdown := true, destroyer := .broadcast }
  let P₅ : Threadpool :=
    { P₄ with workers := fun k ↦ (P₄.workers k).broadcast, destroyer := .test 0 }
  have h₁ : (pool cfg).step () P₀ (.worker 1) = some (P₁, (), []) := rfl
  have h₂ : (pool cfg).step () P₁ (.worker 1) = some (P₂, (), []) := rfl
  have h₃ : (pool cfg).step () P₂ (.worker 1) = some (P₃, (), []) := rfl
  have h₄ : (pool cfg).step () P₃ .destroyer = some (P₄, (), []) := rfl
  have h₅ : (pool cfg).step () P₄ .destroyer = some (P₅, (), []) := rfl
  have hq₃ : Quiet P₃ .destroyer := ⟨fun _ _ ↦ rfl, fun hp ↦ (by cases hp)⟩
  have hwait (k : Nat) : P₄.workers k ≠ .wait := by
    by_cases hk : k = 1
    · subst hk
      decide
    · simp only [P₄, P₃, P₂, P₁, Function.update_of_ne hk]
      simp only [P₀, threadpoolCreate]
      split <;> simp
  have hq₄ : Quiet P₄ .destroyer := ⟨fun hp ↦ (by cases hp), fun _ ↦ hwait⟩
  let run := (pool cfg).RunIn (fun _ P a ↦ Quiet P a)
  have hq (P : Threadpool) : Quiet P (.worker 1) := trivial
  have hr₁ : run P₀ [] P₁ := .single (hq _) h₁
  have hr₂ : run P₁ [] P₂ := .single (hq _) h₂
  have hr₃ : run P₂ [] P₃ := .single (hq _) h₃
  have hr₄ : run P₃ [] P₄ := .single hq₃ h₄
  have hr₅ : run P₄ [] P₅ := .single hq₄ h₅
  have hrun := (((hr₁.trans hr₂).trans hr₃).trans hr₄).trans hr₅
  exact ⟨_, P₅, hrun, ⟨rfl, rfl⟩, nobodyStranded_if_quiet cfg _ hrun⟩

end DupDistribute.Pool

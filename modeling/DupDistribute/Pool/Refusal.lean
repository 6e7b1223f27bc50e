import DupDistribute.Pool.Queue

/-!
# Adding to a pool that is shut down

`threadpool_add` tests `shutdown` under the lock (`threadpool.c:231-234`) and, if it is set,
releases the lock. It does not return there: it goes on to write the task into the queue and
releases the lock again (`threadpool.c:237-251`), without having it. So no call that finds
`shutdown` set is refused, and as long as none does the lock protects the queue. Such a call
adds its task statement by statement, while others may change the queue.
-/

namespace DupDistribute.Pool

open DupDistribute.Base

variable {cfg : Config} {P P' : Threadpool} {es : List PoolEvent}

/-- A step of the pool as it is recorded. -/
abbrev PoolStep := Threadpool × Act × Threadpool

/-- Thread `j` acts in `threadpool_add`. -/
def Act.isAdder (j : Nat) : Act → Bool
  | .adder j' _ _ => j' = j
  | _ => false

/-- In the step thread `j` finds `shutdown` set, `threadpool.c:231`. -/
def FindsShutdown (j : Nat) (s : PoolStep) : Prop :=
  s.2.1.isAdder j = true ∧ s.1.shutdown = true ∧ ∃ task, s.1.adders j = .check task

/-- In the step thread `j` calls `pthread_mutex_unlock(&pool->lock)`, `threadpool.c:233,251`. -/
def unlocks (j : Nat) (s : PoolStep) : Bool :=
  s.2.1.isAdder j && match s.1.adders j with
    | .check _ => s.1.shutdown
    | .body _ | .late .unlock _ => true
    | _ => false

/-- What all threads do from the moment thread `j` finds `shutdown` set until its call
returns. -/
structure RefusedCall (j : Nat) (call : List PoolStep) : Prop where
  finds : ∃ s ∈ call.head?, FindsShutdown j s
  returns : ∃ s ∈ call.getLast?, s.2.1.isAdder j = true ∧ s.2.2.adders j = .idle
  inside : ∀ s ∈ call.dropLast, s.2.2.adders j ≠ .idle

/-- The step leaves the queue as it was. -/
def SameQueue (s : PoolStep) : Prop :=
  s.2.2.taskQueue = s.1.taskQueue ∧ s.2.2.queueFront = s.1.queueFront ∧
    s.2.2.queueRear = s.1.queueRear ∧ s.2.2.queueSize = s.1.queueSize

/-- The call leaves the queue as it was and releases the lock once. -/
structure CleanCall (j : Nat) (call : List PoolStep) : Prop where
  same : ∀ s ∈ call, s.2.1.isAdder j = true → SameQueue s
  once : call.countP (unlocks j) = 1

/-- The step leaves every slot with a task not yet taken as it was. -/
def KeepsTasks (cfg : Config) (s : PoolStep) : Prop :=
  ringContents s.2.2.taskQueue cfg.queueMaxSize s.1.queueFront s.1.queueSize.toNat =
    s.1.contents cfg

/-- Every call that finds `shutdown` set is clean, the queue never holds more than its capacity,
and no task is overwritten before it is taken. -/
structure RefusesCleanly (cfg : Config) (ρ : List PoolStep) : Prop where
  calls : ∀ j before call after, ρ = before ++ call ++ after → RefusedCall j call →
    CleanCall j call
  bounded : ∀ s ∈ ρ, s.2.2.queueSize ≤ cfg.queueMaxSize
  kept : ∀ s ∈ ρ, KeepsTasks cfg s

/-! ### One step -/

private theorem PoolDoes.keepsTasks {a : Act} {τ : List PoolEvent} (h : PoolDoes cfg P a P' es)
    (ho : P.Disciplined cfg) (hq : Queued cfg τ P) : KeepsTasks cfg (P, a, P') := by
  cases h with
  | @adder j called wake _ _ h =>
    cases h with
    | add task workers hp =>
      have hj := ho.adders j
      rw [hp] at hj
      have hlt : P.queueSize.toNat < cfg.queueMaxSize := by
        have hne : P.queueSize ≠ cfg.queueMaxSize := hj.2
        have := hq.le_max
        have := hq.nonneg
        omega
      simp only [KeepsTasks, Threadpool.contents, hq.rear]
      exact ringContents_update_rear task hlt
    | late pc task hp => exact absurd hp (ho.not_late j pc task)
    | _ => rfl
  | worker h => cases h <;> rfl
  | manager h => cases h <;> rfl
  | destroyer h => cases h <;> rfl

/-- A step that ends a call releases the lock. -/
private theorem PoolDoes.returns_unlocks {a : Act} {j : Nat} (h : PoolDoes cfg P a P' es)
    (ha : a.isAdder j = true) (hi : P'.adders j = .idle) : unlocks j (P, a, P') = true := by
  cases h with
  | @adder j' called wake _ _ h =>
    obtain rfl : j' = j := by simpa [Act.isAdder] using ha
    cases h with
    | add task workers hp => simp [unlocks, Act.isAdder, hp]
    | late pc task hp h =>
      cases h with
      | unlock => simp [unlocks, Act.isAdder, hp]
      | _ => simp at hi
    | _ => simp at hi
  | worker | manager | destroyer => cases ha

/-- The task is not yet counted. -/
def LatePc.uncounted : LatePc → Bool
  | .signal | .unlock => false
  | _ => true

/-- A call that goes on without the lock counts its task, or has that still before it. -/
private theorem PoolDoes.late {a : Act} {j : Nat} {pc : LatePc} {task : Task}
    (h : PoolDoes cfg P a P' es) (hp : P.adders j = .late pc task)
    (hpc : pc.uncounted = true) :
    a.isAdder j = true ∧ P'.queueSize = P.queueSize + 1 ∨
      ∃ pc', pc'.uncounted = true ∧ P'.adders j = .late pc' task := by
  cases h with
  | worker h =>
    refine .inr ⟨pc, hpc, ?_⟩
    cases h with
    | take => simp only [hp, AdderPc.broadcast]
    | _ => exact hp
  | @adder j' called wake _ _ h =>
    by_cases hj : j = j'
    · subst hj
      cases h with
      | late pc' task' hp' h =>
        rw [hp] at hp'
        cases hp'
        cases h with
        | size => exact .inl ⟨by simp [Act.isAdder], rfl⟩
        | signal | unlock => cases hpc
        | _ => exact .inr ⟨_, rfl, Function.update_self ..⟩
      | lock task' hp' => simp [hp] at hp'
      | call hp' | full _ hp' | goOn _ hp' | sleep _ hp' | wake _ hp' | shut _ hp' | up _ hp'
      | add _ _ hp' => simp [hp] at hp'
    · refine .inr ⟨pc, hpc, ?_⟩
      cases h with
      | late pc' task' hp' h =>
        obtain ⟨_, _, _, _, _, _, rfl, -, -⟩ := h.frame
        simpa [Function.update_of_ne hj] using hp
      | _ => simpa [Function.update_of_ne hj] using hp
  | manager h =>
    refine .inr ⟨pc, hpc, ?_⟩
    cases h <;> exact hp
  | destroyer h =>
    refine .inr ⟨pc, hpc, ?_⟩
    cases h <;> exact hp

/-- A call that finds `shutdown` set goes on without the lock. -/
private theorem FindsShutdown.goesOn {s : PoolStep} {j : Nat} (hf : FindsShutdown j s)
    (h : PoolDoes cfg s.1 s.2.1 s.2.2 es) :
    unlocks j s = true ∧ ∃ task, s.2.2.adders j = .late .free task := by
  obtain ⟨Q, a, Q'⟩ := s
  obtain ⟨ha, hd, task, hcheck⟩ := hf
  simp only at ha hd hcheck h
  refine ⟨by simp [unlocks, ha, hcheck, hd], task, ?_⟩
  cases h with
  | @adder j' called wake _ _ h =>
    obtain rfl : j' = j := by simpa [Act.isAdder] using ha
    cases h with
    | shut task' hp' =>
      rw [hcheck] at hp'
      cases hp'
      exact Function.update_self ..
    | up _ _ hd' => simp [hd] at hd'
    | lock task' hp' => simp [hcheck] at hp'
    | call hp' | full _ hp' | goOn _ hp' | sleep _ hp' | wake _ hp' | add _ _ hp'
    | late _ _ hp' => simp [hcheck] at hp'
  | worker | manager | destroyer => cases ha

/-! ### Whole runs -/

/-- Every recorded step is one of the pool's. -/
private theorem does_of_mem {ρ : List PoolStep} {P₀ : Threadpool}
    (h : (pool cfg).traced.Open P₀ ρ P) : ∀ s ∈ ρ, ∃ es, PoolDoes cfg s.1 s.2.1 s.2.2 es := by
  have hall := h.traced_forall (fun _ ↦ True) (fun _ ↦ True)
    (fun s ↦ ∃ es, PoolDoes cfg s.1 s.2.1 s.2.2 es) trivial
    (fun _ _ _ _ _ es _ _ hs _ ↦ ⟨trivial, es, poolDoes_of_step hs⟩) (fun _ _ ↦ trivial)
  exact hall.2

/-- Between the place where a call has released the lock and its return it counts its task. -/
private theorem adds_of_late {j : Nat} {task : Task} {call : List PoolStep} {pc : LatePc}
    (hdoes : ∀ s ∈ call, ∃ es, PoolDoes cfg s.1 s.2.1 s.2.2 es)
    (hchain : call.IsChain (fun x y ↦ x.2.2 = y.1)) (hfirst : ∀ s ∈ call.head?, s.1 = P)
    (hp : P.adders j = .late pc task) (hpc : pc.uncounted = true)
    (hlast : ∃ s ∈ call.getLast?, s.2.2.adders j = .idle) :
    ∃ s ∈ call, s.2.1.isAdder j = true ∧ s.2.2.queueSize = s.1.queueSize + 1 := by
  induction call generalizing P pc with
  | nil => simp at hlast
  | cons s rest ih =>
    obtain rfl : s.1 = P := hfirst s rfl
    obtain ⟨es, hs⟩ := hdoes s (by simp)
    rcases hs.late hp hpc with hadds | ⟨pc', hpc', hp'⟩
    · exact ⟨s, by simp, hadds⟩
    · have hrest : ∃ x ∈ rest.getLast?, x.2.2.adders j = .idle := by
        cases rest with
        | nil =>
          obtain ⟨x, hx, hidle⟩ := hlast
          obtain rfl : s = x := by simpa using hx
          simp [hp'] at hidle
        | cons y more => simpa using hlast
      obtain ⟨hhead, hchain'⟩ := List.isChain_cons.mp hchain
      obtain ⟨x, hx, hadds⟩ := ih (fun x hx ↦ hdoes x (by simp [hx])) hchain'
        (fun x hx ↦ (hhead x hx).symm) hp' hpc' hrest
      exact ⟨x, by simp [hx], hadds⟩

private theorem protected_if_none_found {ρ : List PoolStep} {taskQueue : Nat → Task}
    (h : (pool cfg).traced.Open (threadpoolCreate cfg taskQueue) ρ P)
    (hn : ∀ s ∈ ρ, ∀ j, ¬ FindsShutdown j s) :
    ∀ s ∈ ρ, s.2.2.queueSize ≤ cfg.queueMaxSize ∧ KeepsTasks cfg s := by
  have hall := h.traced_forall (fun P ↦ P.Disciplined cfg ∧ ∃ τ, Queued cfg τ P)
    (fun s ↦ ∀ j, ¬ FindsShutdown j s)
    (fun s ↦ s.2.2.queueSize ≤ cfg.queueMaxSize ∧ KeepsTasks cfg s)
    ⟨(disciplined_iff_orderly rfl).mpr (threadpoolCreate_orderly cfg taskQueue),
      [], threadpoolCreate_queued cfg taskQueue⟩ ?_ hn
  · exact hall.2
  rintro P w a P' w' es ⟨ho, τ, hq⟩ - hs hns
  have hdoes := poolDoes_of_step hs
  have ho' : P'.Disciplined cfg := by
    refine hdoes.disciplined ?_ ho
    cases a with
    | adder j called wake => exact fun hd task hp ↦ hns j ⟨by simp [Act.isAdder], hd, task, hp⟩
    | _ => trivial
  have hq' := hdoes.queued ho hq
  exact ⟨⟨ho', _, hq'⟩, hq'.le_max, hdoes.keepsTasks ho hq⟩

/-- For every configuration and every run: as long as no thread finds `shutdown` set in
`threadpool_add`, the queue keeps within its capacity and no task is overwritten before it is
taken. And every call that finds `shutdown` set and returns has added its task and released
the lock twice. -/
theorem refusesCleanly_if_none_found (cfg : Config) (taskQueue : Nat → Task)
    {ρ : List PoolStep} {P : Threadpool}
    (h : (pool cfg).traced.Open (threadpoolCreate cfg taskQueue) ρ P) :
    ((∀ s ∈ ρ, ∀ j, ¬ FindsShutdown j s) → RefusesCleanly cfg ρ) ∧
      ∀ j before call after, ρ = before ++ call ++ after → RefusedCall j call →
        (∃ s ∈ call, s.2.1.isAdder j = true ∧ s.2.2.queueSize = s.1.queueSize + 1) ∧
          2 ≤ call.countP (unlocks j) := by
  constructor
  · intro hn
    have hprot := protected_if_none_found h hn
    refine ⟨?_, fun s hs ↦ (hprot s hs).1, fun s hs ↦ (hprot s hs).2⟩
    rintro j before call after rfl hcall
    obtain ⟨s, hs, hf⟩ := hcall.finds
    have hmem : s ∈ call := List.mem_of_mem_head? hs
    exact absurd hf (hn s (by simp [hmem]) j)
  · rintro j before call after rfl hcall
    obtain ⟨first, hfirst, hf⟩ := hcall.finds
    obtain ⟨last, hlast, ha, hi⟩ := hcall.returns
    have hdoes : ∀ s ∈ call, ∃ es, PoolDoes cfg s.1 s.2.1 s.2.2 es :=
      fun s hs ↦ does_of_mem h s (by simp [hs])
    have hchain : call.IsChain (fun x y ↦ x.2.2 = y.1) :=
      h.traced_chain.left_of_append.right_of_append
    cases call with
    | nil => cases hfirst
    | cons s rest =>
      obtain rfl : s = first := by simpa using hfirst
      obtain ⟨es, hs⟩ := hdoes s (by simp)
      obtain ⟨hunlocks, task, hlate⟩ := hf.goesOn hs
      -- the call has not returned with its first step
      have hrest : last ∈ rest.getLast? := by
        cases rest with
        | nil =>
          obtain rfl : s = last := by simpa using hlast
          simp [hlate] at hi
        | cons y more => simpa using hlast
      have hmem : last ∈ rest := List.mem_of_mem_getLast? hrest
      obtain ⟨es', hlastDoes⟩ := hdoes last (by simp [hmem])
      obtain ⟨hhead, hchain'⟩ := List.isChain_cons.mp hchain
      obtain ⟨x, hx, hadds⟩ := adds_of_late (fun x hx ↦ hdoes x (by simp [hx])) hchain'
        (fun x hx ↦ (hhead x hx).symm) hlate rfl ⟨last, hrest, hi⟩
      refine ⟨⟨x, by simp [hx], hadds⟩, ?_⟩
      have hone : 0 < rest.countP (unlocks j) :=
        List.countP_pos_iff.mpr ⟨last, hmem, hlastDoes.returns_unlocks ha hi⟩
      rw [List.countP_cons_of_pos hunlocks]
      omega

/-- A queue of one slot holds a task when `shutdown` is set. The next call of `threadpool_add`
writes its task over it and counts two tasks. -/
theorem refused_task_added :
    let cfg : Config := ⟨1, 1, 1, by decide, by decide, by decide⟩
    let second : Task := ⟨2, none⟩
    ∃ ρ P, (pool cfg).traced.Open (threadpoolCreate cfg (fun _ ↦ ⟨0, none⟩)) ρ P ∧
      (P.queueSize = 2 ∧ P.taskQueue 0 = second ∧ P.adders 1 = .idle ∧
        ρ.any (fun s ↦ 1 < s.2.2.queueSize) = true) ∧ ¬ RefusesCleanly cfg ρ := by
  intro cfg second
  obtain ⟨ρ, P, hrun, hobs⟩ := Machine.exec_observe (pool cfg).traced (fun _ _ _ ↦ true)
    (threadpoolCreate cfg (fun _ ↦ ⟨0, none⟩))
    (List.replicate 5 ((), .adder 0 ⟨1, none⟩ none) ++ [((), .destroyer)] ++
      List.replicate 11 ((), .adder 1 second none))
    (fun P ρ ↦ P.queueSize = 2 ∧ P.taskQueue 0 = second ∧ P.adders 1 = .idle ∧
      ρ.any (fun s ↦ 1 < s.2.2.queueSize) = true)
    (fun _ _ _ _ ↦ trivial) (by decide +kernel)
  refine ⟨ρ, P, hrun, hobs, fun hclean ↦ ?_⟩
  obtain ⟨s, hs, hlt⟩ := List.any_eq_true.mp hobs.2.2.2
  have hle : s.2.2.queueSize ≤ 1 := hclean.bounded s hs
  have hgt : 1 < s.2.2.queueSize := of_decide_eq_true hlt
  omega

/-- A task is added, then `shutdown` is set and the worker exits. -/
theorem refusesCleanly_no_late_call :
    let cfg : Config := ⟨1, 1, 1, by decide, by decide, by decide⟩
    ∃ ρ P, (pool cfg).traced.Open (threadpoolCreate cfg (fun _ ↦ ⟨0, none⟩)) ρ P ∧
      (P.shutdown = true ∧ P.queueSize = 1 ∧ P.workers 1 = .terminated) ∧
      RefusesCleanly cfg ρ := by
  intro cfg
  let early (s : PoolStep) : Bool := match s.2.1 with
    | .adder .. => !s.1.shutdown
    | _ => true
  obtain ⟨ρ, P, hrun, hobs, hearly⟩ := Machine.exec_observe (pool cfg).traced
    (fun _ _ _ ↦ true) (threadpoolCreate cfg (fun _ ↦ ⟨0, none⟩))
    (List.replicate 5 ((), .adder 0 ⟨1, none⟩ none) ++ List.replicate 2 ((), .destroyer) ++
      List.replicate 3 ((), .worker 1))
    (fun P ρ ↦ (P.shutdown = true ∧ P.queueSize = 1 ∧ P.workers 1 = .terminated) ∧
      ρ.all early = true)
    (fun _ _ _ _ ↦ trivial) (by decide +kernel)
  have hnone : ∀ s ∈ ρ, ∀ j, ¬ FindsShutdown j s := by
    rintro ⟨Q, a, Q'⟩ hs j ⟨ha, hd, -⟩
    have he := List.all_eq_true.mp hearly _ hs
    cases a with
    | adder => simp [early, show Q.shutdown = true from hd] at he
    | worker | manager | destroyer => cases ha
  exact ⟨ρ, P, hrun, hobs, (refusesCleanly_if_none_found cfg _ hrun).1 hnone⟩

end DupDistribute.Pool

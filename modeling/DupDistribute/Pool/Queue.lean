import DupDistribute.Base.Ring
import DupDistribute.Pool.Threadpool

/-!
# The queue of the pool

Before `shutdown` a thread reads and writes the queue only while it holds `pool->lock`: its
place in the code tells that it has the lock, and what its last test of `queue_size` found
still holds (`Orderly`). After `shutdown` the test of `threadpool_add` passes without regard to
`queue_size` (`Disciplined`). Under that discipline the ring of tasks is a first-in first-out
queue: what was taken, followed by what is in the ring, is what was added (`Queued`).
-/

namespace DupDistribute.Pool

open DupDistribute.Base

variable {cfg : Config} {P P' : Threadpool} {es : List PoolEvent}

/-! ### The lock -/

/-- What a worker's place says of the lock and of `queue_size`. -/
def WorkerPc.Ok (k : Nat) (lock : Option Owner) (size : Int) : WorkerPc → Prop
  | .test | .woken => lock = some (.worker k)
  | .wait => lock = some (.worker k) ∧ size = 0
  | .take => lock = some (.worker k) ∧ size ≠ 0
  | _ => True

/-- What the place of a thread in `threadpool_add` says of them. -/
def AdderPc.Ok (cfg : Config) (j : Nat) (lock : Option Owner) (size : Int) : AdderPc → Prop
  | .test _ | .wait _ => lock = some (.adder j)
  | .check _ | .body _ => lock = some (.adder j) ∧ size ≠ cfg.queueMaxSize
  | .late .. => False
  | _ => True

/-- The manager holds the lock while it creates workers. -/
def ManagerPc.Ok (lock : Option Owner) : ManagerPc → Prop
  | .grow .. => lock = some .manager
  | _ => True

/-- Every thread is where the lock and `queue_size` allow it to be. -/
structure Orderly (cfg : Config) (lock : Option Owner) (size : Int) (workers : Nat → WorkerPc)
    (adders : Nat → AdderPc) (manager : ManagerPc) : Prop where
  workers : ∀ k, (workers k).Ok k lock size
  adders : ∀ j, (adders j).Ok cfg j lock size
  manager : manager.Ok lock

/-- The discipline for the state of the pool. -/
abbrev Threadpool.Orderly (cfg : Config) (P : Threadpool) : Prop :=
  Pool.Orderly cfg P.lock P.queueSize P.workers P.adders P.manager

section
variable {lock lock' : Option Owner} {size size' : Int} {workers workers' : Nat → WorkerPc}
  {adders : Nat → AdderPc} {manager : ManagerPc} {o : Owner}

/-- A thread changes the lock and `queue_size` only when it takes the lock or has it. -/
def Allowed (o : Owner) (lock lock' : Option Owner) (size size' : Int) : Prop :=
  lock = none ∨ lock = some o ∨ lock' = lock ∧ size' = size

/-- Neither changes. -/
theorem allowed_same : Allowed o lock lock size size := .inr (.inr ⟨rfl, rfl⟩)

private theorem WorkerPc.Ok.frame {k : Nat} {pc : WorkerPc} (h : pc.Ok k lock size)
    (ha : Allowed o lock lock' size size') (hne : Owner.worker k ≠ o) :
    pc.Ok k lock' size' := by
  rcases ha with rfl | rfl | ⟨rfl, rfl⟩
  · cases pc <;> simp_all [WorkerPc.Ok]
  · cases pc <;> simp_all [WorkerPc.Ok, Ne.symm hne]
  · exact h

private theorem AdderPc.Ok.frame {j : Nat} {pc : AdderPc} (h : pc.Ok cfg j lock size)
    (ha : Allowed o lock lock' size size') (hne : Owner.adder j ≠ o) :
    pc.Ok cfg j lock' size' := by
  rcases ha with rfl | rfl | ⟨rfl, rfl⟩
  · cases pc <;> simp_all [AdderPc.Ok]
  · cases pc <;> simp_all [AdderPc.Ok, Ne.symm hne]
  · exact h

private theorem ManagerPc.Ok.frame {pc : ManagerPc} (h : pc.Ok lock)
    (ha : Allowed o lock lock' size size') (hne : Owner.manager ≠ o) : pc.Ok lock' := by
  rcases ha with rfl | rfl | ⟨rfl, rfl⟩
  · cases pc <;> simp_all [ManagerPc.Ok]
  · cases pc <;> simp_all [ManagerPc.Ok, Ne.symm hne]
  · exact h

/-- A worker moves. -/
theorem Orderly.setWorker {k : Nat} {pc : WorkerPc}
    (h : Orderly cfg lock size workers adders manager)
    (ha : Allowed (.worker k) lock lock' size size') (hpc : pc.Ok k lock' size') :
    Orderly cfg lock' size' (Function.update workers k pc) adders manager := by
  refine ⟨?_, fun j ↦ (h.adders j).frame ha (by simp), h.manager.frame ha (by simp)⟩
  rw [Function.forall_update_iff workers (fun k pc ↦ pc.Ok k lock' size')]
  exact ⟨hpc, fun k' hne ↦ (h.workers k').frame ha (by simpa using hne)⟩

private theorem Orderly.setAdder {j : Nat} {pc : AdderPc}
    (h : Orderly cfg lock size workers adders manager)
    (ha : Allowed (.adder j) lock lock' size size') (hpc : pc.Ok cfg j lock' size') :
    Orderly cfg lock' size' workers (Function.update adders j pc) manager := by
  refine ⟨fun k ↦ (h.workers k).frame ha (by simp), ?_, h.manager.frame ha (by simp)⟩
  rw [Function.forall_update_iff adders (fun j pc ↦ pc.Ok cfg j lock' size')]
  exact ⟨hpc, fun j' hne ↦ (h.adders j').frame ha (by simpa using hne)⟩

private theorem Orderly.setManager {pc : ManagerPc}
    (h : Orderly cfg lock size workers adders manager)
    (ha : Allowed .manager lock lock' size size) (hpc : pc.Ok lock') :
    Orderly cfg lock' size workers adders pc :=
  ⟨fun k ↦ (h.workers k).frame ha (by simp), fun j ↦ (h.adders j).frame ha (by simp), hpc⟩

end

/-! ### After shutdown -/

/-- Where a thread is in `threadpool_add`, as far as its last test counts: past the test
`shutdown` excuses it. -/
def AdderPc.lax (shutdown : Bool) : AdderPc → AdderPc
  | .check task => if shutdown then .test task else .check task
  | pc => pc

/-- The discipline in all states: before `shutdown` it is `Orderly`, and after it the threads
that passed the test of `threadpool_add` need not have found `queue_size` right. -/
def Threadpool.Disciplined (cfg : Config) (P : Threadpool) : Prop :=
  Pool.Orderly cfg P.lock P.queueSize P.workers (fun j ↦ (P.adders j).lax P.shutdown) P.manager

private theorem AdderPc.lax_false (pc : AdderPc) : pc.lax false = pc := by
  cases pc <;> rfl

/-- Before `shutdown` nothing is excused. -/
theorem disciplined_iff_orderly (hd : P.shutdown = false) :
    P.Disciplined cfg ↔ P.Orderly cfg := by
  simp only [Threadpool.Disciplined, hd, AdderPc.lax_false]

/-- In no step that is taken a call of `threadpool_add` finds `shutdown` set. -/
def Unrefused (P : Threadpool) : Act → Prop
  | .adder j _ _ => P.shutdown = true → ∀ task, P.adders j ≠ .check task
  | _ => True

/-- Under the discipline no call goes on without the lock. -/
theorem Threadpool.Disciplined.not_late (h : P.Disciplined cfg) (j : Nat) (pc : LatePc)
    (task : Task) : P.adders j ≠ .late pc task := by
  intro hp
  have hj := h.adders j
  rw [hp] at hj
  exact hj

/-- Before `shutdown` none does. -/
theorem Orderly.not_late (h : P.Orderly cfg) (j : Nat) (pc : LatePc) (task : Task) :
    P.adders j ≠ .late pc task := by
  intro hp
  have hj := h.adders j
  rw [hp] at hj
  exact hj

section
variable {lock lock' : Option Owner} {size size' : Int} {workers workers' : Nat → WorkerPc}
  {adders : Nat → AdderPc} {manager : ManagerPc} {shutdown : Bool}

private theorem Orderly.laxAdder {j : Nat} {pc : AdderPc}
    (h : Orderly cfg lock size workers (fun j ↦ (adders j).lax shutdown) manager)
    (ha : Allowed (.adder j) lock lock' size size')
    (hpc : (pc.lax shutdown).Ok cfg j lock' size') :
    Orderly cfg lock' size' workers (fun j' ↦ (Function.update adders j pc j').lax shutdown)
      manager := by
  have hset := h.setAdder ha hpc
  rwa [← Function.comp_def (AdderPc.lax shutdown) adders, ← Function.comp_update] at hset

private theorem Orderly.broadcast
    (h : Orderly cfg lock size workers (fun j ↦ (adders j).lax shutdown) manager) :
    Orderly cfg lock size workers (fun j ↦ (adders j).broadcast.lax shutdown) manager := by
  refine ⟨h.workers, fun j ↦ ?_, h.manager⟩
  have hj := h.adders j
  generalize adders j = pc at hj
  cases pc with
  | asleep => trivial
  | _ => exact hj

private theorem Orderly.broadcastWorkers (h : Orderly cfg lock size workers adders manager) :
    Orderly cfg lock size (fun k ↦ (workers k).broadcast) adders manager := by
  refine ⟨fun k ↦ ?_, h.adders, h.manager⟩
  have hk := h.workers k
  generalize workers k = pc at hk
  cases pc with
  | asleep => trivial
  | _ => exact hk

private theorem AdderPc.Ok.lax {j : Nat} {pc : AdderPc}
    (h : (pc.lax shutdown).Ok cfg j lock size) : (pc.lax true).Ok cfg j lock size := by
  cases pc with
  | check =>
    cases shutdown with
    | true => exact h
    | false => exact h.1
  | _ => exact h

private theorem Orderly.signals {n : Nat} (h : Orderly cfg lock size workers adders manager)
    (hs : Signals workers n workers') : Orderly cfg lock size workers' adders manager := by
  cases hs with
  | one k => exact h.setWorker allowed_same trivial
  | lost => exact h

end

private theorem WorkerDoes.disciplined {k : Nat} (h : WorkerDoes cfg P k P' es)
    (ho : P.Disciplined cfg) : P'.Disciplined cfg := by
  have hk := ho.workers k
  cases h with
  | lock hp hl | relock hp hl => exact ho.setWorker (.inl hl) rfl
  | empty hp hs | goOn hp hs =>
    rw [hp] at hk
    exact ho.setWorker allowed_same ⟨hk, hs⟩
  | sleep hp =>
    rw [hp] at hk
    exact ho.setWorker (.inr (.inl hk.1)) trivial
  | exit hp | shut hp =>
    rw [hp] at hk
    exact ho.setWorker (.inr (.inl hk)) trivial
  | spared hp | stay hp =>
    rw [hp] at hk
    exact ho.setWorker allowed_same hk
  | take hp =>
    rw [hp] at hk
    exact ho.broadcast.setWorker (.inr (.inl hk.1)) trivial
  | wake | start | returns | finish | terminate => exact ho.setWorker allowed_same trivial

private theorem AdderDoes.disciplined {j : Nat} {called : Task}
    {wake : Option Nat} (h : AdderDoes cfg P j called P' es)
    (hns : Unrefused P (.adder j called wake)) (ho : P.Disciplined cfg) :
    P'.Disciplined cfg := by
  have hj := ho.adders j
  cases h with
  | lock task hp hl => exact ho.laxAdder (.inl hl) rfl
  | full task hp =>
    rw [hp] at hj
    exact ho.laxAdder allowed_same hj
  | goOn task hp hc =>
    rw [hp] at hj
    refine ho.laxAdder allowed_same ?_
    cases hd : P.shutdown with
    | true => exact hj
    | false => exact ⟨hj, hc.resolve_right (by simp [hd])⟩
  | sleep task hp =>
    rw [hp] at hj
    exact ho.laxAdder (.inr (.inl hj)) trivial
  | shut task hp hd => exact absurd hp (hns hd task)
  | up task hp hd =>
    rw [hp, hd] at hj
    exact ho.laxAdder allowed_same hj
  | add task workers hp hs =>
    rw [hp] at hj
    exact (ho.signals hs).laxAdder (.inr (.inl hj.1)) trivial
  | late pc task hp => exact absurd hp (ho.not_late j pc task)
  | call | wake => exact ho.laxAdder allowed_same trivial

private theorem ManagerDoes.disciplined (h : ManagerDoes cfg P P') (ho : P.Disciplined cfg) :
    P'.Disciplined cfg := by
  have hm := ho.manager
  cases h with
  | lock live busy hp hl => exact ho.setManager (.inl hl) rfl
  | create i add live busy hp =>
    rw [hp] at hm
    have hnext : (ManagerPc.grow (i + 1) (add + 1) live busy).Ok P.lock := hm
    exact (ho.setManager allowed_same hnext).setWorker allowed_same trivial
  | skip i add live busy hp =>
    rw [hp] at hm
    exact ho.setManager allowed_same hm
  | grown i add live busy hp =>
    rw [hp] at hm
    exact ho.setManager (.inr (.inl hm)) trivial
  | signal i workers hp hi hs => exact (ho.signals hs).setManager allowed_same trivial
  | _ => exact ho.setManager allowed_same trivial

private theorem DestroyerDoes.disciplined (h : DestroyerDoes P P') (ho : P.Disciplined cfg) :
    P'.Disciplined cfg := by
  cases h with
  | shutdown =>
    exact ⟨ho.workers, fun j ↦ (ho.adders j).lax, ho.manager⟩
  | broadcast => exact ho.broadcastWorkers
  | _ => exact ho

/-- The discipline is kept by every step, except that of a thread in `threadpool_add` that
finds `shutdown` set. -/
theorem PoolDoes.disciplined {a : Act} (h : PoolDoes cfg P a P' es) (hns : Unrefused P a)
    (ho : P.Disciplined cfg) : P'.Disciplined cfg := by
  cases h with
  | worker h => exact h.disciplined ho
  | adder h => exact h.disciplined hns ho
  | manager h => exact h.disciplined ho
  | destroyer h => exact h.disciplined ho

/-- Before `shutdown` no call finds it set. -/
theorem unrefused_of_up (a : Act) (hd : P.shutdown = false) : Unrefused P a := by
  cases a with
  | adder j called wake =>
    intro hd'
    rw [hd] at hd'
    cases hd'
  | _ => trivial

/-- Before `shutdown` the discipline is kept. -/
theorem PoolDoes.orderly {a : Act} (h : PoolDoes cfg P a P' es) (hd : P'.shutdown = false)
    (ho : P.Orderly cfg) : P'.Orderly cfg := by
  have hd₀ := h.shutdown_eq_false hd
  rw [← disciplined_iff_orderly hd]
  apply h.disciplined (unrefused_of_up a hd₀)
  rwa [disciplined_iff_orderly hd₀]

/-- The discipline holds at the start. -/
theorem threadpoolCreate_orderly (cfg : Config) (taskQueue : Nat → Task) :
    (threadpoolCreate cfg taskQueue).Orderly cfg := by
  refine ⟨fun k ↦ ?_, fun j ↦ trivial, trivial⟩
  simp only [threadpoolCreate]
  split <;> trivial

/-! ### The queue -/

/-- The task an event adds. -/
def PoolEvent.addedTask : PoolEvent → Option Task
  | .added task => some task
  | _ => none

/-- The task an event takes. -/
def PoolEvent.takenTask : PoolEvent → Option Task
  | .taken task => some task
  | _ => none

/-- The tasks added, in order. -/
def added (τ : List PoolEvent) : List Task := τ.filterMap PoolEvent.addedTask

/-- The tasks taken by workers, in order. -/
def taken (τ : List PoolEvent) : List Task := τ.filterMap PoolEvent.takenTask

/-- The tasks added by a longer trace. -/
@[simp] theorem added_append (τ es : List PoolEvent) : added (τ ++ es) = added τ ++ added es :=
  List.filterMap_append

/-- The tasks taken in a longer trace. -/
@[simp] theorem taken_append (τ es : List PoolEvent) : taken (τ ++ es) = taken τ ++ taken es :=
  List.filterMap_append

/-- The contents of the ring from `queue_front`. -/
def Threadpool.contents (cfg : Config) (P : Threadpool) : List Task :=
  ringContents P.taskQueue cfg.queueMaxSize P.queueFront P.queueSize.toNat

/-- The queue is first-in first-out, and every task added is taken once or still there. -/
structure Queued (cfg : Config) (τ : List PoolEvent) (P : Threadpool) : Prop where
  nonneg : 0 ≤ P.queueSize
  le_max : P.queueSize ≤ cfg.queueMaxSize
  front : P.queueFront < cfg.queueMaxSize
  rear : P.queueRear = (P.queueFront + P.queueSize.toNat) % cfg.queueMaxSize
  fifo : taken τ ++ P.contents cfg = added τ

/-- Steps that leave the queue alone. -/
private theorem Queued.frame {τ : List PoolEvent} (h : Queued cfg τ P)
    (hq : P'.taskQueue = P.taskQueue ∧ P'.queueFront = P.queueFront ∧
      P'.queueRear = P.queueRear ∧ P'.queueSize = P.queueSize)
    (he : added es = [] ∧ taken es = []) : Queued cfg (τ ++ es) P' := by
  obtain ⟨hq, hf, hr, hs⟩ := hq
  refine ⟨by rw [hs]; exact h.nonneg, by rw [hs]; exact h.le_max, by rw [hf]; exact h.front,
    by rw [hr, hf, hs]; exact h.rear, ?_⟩
  rw [added_append, taken_append, he.1, he.2, List.append_nil, List.append_nil, ← h.fifo,
    Threadpool.contents, Threadpool.contents, hq, hf, hs]

private theorem WorkerDoes.queued {k : Nat} {τ : List PoolEvent}
    (h : WorkerDoes cfg P k P' es) (ho : P.Disciplined cfg) (hq : Queued cfg τ P) :
    Queued cfg (τ ++ es) P' := by
  cases h with
  | take hp =>
    have hk := ho.workers k
    rw [hp] at hk
    have hpos : P.queueSize.toNat = (P.queueSize - 1).toNat + 1 := by
      have := hq.nonneg
      have := hk.2
      omega
    have hfifo := hq.fifo
    rw [Threadpool.contents, hpos, ringContents_pop hq.front] at hfifo
    refine ⟨?_, ?_, Nat.mod_lt _ cfg.one_le_queue, ?_, ?_⟩
    · have := hk.2
      have := hq.nonneg
      simp only
      omega
    · have := hq.le_max
      simp only
      omega
    · have hrear := hq.rear
      rw [hpos] at hrear
      exact hrear.trans ringRear_pop.symm
    · rw [added_append, taken_append, ← hfifo, List.append_assoc]
      exact (List.append_nil _).symm
  | _ => exact hq.frame ⟨rfl, rfl, rfl, rfl⟩ ⟨rfl, rfl⟩

private theorem events_freed (arg : Option Nat) (task : Task) :
    added (arg.toList.map .freed ++ [.added task]) = [task] ∧
      taken (arg.toList.map .freed ++ [.added task]) = [] := by
  cases arg <;> exact ⟨rfl, rfl⟩

private theorem AdderDoes.queued {j : Nat} {called : Task} {τ : List PoolEvent}
    (h : AdderDoes cfg P j called P' es) (ho : P.Disciplined cfg) (hq : Queued cfg τ P) :
    Queued cfg (τ ++ es) P' := by
  cases h with
  | add task workers hp hs =>
    have hj := ho.adders j
    rw [hp] at hj
    have hnn := hq.nonneg
    have hlt : P.queueSize < cfg.queueMaxSize := by
      have := hq.le_max
      have := hj.2
      omega
    have hsize : (P.queueSize + 1).toNat = P.queueSize.toNat + 1 := by omega
    have hrear := hq.rear
    refine ⟨by simp only; omega, by simp only; omega, hq.front, ?_, ?_⟩
    · simp only [hsize, hrear]
      exact ringRear_push
    · have hpush : ringContents (Function.update P.taskQueue (ringRear cfg.queueMaxSize
          P.queueFront P.queueSize.toNat) task) cfg.queueMaxSize P.queueFront
            (P.queueSize.toNat + 1) = P.contents cfg ++ [task] :=
        ringContents_push task (by omega)
      obtain ⟨ha, ht⟩ := events_freed (P.taskQueue P.queueRear).arg task
      rw [added_append, taken_append, ha, ht, List.append_nil, ← hq.fifo, List.append_assoc]
      simp only [Threadpool.contents, hsize, hrear]
      exact congrArg (taken τ ++ ·) hpush
  | late pc task hp => exact absurd hp (ho.not_late j pc task)
  | _ => exact hq.frame ⟨rfl, rfl, rfl, rfl⟩ ⟨rfl, rfl⟩

/-- Under the discipline the queue stays first-in first-out. -/
theorem PoolDoes.queued {a : Act} {τ : List PoolEvent} (h : PoolDoes cfg P a P' es)
    (ho : P.Disciplined cfg) (hq : Queued cfg τ P) : Queued cfg (τ ++ es) P' := by
  cases h with
  | worker h => exact h.queued ho hq
  | adder h => exact h.queued ho hq
  | manager h => cases h <;> exact hq.frame ⟨rfl, rfl, rfl, rfl⟩ ⟨rfl, rfl⟩
  | destroyer h => cases h <;> exact hq.frame ⟨rfl, rfl, rfl, rfl⟩ ⟨rfl, rfl⟩

/-- The queue is empty at the start, whatever the slots hold. -/
theorem threadpoolCreate_queued (cfg : Config) (taskQueue : Nat → Task) :
    Queued cfg [] (threadpoolCreate cfg taskQueue) :=
  ⟨le_refl _, Int.natCast_nonneg _, cfg.one_le_queue, (Nat.zero_mod _).symm, rfl⟩

/-! ### Whole runs -/

/-- For every capacity, whatever the adders, the workers and the manager do and however their
steps interleave: in every state before `shutdown` the ring is in bounds, and the tasks taken
followed by the tasks in the ring are the tasks added, in order. -/
theorem queue_fifo_before_shutdown (cfg : Config) (taskQueue : Nat → Task)
    {τ : List PoolEvent} {P : Threadpool}
    (h : (pool cfg).Open (threadpoolCreate cfg taskQueue) τ P) (hd : P.shutdown = false) :
    Queued cfg τ P := by
  have hinv := before_shutdown (fun τ P ↦ P.Orderly cfg ∧ Queued cfg τ P)
    ⟨threadpoolCreate_orderly cfg taskQueue, threadpoolCreate_queued cfg taskQueue⟩ ?_ h hd
  · exact hinv.2
  rintro τ P a P' es hd' - hdoes ⟨ho, hq⟩
  have hd₀ := (disciplined_iff_orderly (hdoes.shutdown_eq_false hd')).mpr ho
  exact ⟨hdoes.orderly hd' ho, hdoes.queued hd₀ hq⟩

/-- A queue of one slot: two threads add a task each, the second waits until the worker has
taken the first. -/
theorem queue_fifo_one_slot :
    let cfg : Config := ⟨1, 1, 1, by decide, by decide, by decide⟩
    let first : Task := ⟨1, none⟩
    let second : Task := ⟨2, some 7⟩
    ∃ τ P, (pool cfg).Open (threadpoolCreate cfg (fun _ ↦ ⟨0, none⟩)) τ P ∧
      (P.shutdown = false ∧ P.adders 1 = .idle ∧ τ = [.added first, .taken first, .added second]) ∧
      Queued cfg τ P := by
  intro cfg first second
  let add (j : Nat) (task : Task) : Unit × Act := ((), .adder j task none)
  obtain ⟨τ, P, hrun, hobs⟩ := Machine.exec_observe (pool cfg) (fun _ _ _ ↦ true)
    (threadpoolCreate cfg (fun _ ↦ ⟨0, none⟩))
    (List.replicate 5 (add 0 first) ++ List.replicate 4 (add 1 second) ++
      List.replicate 3 ((), .worker 1) ++ List.replicate 4 (add 1 second))
    (fun P τ ↦ P.shutdown = false ∧ P.adders 1 = .idle ∧
      τ = [.added first, .taken first, .added second])
    (fun _ _ _ _ ↦ trivial) (by decide)
  exact ⟨τ, P, hrun, hobs, queue_fifo_before_shutdown cfg _ hrun hobs.1⟩

end DupDistribute.Pool

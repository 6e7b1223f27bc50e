import DupDistribute.Base.Family
import DupDistribute.Pool.Queue

/-!
# Where the tasks are

A task is in the queue, in the hands of one worker, or has returned. A worker takes it under the
lock and counts itself as busy only afterwards (`threadpool.c:115-133`), and it is counted until
after the function has returned (`threadpool.c:136-142`). The program that the pool was written
with takes `busy_thr_num == 0` and `queue_size == 0` for the end of all tasks
(`threadpool.c:324-335`).
-/

namespace DupDistribute.Pool

open DupDistribute.Base

variable {cfg : Config} {P P' : Threadpool} {es τ : List PoolEvent}

/-- The task a worker has taken and not finished. -/
def WorkerPc.hand : WorkerPc → Option Task
  | .took task | .running task => some task
  | _ => none

/-- The worker has counted itself in `busy_thr_num`. -/
def WorkerPc.busy : WorkerPc → Bool
  | .running _ | .finished => true
  | _ => false

/-- The tasks in the hands of workers. -/
def Threadpool.inHand (P : Threadpool) : List Task := held WorkerPc.hand P.workers P.nextTid

/-- The task an event finishes. -/
def PoolEvent.returnedTask : PoolEvent → Option Task
  | .returned task => some task
  | _ => none

/-- The tasks that have returned, in order. -/
def returned (τ : List PoolEvent) : List Task := τ.filterMap PoolEvent.returnedTask

/-- The tasks returned in a longer trace. -/
@[simp] theorem returned_append (τ es : List PoolEvent) :
    returned (τ ++ es) = returned τ ++ returned es := List.filterMap_append

/-! ### Steps -/

/-- Every task taken has returned or is in hand, and `busy_thr_num` counts the workers that have
counted themselves. -/
structure Conserved (τ : List PoolEvent) (P : Threadpool) : Prop where
  born : ∀ k, P.nextTid ≤ k → P.workers k = .unborn
  busy : P.busyThrNum = countMembers WorkerPc.busy P.workers P.nextTid
  tasks : (taken τ).Perm (returned τ ++ P.inHand)

/-- One worker moves. -/
private theorem Conserved.setWorker {k : Nat} {pc : WorkerPc} (h : Conserved τ P)
    (hk : P.workers k ≠ .unborn)
    (hw : P'.nextTid = P.nextTid ∧ P'.workers = Function.update P.workers k pc)
    (hb : P'.busyThrNum + (P.workers k).busy.toNat = P.busyThrNum + pc.busy.toNat)
    (ht : (taken es ++ (P.workers k).hand.toList).Perm (returned es ++ pc.hand.toList)) :
    Conserved (τ ++ es) P' := by
  obtain ⟨hn, hw⟩ := hw
  have hlt : k < P.nextTid := by
    by_contra hge
    exact hk (h.born k (Nat.not_lt.mp hge))
  refine ⟨fun j hj ↦ ?_, ?_, ?_⟩
  · rw [hn] at hj
    rw [hw, Function.update_of_ne (by omega)]
    exact h.born j hj
  · have hcount := countMembers_update WorkerPc.busy hlt P.workers pc
    have hbusy := h.busy
    rw [hw, hn]
    omega
  · -- Counted task by task, the moving worker's old share is on both sides.
    refine List.perm_iff_count.mpr fun task ↦ ?_
    have htaken := h.tasks.count_eq task
    have hevents := ht.count_eq task
    have hheld := (held_update WorkerPc.hand hlt P.workers pc).count_eq task
    simp only [Threadpool.inHand, taken_append, returned_append, List.count_append, hw,
      hn] at htaken hevents hheld ⊢
    omega

/-- Workers sleep and wake, and new ones come. -/
private theorem Conserved.sameWork (h : Conserved τ P) (he : taken es = [] ∧ returned es = [])
    (hb : P'.busyThrNum = P.busyThrNum) (hn : P'.nextTid = P.nextTid)
    (hw : ∀ k, (P'.workers k).hand = (P.workers k).hand ∧
      (P'.workers k).busy = (P.workers k).busy ∧
      (P.workers k = .unborn → P'.workers k = .unborn)) : Conserved (τ ++ es) P' := by
  refine ⟨fun k hk ↦ (hw k).2.2 (h.born k (hn ▸ hk)), ?_, ?_⟩
  · rw [hb, hn, countMembers_congr fun k ↦ (hw k).2.1]
    exact h.busy
  · have hhand : P'.inHand = P.inHand := by
      rw [Threadpool.inHand, hn]
      exact held_congr fun k _ ↦ (hw k).1
    rw [taken_append, returned_append, he.1, he.2, List.append_nil, List.append_nil, hhand]
    exact h.tasks

private theorem Signals.sameWork {workers workers' : Nat → WorkerPc} {n : Nat}
    (h : Signals workers n workers') (k : Nat) :
    (workers' k).hand = (workers k).hand ∧ (workers' k).busy = (workers k).busy ∧
      (workers k = .unborn → workers' k = .unborn) := by
  cases h with
  | lost => exact ⟨rfl, rfl, id⟩
  | one j hj =>
    by_cases hk : k = j
    · subst hk
      simp [hj, WorkerPc.hand, WorkerPc.busy]
    · simp [Function.update_of_ne hk]

private theorem WorkerDoes.conserved {k : Nat} (h : WorkerDoes cfg P k P' es)
    (hc : Conserved τ P) : Conserved (τ ++ es) P' := by
  cases h with
  | _ =>
    refine hc.setWorker ?_ ⟨rfl, rfl⟩ ?_ ?_ <;>
      simp_all [WorkerPc.busy, WorkerPc.hand, taken, returned, PoolEvent.takenTask,
        PoolEvent.returnedTask]

private theorem AdderDoes.conserved {j : Nat} {called : Task} (h : AdderDoes cfg P j called P' es)
    (hc : Conserved τ P) : Conserved (τ ++ es) P' := by
  cases h with
  | add task workers hp hs =>
    have hevents (arg : Option Nat) : taken (arg.toList.map .freed ++ [.added task]) = [] ∧
        returned (arg.toList.map .freed ++ [.added task]) = [] := by
      cases arg <;> exact ⟨rfl, rfl⟩
    exact hc.sameWork (hevents _) rfl rfl hs.sameWork
  | late pc task hp h =>
    have hevents : taken es = [] ∧ returned es = [] := by cases h <;> exact ⟨rfl, rfl⟩
    obtain ⟨_, _, _, workers, _, _, rfl, hw, -⟩ := h.frame
    rcases hw with rfl | hs
    · exact hc.sameWork hevents rfl rfl fun _ ↦ ⟨rfl, rfl, id⟩
    · exact hc.sameWork hevents rfl rfl hs.sameWork
  | _ => exact hc.sameWork ⟨rfl, rfl⟩ rfl rfl fun _ ↦ ⟨rfl, rfl, id⟩

private theorem ManagerDoes.conserved (h : ManagerDoes cfg P P') (hc : Conserved τ P) :
    Conserved τ P' := by
  rw [← List.append_nil τ]
  cases h with
  | create i add live busy hp hi ha hm hf =>
    have hunborn : P.workers P.nextTid = .unborn := hc.born _ (Nat.le_refl _)
    have hsame (k : Nat) :
        (Function.update P.workers P.nextTid .lock k).hand = (P.workers k).hand ∧
          (Function.update P.workers P.nextTid .lock k).busy = (P.workers k).busy := by
      by_cases hk : k = P.nextTid
      · subst hk
        simp [hunborn, WorkerPc.hand, WorkerPc.busy]
      · simp [Function.update_of_ne hk]
    refine ⟨fun k hk ↦ ?_, ?_, ?_⟩
    · simp only at hk ⊢
      rw [Function.update_of_ne (by omega)]
      exact hc.born k (by omega)
    · simp only [countMembers_congr fun k ↦ (hsame k).2, countMembers_add_one, hunborn]
      simpa [WorkerPc.busy] using hc.busy
    · simp only [Threadpool.inHand, held_congr fun k _ ↦ (hsame k).1, held_succ, hunborn]
      simpa [WorkerPc.hand, Threadpool.inHand] using hc.tasks
  | signal i workers hp hi hs => exact hc.sameWork ⟨rfl, rfl⟩ rfl rfl hs.sameWork
  | _ => exact hc.sameWork ⟨rfl, rfl⟩ rfl rfl fun _ ↦ ⟨rfl, rfl, id⟩

private theorem DestroyerDoes.conserved (h : DestroyerDoes P P') (hc : Conserved τ P) :
    Conserved τ P' := by
  rw [← List.append_nil τ]
  cases h with
  | broadcast =>
    refine hc.sameWork ⟨rfl, rfl⟩ rfl rfl fun k ↦ ?_
    cases hk : P.workers k <;> simp [hk, WorkerPc.broadcast, WorkerPc.hand, WorkerPc.busy]
  | _ => exact hc.sameWork ⟨rfl, rfl⟩ rfl rfl fun _ ↦ ⟨rfl, rfl, id⟩

private theorem PoolDoes.conserved {a : Act} (h : PoolDoes cfg P a P' es) (hc : Conserved τ P) :
    Conserved (τ ++ es) P' := by
  cases h with
  | worker h => exact h.conserved hc
  | adder h => exact h.conserved hc
  | manager h => simpa using h.conserved hc
  | destroyer h => simpa using h.conserved hc

/-! ### Whole runs -/

/-- At the start no worker has a task. -/
private theorem threadpoolCreate_conserved (cfg : Config) (taskQueue : Nat → Task) :
    Conserved [] (threadpoolCreate cfg taskQueue) := by
  have hpc (k : Nat) : ((threadpoolCreate cfg taskQueue).workers k).hand = none ∧
      ((threadpoolCreate cfg taskQueue).workers k).busy = false := by
    simp only [threadpoolCreate]
    split <;> exact ⟨rfl, rfl⟩
  refine ⟨fun k hk ↦ ?_, ?_, ?_⟩
  · simp only [threadpoolCreate] at hk ⊢
    rw [if_neg (by omega)]
  · simp only [countMembers, hpc, Bool.false_eq_true, Finset.filter_false, Finset.card_empty]
    rfl
  · have hnone : (threadpoolCreate cfg taskQueue).inHand = [] :=
      List.filterMap_eq_nil_iff.mpr fun k _ ↦ (hpc k).1
    rw [hnone]
    exact .refl _

/-- Both hold in every state before `shutdown`. -/
private theorem conserved_before_shutdown (cfg : Config) (taskQueue : Nat → Task)
    (h : (pool cfg).Open (threadpoolCreate cfg taskQueue) τ P) (hd : P.shutdown = false) :
    Conserved τ P ∧ Queued cfg τ P := by
  have hinv := before_shutdown
    (fun τ P ↦ P.Orderly cfg ∧ Queued cfg τ P ∧ Conserved τ P)
    ⟨threadpoolCreate_orderly cfg taskQueue, threadpoolCreate_queued cfg taskQueue,
      threadpoolCreate_conserved cfg taskQueue⟩ ?_ h hd
  · exact ⟨hinv.2.2, hinv.2.1⟩
  rintro τ P a P' es hd' - hdoes ⟨ho, hq, hc⟩
  have hd₀ := (disciplined_iff_orderly (hdoes.shutdown_eq_false hd')).mpr ho
  exact ⟨hdoes.orderly hd' ho, hdoes.queued hd₀ hq, hdoes.conserved hc⟩

/-- For every pool and every interleaving of its threads before `shutdown`: the tasks added are
those returned, in the hands of workers or queued, each once, and `busy_thr_num` is the number of
workers that run a task or have just run one. So when the counters say that nothing is left to
do, all tasks have returned exactly if no worker is between taking a task and counting itself. -/
theorem tasks_accounted (cfg : Config) (taskQueue : Nat → Task)
    (h : (pool cfg).Open (threadpoolCreate cfg taskQueue) τ P) (hd : P.shutdown = false) :
    (added τ).Perm (returned τ ++ P.inHand ++ P.contents cfg) ∧
      P.busyThrNum = countMembers WorkerPc.busy P.workers P.nextTid ∧
      (P.busyThrNum = 0 → P.queueSize = 0 →
        ((added τ).Perm (returned τ) ↔ ∀ k task, P.workers k ≠ .took task)) := by
  obtain ⟨hc, hq⟩ := conserved_before_shutdown cfg taskQueue h hd
  have hall : (added τ).Perm (returned τ ++ P.inHand ++ P.contents cfg) := by
    rw [← hq.fifo]
    exact hc.tasks.append_right _
  refine ⟨hall, hc.busy, fun hbusy hsize ↦ ?_⟩
  have hempty : P.contents cfg = [] := by
    rw [Threadpool.contents, hsize]
    rfl
  rw [hempty, List.append_nil] at hall
  have hdone : (added τ).Perm (returned τ) ↔ P.inHand = [] := by
    constructor
    · intro hperm
      have hlen := (hperm.symm.trans hall).length_eq
      rw [List.length_append] at hlen
      exact List.eq_nil_of_length_eq_zero (by omega)
    · intro hnone
      rwa [hnone, List.append_nil] at hall
  rw [hdone]
  constructor
  · intro hnone k task hk
    have hlt : k < P.nextTid := by
      by_contra hge
      simp [hc.born k (Nat.not_lt.mp hge)] at hk
    have hmem : task ∈ P.inHand := mem_held.mpr ⟨k, hlt, by rw [hk]; rfl⟩
    rw [hnone] at hmem
    cases hmem
  · intro hnone
    refine List.eq_nil_iff_forall_not_mem.mpr fun task hmem ↦ ?_
    obtain ⟨k, hlt, hhand⟩ := mem_held.mp hmem
    have hidle : (P.workers k).busy = false := by
      by_contra hb
      have hpos : 0 < countMembers WorkerPc.busy P.workers P.nextTid :=
        countMembers_pos hlt (by simpa using hb)
      have hcount := hc.busy
      omega
    cases hk : P.workers k with
    | took task' => exact hnone k task' hk
    | running task' => simp [hk, WorkerPc.busy] at hidle
    | _ => simp [hk, WorkerPc.hand] at hhand

/-- The only worker has taken the only task and has not counted itself. -/
theorem tasks_accounted_one_task :
    let cfg : Config := ⟨1, 1, 1, by decide, by decide, by decide⟩
    let task : Task := ⟨1, none⟩
    ∃ τ P, (pool cfg).Open (threadpoolCreate cfg (fun _ ↦ ⟨0, none⟩)) τ P ∧
      (P.shutdown = false ∧ P.busyThrNum = 0 ∧ P.queueSize = 0 ∧ P.workers 1 = .took task) ∧
      (added τ).Perm (returned τ ++ P.inHand ++ P.contents cfg) ∧
      ¬ (added τ).Perm (returned τ) := by
  intro cfg task
  obtain ⟨τ, P, hrun, hobs⟩ := Machine.exec_observe (pool cfg) (fun _ _ _ ↦ true)
    (threadpoolCreate cfg (fun _ ↦ ⟨0, none⟩))
    (List.replicate 5 ((), .adder 0 task none) ++ List.replicate 3 ((), .worker 1))
    (fun P _ ↦ P.shutdown = false ∧ P.busyThrNum = 0 ∧ P.queueSize = 0 ∧
      P.workers 1 = .took task)
    (fun _ _ _ _ ↦ trivial) (by decide)
  obtain ⟨hd, hbusy, hsize, htook⟩ := hobs
  obtain ⟨hall, -, hiff⟩ := tasks_accounted cfg _ hrun hd
  exact ⟨τ, P, hrun, ⟨hd, hbusy, hsize, htook⟩, hall,
    fun hperm ↦ (hiff hbusy hsize).mp hperm 1 task htook⟩

end DupDistribute.Pool

import DupDistribute.Base.Machine
import Mathlib.Data.Int.Basic

/-!
# The thread pool

`threadpool.c:5-296`. Workers, the threads inside `threadpool_add`, the manager and
`threadpool_destroy` share the pool; a step is what one of them does between two points at
which another may act. `pool->lock` has an owner, a wait on a condition variable releases it
before the thread sleeps and takes it again after the wake-up, and `threadpool_destroy` takes
no lock. A section under `thread_counter` is one access to `busy_thr_num`, so it is one step,
and so is what a thread does in the queue while it holds `pool->lock`. A call of
`threadpool_add` that has found `shutdown` set goes on without the lock and takes one step a
statement; that it may also fall between the statements of a thread with the lock is left out.

Assumed: `pthread_create` works, thread ids are not zero and are not used twice, and
`pthread_kill(tid, 0)` reports `ESRCH` exactly for terminated threads. A signal wakes a
sleeper if there is one, and a sleeper may wake without a signal. An unlock releases the lock
whoever holds it. What the other threads do after `threadpool_free` is not modelled.
-/

namespace DupDistribute.Pool

open DupDistribute.Base

/-- `threadpool_task_t`, `threadpool.h:19-22`; a null `arg` is `none`. -/
structure Task where
  function : Nat
  arg : Option Nat
  deriving DecidableEq, Repr

/-- `DEFAULT_THREAD_VARY`, `threadpool.h:12`. -/
def DEFAULT_THREAD_VARY : Nat := 3

/-- `MIN_WAIT_TASK_NUM`, `threadpool.h:11`. -/
def MIN_WAIT_TASK_NUM : Nat := 10

/-- The arguments of `threadpool_create`, which the pool keeps unchanged. -/
structure Config where
  minThrNum : Nat
  maxThrNum : Nat
  queueMaxSize : Nat
  one_le_min : 1 ≤ minThrNum
  min_le_max : minThrNum ≤ maxThrNum
  one_le_queue : 1 ≤ queueMaxSize

/-- The threads that take `pool->lock`. -/
inductive Owner where
  | worker (tid : Nat)
  | adder (j : Nat)
  | manager
  deriving DecidableEq, Repr

/-- Where a worker is in `threadpool_thread`, `threadpool.c:74-144`. It holds the lock at
`test`, `wait`, `woken` and `take`; it is `signalled` from the end of its sleep until it has
the lock again. At `take` it has found `shutdown` not set, `threadpool.c:107`. -/
inductive WorkerPc where
  | unborn
  | lock
  | test
  | wait
  | asleep
  | signalled
  | woken
  | take
  | took (task : Task)
  | running (task : Task)
  | finished
  | exiting
  | terminated
  deriving DecidableEq, Repr

/-- The statements of `threadpool_add` after the test of `shutdown`, `threadpool.c:237-251`. -/
inductive LatePc where
  | free
  | clear
  | function
  | arg
  | rear
  | size
  | signal
  | unlock
  deriving DecidableEq, Repr

/-- Where a thread is in `threadpool_add`, `threadpool.c:221-254`: at `body` it has the lock,
and at `late` it has found `shutdown` set and released it. -/
inductive AdderPc where
  | idle
  | lock (task : Task)
  | test (task : Task)
  | wait (task : Task)
  | asleep (task : Task)
  | signalled (task : Task)
  | check (task : Task)
  | body (task : Task)
  | late (pc : LatePc) (task : Task)
  deriving DecidableEq, Repr

/-- Where the manager is in `adjust_thread`, `threadpool.c:157-218`, with its copies of
`queue_size`, `live_thr_num` and `busy_thr_num`. -/
inductive ManagerPc where
  | loop
  | snapshot
  | busy (queueSize live : Int)
  | decideGrow (queueSize live busy : Int)
  | growLock (live busy : Int)
  | grow (i add : Nat) (live busy : Int)
  | decideShrink (live busy : Int)
  | shrink
  | signal (i : Nat)
  | exited
  deriving DecidableEq, Repr

/-- Where `threadpool_destroy` is, `threadpool.c:280-296`; `join` has read the id it waits for,
and `free` is its call of `threadpool_free`. -/
inductive DestroyerPc where
  | idle
  | broadcast
  | test (i : Nat)
  | join (i tid : Nat)
  | free
  | freed
  deriving DecidableEq, Repr

/-- `threadpool_t`, `threadpool.h:25-52`, with the threads that use it. A zero in `threads` is
a slot that was never used, and `nextTid` is the id of the next worker. -/
structure Threadpool where
  taskQueue : Nat → Task
  queueFront : Nat
  queueRear : Nat
  queueSize : Int
  liveThrNum : Int
  busyThrNum : Int
  waitExitThrNum : Int
  shutdown : Bool
  lock : Option Owner
  threads : Nat → Nat
  nextTid : Nat
  workers : Nat → WorkerPc
  adders : Nat → AdderPc
  manager : ManagerPc
  destroyer : DestroyerPc

/-- What a step of the pool does. -/
inductive PoolEvent where
  | added (task : Task)
  | taken (task : Task)
  | returned (task : Task)
  | freed (arg : Nat)
  deriving DecidableEq, Repr

/-! ### Condition variables -/

/-- `pthread_cond_signal(&queue_not_empty)`: `wake` is the sleeper it wakes, and there is none
only if nobody among the `n` threads sleeps. -/
def signal (workers : Nat → WorkerPc) (n : Nat) (wake : Option Nat) :
    Option (Nat → WorkerPc) :=
  match wake with
  | some k =>
    if workers k = .asleep then some (Function.update workers k .signalled) else none
  | none => if ∀ k < n, workers k ≠ .asleep then some workers else none

/-- The effect of `pthread_cond_broadcast(&queue_not_empty)` on a worker. -/
def WorkerPc.broadcast : WorkerPc → WorkerPc
  | .asleep => .signalled
  | pc => pc

/-- The effect of `pthread_cond_broadcast(&queue_not_full)` on a thread in
`threadpool_add`. -/
def AdderPc.broadcast : AdderPc → AdderPc
  | .asleep task => .signalled task
  | pc => pc

/-! ### Steps -/

/-- What `threadpool_create` leaves, `threadpool.c:15-57`: the task array is not initialised,
the first `min_thr_num` workers and the manager are started. -/
def threadpoolCreate (cfg : Config) (taskQueue : Nat → Task) : Threadpool where
  taskQueue := taskQueue
  queueFront := 0
  queueRear := 0
  queueSize := 0
  liveThrNum := cfg.minThrNum
  busyThrNum := 0
  waitExitThrNum := 0
  shutdown := false
  lock := none
  threads i := if i < cfg.minThrNum then i + 1 else 0
  nextTid := cfg.minThrNum + 1
  workers k := if 0 < k ∧ k ≤ cfg.minThrNum then .lock else .unborn
  adders _ := .idle
  manager := .loop
  destroyer := .idle

namespace Threadpool

/-- The next place of a worker. -/
def setWorker (P : Threadpool) (k : Nat) (pc : WorkerPc) : Threadpool :=
  { P with workers := Function.update P.workers k pc }

/-- The next place of a thread in `threadpool_add`. -/
def setAdder (P : Threadpool) (j : Nat) (pc : AdderPc) : Threadpool :=
  { P with adders := Function.update P.adders j pc }

/-- `pthread_mutex_lock(&pool->lock)`. -/
def acquire (P : Threadpool) (o : Owner) : Option Threadpool :=
  if P.lock = none then some { P with lock := some o } else none

/-- `pthread_mutex_unlock(&pool->lock)`. -/
def unlock (P : Threadpool) : Threadpool := { P with lock := none }

/-- The exit branch of a woken worker, `threadpool.c:92-103`. -/
def wakeUp (cfg : Config) (P : Threadpool) (k : Nat) : Threadpool :=
  if 0 < P.waitExitThrNum then
    let P := { P with waitExitThrNum := P.waitExitThrNum - 1 }
    if (cfg.minThrNum : Int) < P.liveThrNum then
      ({ P with liveThrNum := P.liveThrNum - 1 }.unlock).setWorker k .exiting
    else P.setWorker k .test
  else P.setWorker k .test

/-- The task leaves the queue and the threads that wait for room are woken,
`threadpool.c:115-125`. -/
def take (cfg : Config) (P : Threadpool) (k : Nat) : Threadpool × List PoolEvent :=
  let task := P.taskQueue P.queueFront
  let P := { P with
    queueFront := (P.queueFront + 1) % cfg.queueMaxSize
    queueSize := P.queueSize - 1
    adders := fun j ↦ (P.adders j).broadcast }
  (P.unlock.setWorker k (.took task), [.taken task])

/-- `threadpool_thread`: one step of the worker with id `k`. -/
def threadpoolThread (cfg : Config) (P : Threadpool) (k : Nat) :
    Option (Threadpool × List PoolEvent) :=
  match P.workers k with
  | .unborn => none
  | .lock => (P.acquire (.worker k)).map (fun P ↦ (P.setWorker k .test, []))
  | .test =>
    -- `shutdown` is never reset, so the two tests of it (lines 86 and 107) are one
    if P.shutdown then some (P.unlock.setWorker k .exiting, [])
    else if P.queueSize = 0 then some (P.setWorker k .wait, [])
    else some (P.setWorker k .take, [])
  | .wait => some (P.unlock.setWorker k .asleep, [])
  | .asleep =>
    -- a wake-up without a signal
    some (P.setWorker k .signalled, [])
  | .signalled => (P.acquire (.worker k)).map (fun P ↦ (P.setWorker k .woken, []))
  | .woken => some (P.wakeUp cfg k, [])
  | .take => some (P.take cfg k)
  | .took task =>
    some ({ P with busyThrNum := P.busyThrNum + 1 }.setWorker k (.running task), [])
  | .running task => some (P.setWorker k .finished, [.returned task])
  | .finished => some ({ P with busyThrNum := P.busyThrNum - 1 }.setWorker k .lock, [])
  | .exiting => some (P.setWorker k .terminated, [])
  | .terminated => none

/-- The task enters the queue, `threadpool.c:237-247`; the argument that was left in its slot
is freed. -/
def enqueue (cfg : Config) (P : Threadpool) (task : Task) : Threadpool × List PoolEvent :=
  ({ P with
      taskQueue := Function.update P.taskQueue P.queueRear task
      queueRear := (P.queueRear + 1) % cfg.queueMaxSize
      queueSize := P.queueSize + 1 },
    (P.taskQueue P.queueRear).arg.toList.map .freed ++ [.added task])

/-- The slot at the rear is changed. -/
def setSlot (P : Threadpool) (f : Task → Task) : Threadpool :=
  { P with taskQueue := Function.update P.taskQueue P.queueRear (f (P.taskQueue P.queueRear)) }

/-- One statement of a call that has found `shutdown` set: the lock was released at
`threadpool.c:233`, and the task is added all the same. -/
def addLate (cfg : Config) (P : Threadpool) (j : Nat) (task : Task) (wake : Option Nat) :
    LatePc → Option (Threadpool × List PoolEvent)
  | .free =>
    match (P.taskQueue P.queueRear).arg with
    | some arg => some (P.setAdder j (.late .clear task), [.freed arg])
    | none => some (P.setAdder j (.late .function task), [])
  | .clear =>
    some ((P.setSlot ({ · with arg := none })).setAdder j (.late .function task), [])
  | .function =>
    some ((P.setSlot ({ · with function := task.function })).setAdder j (.late .arg task), [])
  | .arg => some ((P.setSlot ({ · with arg := task.arg })).setAdder j (.late .rear task), [])
  | .rear =>
    some ({ P with queueRear := (P.queueRear + 1) % cfg.queueMaxSize }.setAdder j
      (.late .size task), [])
  | .size =>
    some ({ P with queueSize := P.queueSize + 1 }.setAdder j (.late .signal task),
      [.added task])
  | .signal =>
    (signal P.workers P.nextTid wake).map (fun workers ↦
      ({ P with workers := workers }.setAdder j (.late .unlock task), []))
  | .unlock => some (P.unlock.setAdder j .idle, [])

/-- `threadpool_add`: one step of thread `j`, which calls it with `task` when it is idle.
Under `shutdown` the lock is released and the call goes on, `threadpool.c:231-234`. -/
def threadpoolAdd (cfg : Config) (P : Threadpool) (j : Nat) (task : Task) (wake : Option Nat) :
    Option (Threadpool × List PoolEvent) :=
  match P.adders j with
  | .idle => some (P.setAdder j (.lock task), [])
  | .lock task => (P.acquire (.adder j)).map (fun P ↦ (P.setAdder j (.test task), []))
  | .test task =>
    if P.queueSize = cfg.queueMaxSize ∧ P.shutdown = false then
      some (P.setAdder j (.wait task), [])
    else some (P.setAdder j (.check task), [])
  | .wait task => some (P.unlock.setAdder j (.asleep task), [])
  | .asleep task => some (P.setAdder j (.signalled task), [])
  | .signalled task => (P.acquire (.adder j)).map (fun P ↦ (P.setAdder j (.test task), []))
  | .check task =>
    if P.shutdown then some (P.unlock.setAdder j (.late .free task), [])
    else some (P.setAdder j (.body task), [])
  | .body task =>
    let (P, es) := P.enqueue cfg task
    (signal P.workers P.nextTid wake).map (fun workers ↦
      (({ P with workers := workers }.unlock).setAdder j .idle, es))
  | .late pc task => P.addLate cfg j task wake pc

/-- `is_thread_alive`, `threadpool.c:146-154`. -/
def isThreadAlive (P : Threadpool) (tid : Nat) : Bool := P.workers tid ≠ .terminated

/-- One iteration of the growth loop with slot `i`, `threadpool.c:186-195`. -/
def growSlot (P : Threadpool) (i add : Nat) (live busy : Int) : Threadpool :=
  if P.threads i = 0 ∨ P.isThreadAlive (P.threads i) = false then
    { P with
      threads := Function.update P.threads i P.nextTid
      workers := Function.update P.workers P.nextTid .lock
      nextTid := P.nextTid + 1
      liveThrNum := P.liveThrNum + 1
      manager := .grow (i + 1) (add + 1) live busy }
  else { P with manager := .grow (i + 1) add live busy }

/-- `adjust_thread`: one step of the manager. -/
def adjustThread (cfg : Config) (P : Threadpool) (wake : Option Nat) :
    Option (Threadpool × List PoolEvent) :=
  match P.manager with
  | .loop =>
    if P.shutdown then some ({ P with manager := .exited }, [])
    else some ({ P with manager := .snapshot }, [])
  | .snapshot =>
    if P.lock = none then some ({ P with manager := .busy P.queueSize P.liveThrNum }, [])
    else none
  | .busy queueSize live =>
    some ({ P with manager := .decideGrow queueSize live P.busyThrNum }, [])
  | .decideGrow queueSize live busy =>
    if (MIN_WAIT_TASK_NUM : Int) ≤ queueSize ∧ live < cfg.maxThrNum then
      some ({ P with manager := .growLock live busy }, [])
    else some ({ P with manager := .decideShrink live busy }, [])
  | .growLock live busy =>
    (P.acquire .manager).map (fun P ↦ ({ P with manager := .grow 0 0 live busy }, []))
  | .grow i add live busy =>
    if i < cfg.maxThrNum ∧ add < DEFAULT_THREAD_VARY ∧ P.liveThrNum < cfg.maxThrNum then
      some (P.growSlot i add live busy, [])
    else some ({ P.unlock with manager := .decideShrink live busy }, [])
  | .decideShrink live busy =>
    if busy * 2 < live ∧ (cfg.minThrNum : Int) < live then
      some ({ P with manager := .shrink }, [])
    else some ({ P with manager := .loop }, [])
  | .shrink =>
    if P.lock = none then
      some ({ P with waitExitThrNum := DEFAULT_THREAD_VARY, manager := .signal 0 }, [])
    else none
  | .signal i =>
    if i < DEFAULT_THREAD_VARY then
      (signal P.workers P.nextTid wake).map (fun workers ↦
        ({ P with workers := workers, manager := .signal (i + 1) }, []))
    else some ({ P with manager := .loop }, [])
  | .exited => none

/-- `threadpool_destroy`: one step. -/
def threadpoolDestroy (P : Threadpool) : Option (Threadpool × List PoolEvent) :=
  match P.destroyer with
  | .idle => some ({ P with shutdown := true, destroyer := .broadcast }, [])
  | .broadcast =>
    some ({ P with workers := fun k ↦ (P.workers k).broadcast, destroyer := .test 0 }, [])
  | .test i =>
    if (i : Int) < P.liveThrNum then some ({ P with destroyer := .join i (P.threads i) }, [])
    else some ({ P with destroyer := .free }, [])
  | .join i tid =>
    if P.isThreadAlive tid then none
    else some ({ P with destroyer := .test (i + 1) }, [])
  | .free => some ({ P with destroyer := .freed }, [])
  | .freed => none

end Threadpool

/-- Who acts, with the outcomes the environment chooses: the call of `threadpool_add` and the
sleeper that a signal wakes. -/
inductive Act where
  | worker (tid : Nat)
  | adder (j : Nat) (task : Task) (wake : Option Nat)
  | manager (wake : Option Nat)
  | destroyer
  deriving DecidableEq, Repr

/-- One step of the pool. -/
def Threadpool.step (cfg : Config) (P : Threadpool) (a : Act) :
    Option (Threadpool × List PoolEvent) :=
  match P.destroyer, a with
  | .freed, _ => none
  | _, .worker k => P.threadpoolThread cfg k
  | _, .adder j task wake => P.threadpoolAdd cfg j task wake
  | _, .manager wake => P.adjustThread cfg wake
  | _, .destroyer => P.threadpoolDestroy

/-- The pool as a machine of its own. -/
def pool (cfg : Config) : Machine Unit Threadpool Act PoolEvent where
  step _ P a := (P.step cfg a).map (fun r ↦ (r.1, (), r.2))

/-! ### What a step can do -/

/-- The effect of a signal: one sleeper is woken, or it is lost because nobody sleeps. -/
inductive Signals (workers : Nat → WorkerPc) (n : Nat) : (Nat → WorkerPc) → Prop where
  | one (k : Nat) (h : workers k = .asleep) :
      Signals workers n (Function.update workers k .signalled)
  | lost (h : ∀ k < n, workers k ≠ .asleep) : Signals workers n workers

theorem signals_of_signal {workers workers' : Nat → WorkerPc} {n : Nat} {wake : Option Nat}
    (h : signal workers n wake = some workers') : Signals workers n workers' := by
  cases wake with
  | none =>
    simp only [signal, Option.ite_none_right_eq_some, Option.some.injEq] at h
    obtain ⟨hn, rfl⟩ := h
    exact .lost hn
  | some k =>
    simp only [signal, Option.ite_none_right_eq_some, Option.some.injEq] at h
    obtain ⟨hk, rfl⟩ := h
    exact .one k hk

variable {cfg : Config} {P P' : Threadpool} {es : List PoolEvent}

/-- Everything a worker's step can do. -/
inductive WorkerDoes (cfg : Config) (P : Threadpool) (k : Nat) :
    Threadpool → List PoolEvent → Prop where
  | lock (hp : P.workers k = .lock) (hl : P.lock = none) :
      WorkerDoes cfg P k { P with
        lock := some (.worker k), workers := Function.update P.workers k .test } []
  | empty (hp : P.workers k = .test) (hs : P.queueSize = 0) (hd : P.shutdown = false) :
      WorkerDoes cfg P k { P with workers := Function.update P.workers k .wait } []
  | goOn (hp : P.workers k = .test) (hs : P.queueSize ≠ 0) (hd : P.shutdown = false) :
      WorkerDoes cfg P k { P with workers := Function.update P.workers k .take } []
  | shut (hp : P.workers k = .test) (hd : P.shutdown = true) :
      WorkerDoes cfg P k { P with
        lock := none, workers := Function.update P.workers k .exiting } []
  | sleep (hp : P.workers k = .wait) :
      WorkerDoes cfg P k { P with
        lock := none, workers := Function.update P.workers k .asleep } []
  | wake (hp : P.workers k = .asleep) :
      WorkerDoes cfg P k { P with workers := Function.update P.workers k .signalled } []
  | relock (hp : P.workers k = .signalled) (hl : P.lock = none) :
      WorkerDoes cfg P k { P with
        lock := some (.worker k), workers := Function.update P.workers k .woken } []
  | exit (hp : P.workers k = .woken) (hw : 0 < P.waitExitThrNum)
      (hm : (cfg.minThrNum : Int) < P.liveThrNum) :
      WorkerDoes cfg P k { P with
        waitExitThrNum := P.waitExitThrNum - 1, liveThrNum := P.liveThrNum - 1, lock := none
        workers := Function.update P.workers k .exiting } []
  | spared (hp : P.workers k = .woken) (hw : 0 < P.waitExitThrNum)
      (hm : ¬ (cfg.minThrNum : Int) < P.liveThrNum) :
      WorkerDoes cfg P k { P with
        waitExitThrNum := P.waitExitThrNum - 1
        workers := Function.update P.workers k .test } []
  | stay (hp : P.workers k = .woken) (hw : ¬ 0 < P.waitExitThrNum) :
      WorkerDoes cfg P k { P with workers := Function.update P.workers k .test } []
  | take (hp : P.workers k = .take) :
      WorkerDoes cfg P k { P with
        queueFront := (P.queueFront + 1) % cfg.queueMaxSize, queueSize := P.queueSize - 1
        adders := fun j ↦ (P.adders j).broadcast, lock := none
        workers := Function.update P.workers k (.took (P.taskQueue P.queueFront)) }
        [.taken (P.taskQueue P.queueFront)]
  | start (task : Task) (hp : P.workers k = .took task) :
      WorkerDoes cfg P k { P with
        busyThrNum := P.busyThrNum + 1
        workers := Function.update P.workers k (.running task) } []
  | returns (task : Task) (hp : P.workers k = .running task) :
      WorkerDoes cfg P k { P with workers := Function.update P.workers k .finished }
        [.returned task]
  | finish (hp : P.workers k = .finished) :
      WorkerDoes cfg P k { P with
        busyThrNum := P.busyThrNum - 1, workers := Function.update P.workers k .lock } []
  | terminate (hp : P.workers k = .exiting) :
      WorkerDoes cfg P k { P with workers := Function.update P.workers k .terminated } []

private theorem acquire_eq_some {o : Owner} {P₁ : Threadpool} (h : P.acquire o = some P₁) :
    P.lock = none ∧ P₁ = { P with lock := some o } := by
  simp only [Threadpool.acquire, Option.ite_none_right_eq_some, Option.some.injEq] at h
  exact ⟨h.1, h.2.symm⟩

theorem workerDoes_of_step {k : Nat} (h : P.threadpoolThread cfg k = some (P', es)) :
    WorkerDoes cfg P k P' es := by
  simp only [Threadpool.threadpoolThread] at h
  split at h
  case h_1 hp | h_13 hp => cases h
  case h_2 hp =>
    obtain ⟨P₁, hacq, he⟩ := Option.map_eq_some_iff.mp h
    obtain ⟨rfl, rfl⟩ := Prod.mk.inj he
    obtain ⟨hl, rfl⟩ := acquire_eq_some hacq
    exact .lock hp hl
  case h_3 hp =>
    split at h
    · next hd =>
      cases h
      exact .shut hp hd
    · next hd =>
      have hd : P.shutdown = false := by simpa using hd
      split at h
      · next hs =>
        cases h
        exact .empty hp hs hd
      · next hs =>
        cases h
        exact .goOn hp hs hd
  case h_4 hp =>
    cases h
    exact .sleep hp
  case h_5 hp =>
    cases h
    exact .wake hp
  case h_6 hp =>
    obtain ⟨P₁, hacq, he⟩ := Option.map_eq_some_iff.mp h
    obtain ⟨rfl, rfl⟩ := Prod.mk.inj he
    obtain ⟨hl, rfl⟩ := acquire_eq_some hacq
    exact .relock hp hl
  case h_7 hp =>
    cases h
    simp only [Threadpool.wakeUp]
    split
    · next hw =>
      split
      · next hm => exact .exit hp hw hm
      · next hm => exact .spared hp hw hm
    · next hw => exact .stay hp hw
  case h_8 hp =>
    cases h
    exact .take hp
  case h_9 task hp =>
    cases h
    exact .start task hp
  case h_10 task hp =>
    cases h
    exact .returns task hp
  case h_11 hp =>
    cases h
    exact .finish hp
  case h_12 hp =>
    cases h
    exact .terminate hp

/-- Everything a call that has found `shutdown` set can do, by statement. -/
inductive LateDoes (cfg : Config) (P : Threadpool) (j : Nat) (task : Task) :
    LatePc → Threadpool → List PoolEvent → Prop where
  | free (arg : Nat) (ha : (P.taskQueue P.queueRear).arg = some arg) :
      LateDoes cfg P j task .free { P with
        adders := Function.update P.adders j (.late .clear task) } [.freed arg]
  | null (ha : (P.taskQueue P.queueRear).arg = none) :
      LateDoes cfg P j task .free { P with
        adders := Function.update P.adders j (.late .function task) } []
  | clear : LateDoes cfg P j task .clear { P with
        taskQueue := Function.update P.taskQueue P.queueRear
          { P.taskQueue P.queueRear with arg := none }
        adders := Function.update P.adders j (.late .function task) } []
  | function : LateDoes cfg P j task .function { P with
        taskQueue := Function.update P.taskQueue P.queueRear
          { P.taskQueue P.queueRear with function := task.function }
        adders := Function.update P.adders j (.late .arg task) } []
  | arg : LateDoes cfg P j task .arg { P with
        taskQueue := Function.update P.taskQueue P.queueRear
          { P.taskQueue P.queueRear with arg := task.arg }
        adders := Function.update P.adders j (.late .rear task) } []
  | rear : LateDoes cfg P j task .rear { P with
        queueRear := (P.queueRear + 1) % cfg.queueMaxSize
        adders := Function.update P.adders j (.late .size task) } []
  | size : LateDoes cfg P j task .size { P with
        queueSize := P.queueSize + 1
        adders := Function.update P.adders j (.late .signal task) } [.added task]
  | signal (workers : Nat → WorkerPc) (hs : Signals P.workers P.nextTid workers) :
      LateDoes cfg P j task .signal { P with
        workers := workers, adders := Function.update P.adders j (.late .unlock task) } []
  | unlock : LateDoes cfg P j task .unlock { P with
        lock := none, adders := Function.update P.adders j .idle } []

theorem lateDoes_of_step {j : Nat} {task : Task} {wake : Option Nat} {pc : LatePc}
    (h : P.addLate cfg j task wake pc = some (P', es)) : LateDoes cfg P j task pc P' es := by
  cases pc with
  | free =>
    simp only [Threadpool.addLate] at h
    split at h
    · next arg ha =>
      cases h
      exact .free arg ha
    · next ha =>
      cases h
      exact .null ha
  | signal =>
    obtain ⟨workers, hs, he⟩ := Option.map_eq_some_iff.mp h
    obtain ⟨rfl, rfl⟩ := Prod.mk.inj he
    exact .signal workers (signals_of_signal hs)
  | clear =>
    cases h
    exact .clear
  | function =>
    cases h
    exact .function
  | arg =>
    cases h
    exact .arg
  | rear =>
    cases h
    exact .rear
  | size =>
    cases h
    exact .size
  | unlock =>
    cases h
    exact .unlock

/-- A call that has found `shutdown` set changes the queue and the lock, and signals. -/
theorem LateDoes.frame {j : Nat} {task : Task} {pc : LatePc}
    (h : LateDoes cfg P j task pc P' es) :
    ∃ taskQueue queueRear queueSize workers lock next,
      P' = { P with
        taskQueue := taskQueue, queueRear := queueRear, queueSize := queueSize
        workers := workers, lock := lock, adders := Function.update P.adders j next } ∧
      (workers = P.workers ∨ Signals P.workers P.nextTid workers) ∧
      (next = .idle ∨ ∃ pc', next = .late pc' task) := by
  cases h with
  | signal workers hs => exact ⟨_, _, _, workers, _, _, rfl, .inr hs, .inr ⟨_, rfl⟩⟩
  | unlock => exact ⟨_, _, _, _, _, _, rfl, .inl rfl, .inl rfl⟩
  | _ => exact ⟨_, _, _, _, _, _, rfl, .inl rfl, .inr ⟨_, rfl⟩⟩

/-- Everything a step of a thread in `threadpool_add` can do. -/
inductive AdderDoes (cfg : Config) (P : Threadpool) (j : Nat) (called : Task) :
    Threadpool → List PoolEvent → Prop where
  | call (hp : P.adders j = .idle) :
      AdderDoes cfg P j called { P with
        adders := Function.update P.adders j (.lock called) } []
  | lock (task : Task) (hp : P.adders j = .lock task ∨ P.adders j = .signalled task)
      (hl : P.lock = none) :
      AdderDoes cfg P j called { P with
        lock := some (.adder j), adders := Function.update P.adders j (.test task) } []
  | full (task : Task) (hp : P.adders j = .test task)
      (hs : P.queueSize = cfg.queueMaxSize) (hd : P.shutdown = false) :
      AdderDoes cfg P j called { P with
        adders := Function.update P.adders j (.wait task) } []
  | goOn (task : Task) (hp : P.adders j = .test task)
      (h : P.queueSize ≠ cfg.queueMaxSize ∨ P.shutdown = true) :
      AdderDoes cfg P j called { P with
        adders := Function.update P.adders j (.check task) } []
  | sleep (task : Task) (hp : P.adders j = .wait task) :
      AdderDoes cfg P j called { P with
        lock := none, adders := Function.update P.adders j (.asleep task) } []
  | wake (task : Task) (hp : P.adders j = .asleep task) :
      AdderDoes cfg P j called { P with
        adders := Function.update P.adders j (.signalled task) } []
  | shut (task : Task) (hp : P.adders j = .check task) (hd : P.shutdown = true) :
      AdderDoes cfg P j called { P with
        lock := none, adders := Function.update P.adders j (.late .free task) } []
  | up (task : Task) (hp : P.adders j = .check task) (hd : P.shutdown = false) :
      AdderDoes cfg P j called { P with
        adders := Function.update P.adders j (.body task) } []
  | add (task : Task) (workers : Nat → WorkerPc) (hp : P.adders j = .body task)
      (hs : Signals P.workers P.nextTid workers) :
      AdderDoes cfg P j called { P with
        taskQueue := Function.update P.taskQueue P.queueRear task
        queueRear := (P.queueRear + 1) % cfg.queueMaxSize, queueSize := P.queueSize + 1
        workers := workers, lock := none, adders := Function.update P.adders j .idle }
        ((P.taskQueue P.queueRear).arg.toList.map .freed ++ [.added task])
  | late (pc : LatePc) (task : Task) {P' : Threadpool} {es : List PoolEvent}
      (hp : P.adders j = .late pc task) (h : LateDoes cfg P j task pc P' es) :
      AdderDoes cfg P j called P' es

theorem adderDoes_of_step {j : Nat} {called : Task} {wake : Option Nat}
    (h : P.threadpoolAdd cfg j called wake = some (P', es)) :
    AdderDoes cfg P j called P' es := by
  simp only [Threadpool.threadpoolAdd] at h
  split at h
  case h_1 hp =>
    cases h
    exact .call hp
  case h_2 task hp =>
    obtain ⟨P₁, hacq, he⟩ := Option.map_eq_some_iff.mp h
    obtain ⟨rfl, rfl⟩ := Prod.mk.inj he
    obtain ⟨hl, rfl⟩ := acquire_eq_some hacq
    exact .lock task (.inl hp) hl
  case h_3 task hp =>
    split at h
    · next hc =>
      cases h
      exact .full task hp hc.1 hc.2
    · next hc =>
      cases h
      refine .goOn task hp ?_
      by_cases hs : P.queueSize = cfg.queueMaxSize
      · exact .inr (by simpa [hs] using hc)
      · exact .inl hs
  case h_4 task hp =>
    cases h
    exact .sleep task hp
  case h_5 task hp =>
    cases h
    exact .wake task hp
  case h_6 task hp =>
    obtain ⟨P₁, hacq, he⟩ := Option.map_eq_some_iff.mp h
    obtain ⟨rfl, rfl⟩ := Prod.mk.inj he
    obtain ⟨hl, rfl⟩ := acquire_eq_some hacq
    exact .lock task (.inr hp) hl
  case h_7 task hp =>
    split at h
    · next hd =>
      cases h
      exact .shut task hp hd
    · next hd =>
      cases h
      exact .up task hp (by simpa using hd)
  case h_8 task hp =>
    obtain ⟨workers, hs, he⟩ := Option.map_eq_some_iff.mp h
    obtain ⟨rfl, rfl⟩ := Prod.mk.inj he
    exact .add task workers hp (signals_of_signal hs)
  case h_9 pc task hp => exact .late pc task hp (lateDoes_of_step h)

/-- Everything a step of the manager can do. -/
inductive ManagerDoes (cfg : Config) (P : Threadpool) : Threadpool → Prop where
  | round (hp : P.manager = .loop) (hd : P.shutdown = false) :
      ManagerDoes cfg P { P with manager := .snapshot }
  | leave (hp : P.manager = .loop) (hd : P.shutdown = true) :
      ManagerDoes cfg P { P with manager := .exited }
  | snapshot (hp : P.manager = .snapshot) (hl : P.lock = none) :
      ManagerDoes cfg P { P with manager := .busy P.queueSize P.liveThrNum }
  | busy (queueSize live : Int) (hp : P.manager = .busy queueSize live) :
      ManagerDoes cfg P { P with manager := .decideGrow queueSize live P.busyThrNum }
  | growing (queueSize live busy : Int) (hp : P.manager = .decideGrow queueSize live busy)
      (hq : (MIN_WAIT_TASK_NUM : Int) ≤ queueSize) (hl : live < cfg.maxThrNum) :
      ManagerDoes cfg P { P with manager := .growLock live busy }
  | notGrowing (queueSize live busy : Int) (hp : P.manager = .decideGrow queueSize live busy)
      (h : ¬ ((MIN_WAIT_TASK_NUM : Int) ≤ queueSize ∧ live < cfg.maxThrNum)) :
      ManagerDoes cfg P { P with manager := .decideShrink live busy }
  | lock (live busy : Int) (hp : P.manager = .growLock live busy) (hl : P.lock = none) :
      ManagerDoes cfg P { P with lock := some .manager, manager := .grow 0 0 live busy }
  | create (i add : Nat) (live busy : Int) (hp : P.manager = .grow i add live busy)
      (hi : i < cfg.maxThrNum) (ha : add < DEFAULT_THREAD_VARY)
      (hm : P.liveThrNum < cfg.maxThrNum)
      (hf : P.threads i = 0 ∨ P.workers (P.threads i) = .terminated) :
      ManagerDoes cfg P { P with
        threads := Function.update P.threads i P.nextTid
        workers := Function.update P.workers P.nextTid .lock
        nextTid := P.nextTid + 1, liveThrNum := P.liveThrNum + 1
        manager := .grow (i + 1) (add + 1) live busy }
  | skip (i add : Nat) (live busy : Int) (hp : P.manager = .grow i add live busy)
      (hi : i < cfg.maxThrNum) (hf : P.threads i ≠ 0)
      (ht : P.workers (P.threads i) ≠ .terminated) :
      ManagerDoes cfg P { P with manager := .grow (i + 1) add live busy }
  | grown (i add : Nat) (live busy : Int) (hp : P.manager = .grow i add live busy)
      (h : ¬ (i < cfg.maxThrNum ∧ add < DEFAULT_THREAD_VARY ∧
        P.liveThrNum < cfg.maxThrNum)) :
      ManagerDoes cfg P { P with lock := none, manager := .decideShrink live busy }
  | shrinking (live busy : Int) (hp : P.manager = .decideShrink live busy)
      (hb : busy * 2 < live) (hm : (cfg.minThrNum : Int) < live) :
      ManagerDoes cfg P { P with manager := .shrink }
  | notShrinking (live busy : Int) (hp : P.manager = .decideShrink live busy)
      (h : ¬ (busy * 2 < live ∧ (cfg.minThrNum : Int) < live)) :
      ManagerDoes cfg P { P with manager := .loop }
  | quota (hp : P.manager = .shrink) (hl : P.lock = none) :
      ManagerDoes cfg P { P with
        waitExitThrNum := DEFAULT_THREAD_VARY, manager := .signal 0 }
  | signal (i : Nat) (workers : Nat → WorkerPc) (hp : P.manager = .signal i)
      (hi : i < DEFAULT_THREAD_VARY) (hs : Signals P.workers P.nextTid workers) :
      ManagerDoes cfg P { P with workers := workers, manager := .signal (i + 1) }
  | signalled (i : Nat) (hp : P.manager = .signal i) (hi : ¬ i < DEFAULT_THREAD_VARY) :
      ManagerDoes cfg P { P with manager := .loop }

theorem managerDoes_of_step {wake : Option Nat} (h : P.adjustThread cfg wake = some (P', es)) :
    es = [] ∧ ManagerDoes cfg P P' := by
  simp only [Threadpool.adjustThread] at h
  split at h
  case h_1 hp =>
    split at h
    · next hd =>
      cases h
      exact ⟨rfl, .leave hp hd⟩
    · next hd =>
      cases h
      exact ⟨rfl, .round hp (by simpa using hd)⟩
  case h_2 hp =>
    obtain ⟨hl, he⟩ := Option.ite_none_right_eq_some.mp h
    cases he
    exact ⟨rfl, .snapshot hp hl⟩
  case h_3 queueSize live hp =>
    cases h
    exact ⟨rfl, .busy queueSize live hp⟩
  case h_4 queueSize live busy hp =>
    split at h
    · next hc =>
      cases h
      exact ⟨rfl, .growing queueSize live busy hp hc.1 hc.2⟩
    · next hc =>
      cases h
      exact ⟨rfl, .notGrowing queueSize live busy hp hc⟩
  case h_5 live busy hp =>
    obtain ⟨P₁, hacq, he⟩ := Option.map_eq_some_iff.mp h
    obtain ⟨rfl, rfl⟩ := Prod.mk.inj he
    obtain ⟨hl, rfl⟩ := acquire_eq_some hacq
    exact ⟨rfl, .lock live busy hp hl⟩
  case h_6 i add live busy hp =>
    split at h
    · next hc =>
      cases h
      refine ⟨rfl, ?_⟩
      simp only [Threadpool.growSlot]
      split
      · next hf =>
        refine .create i add live busy hp hc.1 hc.2.1 hc.2.2 ?_
        simpa [Threadpool.isThreadAlive] using hf
      · next hf =>
        simp only [Threadpool.isThreadAlive, ne_eq, decide_not, Bool.not_eq_eq_eq_not,
          Bool.not_false, decide_eq_true_eq, not_or] at hf
        exact .skip i add live busy hp hc.1 hf.1 hf.2
    · next hc =>
      cases h
      exact ⟨rfl, .grown i add live busy hp hc⟩
  case h_7 live busy hp =>
    split at h
    · next hc =>
      cases h
      exact ⟨rfl, .shrinking live busy hp hc.1 hc.2⟩
    · next hc =>
      cases h
      exact ⟨rfl, .notShrinking live busy hp hc⟩
  case h_8 hp =>
    obtain ⟨hl, he⟩ := Option.ite_none_right_eq_some.mp h
    cases he
    exact ⟨rfl, .quota hp hl⟩
  case h_9 i hp =>
    split at h
    · next hi =>
      obtain ⟨workers, hs, he⟩ := Option.map_eq_some_iff.mp h
      obtain ⟨rfl, rfl⟩ := Prod.mk.inj he
      exact ⟨rfl, .signal i workers hp hi (signals_of_signal hs)⟩
    · next hi =>
      cases h
      exact ⟨rfl, .signalled i hp hi⟩
  case h_10 hp => cases h

/-- Everything a step of `threadpool_destroy` can do. -/
inductive DestroyerDoes (P : Threadpool) : Threadpool → Prop where
  | shutdown (hp : P.destroyer = .idle) :
      DestroyerDoes P { P with shutdown := true, destroyer := .broadcast }
  | broadcast (hp : P.destroyer = .broadcast) :
      DestroyerDoes P { P with
        workers := fun k ↦ (P.workers k).broadcast, destroyer := .test 0 }
  | more (i : Nat) (hp : P.destroyer = .test i) (hi : (i : Int) < P.liveThrNum) :
      DestroyerDoes P { P with destroyer := .join i (P.threads i) }
  | joined (i tid : Nat) (hp : P.destroyer = .join i tid)
      (ht : P.workers tid = .terminated) :
      DestroyerDoes P { P with destroyer := .test (i + 1) }
  | done (i : Nat) (hp : P.destroyer = .test i) (hi : ¬ (i : Int) < P.liveThrNum) :
      DestroyerDoes P { P with destroyer := .free }
  | free (hp : P.destroyer = .free) : DestroyerDoes P { P with destroyer := .freed }

theorem destroyerDoes_of_step (h : P.threadpoolDestroy = some (P', es)) :
    es = [] ∧ DestroyerDoes P P' := by
  simp only [Threadpool.threadpoolDestroy] at h
  split at h
  case h_1 hp =>
    cases h
    exact ⟨rfl, .shutdown hp⟩
  case h_2 hp =>
    cases h
    exact ⟨rfl, .broadcast hp⟩
  case h_3 i hp =>
    split at h
    · next hi =>
      cases h
      exact ⟨rfl, .more i hp hi⟩
    · next hi =>
      cases h
      exact ⟨rfl, .done i hp hi⟩
  case h_4 i tid hp =>
    split at h
    · cases h
    · next ha =>
      cases h
      exact ⟨rfl, .joined i tid hp (by simpa [Threadpool.isThreadAlive] using ha)⟩
  case h_5 hp =>
    cases h
    exact ⟨rfl, .free hp⟩
  case h_6 hp => cases h

/-- Everything a step of the pool can do. -/
inductive PoolDoes (cfg : Config) (P : Threadpool) :
    Act → Threadpool → List PoolEvent → Prop where
  | worker {k : Nat} {P' : Threadpool} {es : List PoolEvent} (h : WorkerDoes cfg P k P' es) :
      PoolDoes cfg P (.worker k) P' es
  | adder {j : Nat} {task : Task} {wake : Option Nat} {P' : Threadpool} {es : List PoolEvent}
      (h : AdderDoes cfg P j task P' es) : PoolDoes cfg P (.adder j task wake) P' es
  | manager {wake : Option Nat} {P' : Threadpool} (h : ManagerDoes cfg P P') :
      PoolDoes cfg P (.manager wake) P' []
  | destroyer {P' : Threadpool} (h : DestroyerDoes P P') : PoolDoes cfg P .destroyer P' []

/-- The step function does nothing else. -/
theorem poolDoes_of_step {w w' : Unit} {a : Act} (h : (pool cfg).step w P a = some (P', w', es)) :
    PoolDoes cfg P a P' es := by
  obtain ⟨⟨Q, es'⟩, hs, he⟩ := Option.map_eq_some_iff.mp h
  simp only [Prod.mk.injEq] at he
  obtain ⟨rfl, -, rfl⟩ := he
  simp only [Threadpool.step] at hs
  split at hs
  · cases hs
  · exact .worker (workerDoes_of_step hs)
  · exact .adder (adderDoes_of_step hs)
  · obtain ⟨rfl, hm⟩ := managerDoes_of_step hs
    exact .manager hm
  · obtain ⟨rfl, hd⟩ := destroyerDoes_of_step hs
    exact .destroyer hd

/-- `shutdown` is never reset. -/
theorem PoolDoes.shutdown_eq_false {a : Act} (h : PoolDoes cfg P a P' es)
    (h' : P'.shutdown = false) : P.shutdown = false := by
  cases h with
  | worker h => cases h <;> exact h'
  | adder h =>
    cases h with
    | late pc task hp h =>
      obtain ⟨_, _, _, _, _, _, rfl, -, -⟩ := h.frame
      exact h'
    | _ => exact h'
  | manager h => cases h <;> exact h'
  | destroyer h =>
    cases h with
    | shutdown => cases h'
    | _ => exact h'

/-- The other threads change neither `shutdown` nor the place of `threadpool_destroy`. -/
theorem PoolDoes.destroyer_eq {a : Act} (h : PoolDoes cfg P a P' es)
    (ha : a ≠ .destroyer) : P'.shutdown = P.shutdown ∧ P'.destroyer = P.destroyer := by
  cases h with
  | worker h => cases h <;> exact ⟨rfl, rfl⟩
  | adder h =>
    cases h with
    | late pc task hp h =>
      obtain ⟨_, _, _, _, _, _, rfl, -, -⟩ := h.frame
      exact ⟨rfl, rfl⟩
    | _ => exact ⟨rfl, rfl⟩
  | manager h => cases h <;> exact ⟨rfl, rfl⟩
  | destroyer => exact absurd rfl ha

/-- What holds at the start and is kept by every admitted step before `shutdown` holds in
every state before `shutdown`. -/
theorem before_shutdown {C : Unit → Threadpool → Act → Prop} {P₀ : Threadpool}
    {τ : List PoolEvent} (I : List PoolEvent → Threadpool → Prop) (h₀ : I [] P₀)
    (hstep : ∀ τ P a P' es, P'.shutdown = false → C () P a → PoolDoes cfg P a P' es → I τ P →
      I (τ ++ es) P')
    (h : (pool cfg).RunIn C P₀ τ P) (hd : P.shutdown = false) : I τ P := by
  have hinv := h.invariant (fun τ P ↦ P.shutdown = false → I τ P) (fun _ ↦ h₀) ?_
  · exact hinv hd
  intro τ P w a P' w' es hi hc hs hd'
  have hdoes := poolDoes_of_step hs
  exact hstep τ P a P' es hd' hc hdoes (hi (hdoes.shutdown_eq_false hd'))

end DupDistribute.Pool

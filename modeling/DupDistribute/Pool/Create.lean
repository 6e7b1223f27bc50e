import DupDistribute.Pool.Queue
import DupDistribute.Pool.Schedule
import DupDistribute.Pool.Size

/-!
# Creation of the pool

`threadpool_create` starts the workers and the manager and then joins every worker it has
started (`threadpool.c:51-64`), although the comment there says that it waits for their
creation. So it returns only when all of them have terminated. Before it returns nobody can add
a task, and then no worker ever leaves its loop.
-/

namespace DupDistribute.Pool

open DupDistribute.Base

variable {cfg : Config} {P P' : Threadpool} {es : List PoolEvent}

/-- Where `threadpool_create` is: it starts worker `i`, starts the manager, comes to the join of
slot `i`, or waits in that join for the thread it has read from the slot. -/
inductive CreatorPc where
  | start (i : Nat)
  | manager
  | join (i : Nat)
  | joining (i tid : Nat)
  | returned
  deriving DecidableEq, Repr

/-- The manager has been started. -/
def CreatorPc.managed : CreatorPc → Bool
  | .start _ | .manager => false
  | _ => true

/-- The pool while `threadpool_create` is at work on it. -/
structure Creation where
  pool : Threadpool
  creator : CreatorPc

/-- The pool before the first `pthread_create`, `threadpool.c:15-49`. -/
def beforeThreads (cfg : Config) (taskQueue : Nat → Task) : Threadpool :=
  { threadpoolCreate cfg taskQueue with
    threads := fun _ ↦ 0, nextTid := 1, workers := fun _ ↦ .unborn }

/-- `threadpool_create`: one step from the first `pthread_create` on, `threadpool.c:51-64`. -/
def Creation.create (cfg : Config) (S : Creation) : Option Creation :=
  match S.creator with
  | .start i =>
    if i < cfg.minThrNum then
      some {
        pool := { S.pool with
          threads := Function.update S.pool.threads i S.pool.nextTid
          workers := Function.update S.pool.workers S.pool.nextTid .lock
          nextTid := S.pool.nextTid + 1 }
        creator := .start (i + 1) }
    else some { S with creator := .manager }
  | .manager => some { S with creator := .join 0 }
  | .join i =>
    if i < cfg.minThrNum then some { S with creator := .joining i (S.pool.threads i) }
    else some { S with creator := .returned }
  | .joining i tid =>
    if S.pool.isThreadAlive tid then none else some { S with creator := .join (i + 1) }
  | .returned => none

/-- The creator acts, or another thread. -/
inductive CreationAct where
  | creator
  | pool (a : Act)
  deriving DecidableEq, Repr

/-- The threads that can act: the workers, the manager once it is started, and if `others` hold
the pointer to the pool already, threads that call `threadpool_add`. -/
def CreatorPc.admits (others : Bool) (creator : CreatorPc) : Act → Bool
  | .worker _ => true
  | .manager _ => creator.managed
  | .adder .. => others
  | .destroyer => false

/-- Creation as a machine. -/
def creation (cfg : Config) (others : Bool) : Machine Unit Creation CreationAct PoolEvent where
  step _ S
    | .creator => (S.create cfg).map (fun S' ↦ (S', (), []))
    | .pool a =>
      if S.creator.admits others a then
        (S.pool.step cfg a).map (fun r ↦ ({ S with pool := r.1 }, (), r.2))
      else none

/-- `live_thr_num` workers serve the queue. -/
structure Serving (P : Threadpool) : Prop where
  up : P.shutdown = false
  pos : 0 < P.liveThrNum
  count : P.liveThrNum = countMembers WorkerPc.live P.workers P.nextTid

/-- Under some schedule `threadpool_create` returns a pool whose workers serve the queue. -/
def HandsOut (cfg : Config) (taskQueue : Nat → Task) (others : Bool) : Prop :=
  ∃ τ S, (creation cfg others).Open ⟨beforeThreads cfg taskQueue, .start 0⟩ τ S ∧
    S.creator = .returned ∧ Serving S.pool

/-- Everything a step of the creation can do. -/
inductive CreationDoes (cfg : Config) (others : Bool) (S : Creation) :
    Creation → List PoolEvent → Prop where
  | start (i : Nat) (hp : S.creator = .start i) (hi : i < cfg.minThrNum) :
      CreationDoes cfg others S {
        pool := { S.pool with
          threads := Function.update S.pool.threads i S.pool.nextTid
          workers := Function.update S.pool.workers S.pool.nextTid .lock
          nextTid := S.pool.nextTid + 1 }
        creator := .start (i + 1) } []
  | started (i : Nat) (hp : S.creator = .start i) (hi : ¬ i < cfg.minThrNum) :
      CreationDoes cfg others S { S with creator := .manager } []
  | manager (hp : S.creator = .manager) :
      CreationDoes cfg others S { S with creator := .join 0 } []
  | join (i : Nat) (hp : S.creator = .join i) (hi : i < cfg.minThrNum) :
      CreationDoes cfg others S { S with creator := .joining i (S.pool.threads i) } []
  | joined (i tid : Nat) (hp : S.creator = .joining i tid)
      (ht : S.pool.workers tid = .terminated) :
      CreationDoes cfg others S { S with creator := .join (i + 1) } []
  | returns (i : Nat) (hp : S.creator = .join i) (hi : ¬ i < cfg.minThrNum) :
      CreationDoes cfg others S { S with creator := .returned } []
  | other (a : Act) (P' : Threadpool) (es : List PoolEvent)
      (ha : S.creator.admits others a = true) (h : PoolDoes cfg S.pool a P' es) :
      CreationDoes cfg others S { S with pool := P' } es

private theorem creationDoes_of_create {S S' : Creation} {others : Bool}
    (h : S.create cfg = some S') : CreationDoes cfg others S S' [] := by
  simp only [Creation.create] at h
  split at h
  case h_1 i hp =>
    split at h
    · next hi =>
      cases h
      exact .start i hp hi
    · next hi =>
      cases h
      exact .started i hp hi
  case h_2 hp =>
    cases h
    exact .manager hp
  case h_3 i hp =>
    split at h
    · next hi =>
      cases h
      exact .join i hp hi
    · next hi =>
      cases h
      exact .returns i hp hi
  case h_4 i tid hp =>
    split at h
    · cases h
    · next ha =>
      cases h
      exact .joined i tid hp (by simpa [Threadpool.isThreadAlive] using ha)
  case h_5 hp => cases h

theorem creationDoes_of_step {others : Bool} {S S' : Creation} {w w' : Unit} {a : CreationAct}
    (h : (creation cfg others).step w S a = some (S', w', es)) :
    CreationDoes cfg others S S' es := by
  cases a with
  | creator =>
    obtain ⟨S₁, hc, he⟩ := Option.map_eq_some_iff.mp h
    simp only [Prod.mk.injEq] at he
    obtain ⟨rfl, -, rfl⟩ := he
    exact creationDoes_of_create hc
  | pool a =>
    obtain ⟨ha, h⟩ := Option.ite_none_right_eq_some.mp h
    obtain ⟨⟨P', es'⟩, hs, he⟩ := Option.map_eq_some_iff.mp h
    simp only [Prod.mk.injEq] at he
    obtain ⟨rfl, -, rfl⟩ := he
    have hstep : (pool cfg).step () S.pool a = some (P', (), es') := by
      simp only [pool, hs, Option.map_some]
    exact .other a P' es' ha (poolDoes_of_step hstep)

/-! ### Nobody leaves -/

/-- The worker has left its loop. -/
def WorkerPc.gone : WorkerPc → Bool
  | .exiting | .terminated => true
  | _ => false

/-- The manager creates workers, or has a copy of `queue_size` that will make it do so, only if
the number of workers is fixed. -/
def ManagerPc.Fixed (cfg : Config) : ManagerPc → Prop
  | .busy queueSize _ | .decideGrow queueSize _ _ =>
    (MIN_WAIT_TASK_NUM : Int) ≤ queueSize → cfg.maxThrNum ≤ cfg.minThrNum
  | .growLock .. | .grow .. => cfg.maxThrNum ≤ cfg.minThrNum
  | _ => True

/-- No worker has left and no worker has been added. -/
structure Static (cfg : Config) (P : Threadpool) : Prop where
  up : P.shutdown = false
  live : P.liveThrNum = cfg.minThrNum
  manager : P.manager.Fixed cfg
  workers : ∀ k, (P.workers k).gone = false

private theorem gone_update' {workers : Nat → WorkerPc} {k : Nat} {pc : WorkerPc}
    (h : ∀ k, (workers k).gone = false) (hpc : pc.gone = false) :
    ∀ k', (Function.update workers k pc k').gone = false := by
  rw [Function.forall_update_iff workers (fun _ x ↦ x.gone = false)]
  exact ⟨hpc, fun k' _ ↦ h k'⟩

private theorem gone_signals {workers workers' : Nat → WorkerPc} {n : Nat}
    (h : ∀ k, (workers k).gone = false) (hs : Signals workers n workers') :
    ∀ k, (workers' k).gone = false := by
  cases hs with
  | one k hk => exact gone_update' h rfl
  | lost => exact h

private theorem WorkerDoes.static {k : Nat} (h : WorkerDoes cfg P k P' es)
    (hs : Static cfg P) : Static cfg P' := by
  obtain ⟨hd, hl, hm, hw⟩ := hs
  cases h with
  | exit hp hq hlt => omega
  | shut hp hd' =>
    rw [hd] at hd'
    cases hd'
  | terminate hp =>
    have hk := hw k
    rw [hp] at hk
    cases hk
  | _ => exact ⟨hd, hl, hm, gone_update' hw rfl⟩

private theorem ManagerDoes.static (h : ManagerDoes cfg P P')
    (hq : (MIN_WAIT_TASK_NUM : Int) ≤ P.queueSize → cfg.maxThrNum ≤ cfg.minThrNum)
    (hs : Static cfg P) : Static cfg P' := by
  obtain ⟨hd, hl, hm, hw⟩ := hs
  cases h with
  | snapshot => exact ⟨hd, hl, hq, hw⟩
  | busy queueSize live hp =>
    rw [hp] at hm
    exact ⟨hd, hl, hm, hw⟩
  | growing queueSize live busy hp hle =>
    rw [hp] at hm
    exact ⟨hd, hl, hm hle, hw⟩
  | lock live busy hp =>
    rw [hp] at hm
    exact ⟨hd, hl, hm, hw⟩
  | create i add live busy hp hi ha hlt =>
    rw [hp] at hm
    have hfix : cfg.maxThrNum ≤ cfg.minThrNum := hm
    omega
  | skip i add live busy hp =>
    rw [hp] at hm
    exact ⟨hd, hl, hm, hw⟩
  | signal i workers hp hi hs => exact ⟨hd, hl, trivial, gone_signals hw hs⟩
  | _ => exact ⟨hd, hl, trivial, hw⟩

private theorem AdderDoes.static {j : Nat} {called : Task} (h : AdderDoes cfg P j called P' es)
    (hs : Static cfg P) : Static cfg P' := by
  cases h with
  | add task workers hp hsig => exact ⟨hs.up, hs.live, hs.manager, gone_signals hs.workers hsig⟩
  | late pc task hp h =>
    obtain ⟨_, _, _, workers, _, _, rfl, hw, -⟩ := h.frame
    rcases hw with rfl | hsig
    · exact ⟨hs.up, hs.live, hs.manager, hs.workers⟩
    · exact ⟨hs.up, hs.live, hs.manager, gone_signals hs.workers hsig⟩
  | _ => exact ⟨hs.up, hs.live, hs.manager, hs.workers⟩

/-- The creator has not got past its first join. -/
def CreatorPc.Waiting : CreatorPc → Prop
  | .start _ | .manager => True
  | .join i | .joining i _ => i = 0
  | .returned => False

/-- While nobody leaves, the creator waits, and the queue is as its users leave it. -/
structure Stuck (cfg : Config) (others : Bool) (τ : List PoolEvent) (S : Creation) : Prop where
  static : Static cfg S.pool
  waiting : S.creator.Waiting
  orderly : S.pool.Orderly cfg
  queued : Queued cfg τ S.pool
  alone : others = false → added τ = []

section
variable {others : Bool} {τ : List PoolEvent} {S S' : Creation}

/-- Ten tasks are waiting only if the number of workers is fixed. -/
private theorem Stuck.fixed (h : Stuck cfg others τ S)
    (hc : ¬ (others = true ∧ cfg.minThrNum < cfg.maxThrNum ∧
      MIN_WAIT_TASK_NUM ≤ cfg.queueMaxSize))
    (hq : (MIN_WAIT_TASK_NUM : Int) ≤ S.pool.queueSize) : cfg.maxThrNum ≤ cfg.minThrNum := by
  have hle := h.queued.le_max
  by_contra hlt
  refine hc ⟨?_, by omega, by omega⟩
  by_contra ho
  have hfifo := h.queued.fifo
  rw [h.alone (by simpa using ho), List.append_eq_nil_iff] at hfifo
  have hlen := congrArg List.length hfifo.2
  simp only [Threadpool.contents, ringContents, List.length_map, List.length_range,
    List.length_nil] at hlen
  simp only [MIN_WAIT_TASK_NUM] at hq
  omega

private theorem Stuck.other {a : Act} {P' : Threadpool} (h : Stuck cfg others τ S)
    (hc : ¬ (others = true ∧ cfg.minThrNum < cfg.maxThrNum ∧
      MIN_WAIT_TASK_NUM ≤ cfg.queueMaxSize))
    (ha : S.creator.admits others a = true) (hdoes : PoolDoes cfg S.pool a P' es) :
    Stuck cfg others (τ ++ es) { S with pool := P' } := by
  have hne : a ≠ .destroyer := by
    rintro rfl
    cases ha
  have hd : P'.shutdown = false := (hdoes.destroyer_eq hne).1.trans h.static.up
  have hdisc := (disciplined_iff_orderly h.static.up).mpr h.orderly
  refine ⟨?_, h.waiting, hdoes.orderly hd h.orderly, hdoes.queued hdisc h.queued, ?_⟩
  · cases hdoes with
    | worker h' => exact h'.static h.static
    | adder h' => exact h'.static h.static
    | manager h' => exact h'.static (h.fixed hc) h.static
    | destroyer => cases ha
  · intro ho
    rw [added_append, h.alone ho, List.nil_append]
    cases hdoes with
    | worker h' => cases h' <;> rfl
    | adder =>
      rw [ho] at ha
      cases ha
    | manager => rfl
    | destroyer => rfl

private theorem CreationDoes.stuck (h : CreationDoes cfg others S S' es)
    (hc : ¬ (others = true ∧ cfg.minThrNum < cfg.maxThrNum ∧
      MIN_WAIT_TASK_NUM ≤ cfg.queueMaxSize))
    (hs : Stuck cfg others τ S) : Stuck cfg others (τ ++ es) S' := by
  have hw := hs.waiting
  cases h with
  | other a P' es ha hdoes => exact hs.other hc ha hdoes
  | start i hp hi =>
    rw [List.append_nil]
    have hlock : Static cfg { S.pool with
        threads := Function.update S.pool.threads i S.pool.nextTid
        workers := Function.update S.pool.workers S.pool.nextTid .lock
        nextTid := S.pool.nextTid + 1 } :=
      ⟨hs.static.up, hs.static.live, hs.static.manager, gone_update' hs.static.workers rfl⟩
    exact ⟨hlock, trivial, hs.orderly.setWorker allowed_same trivial,
      ⟨hs.queued.nonneg, hs.queued.le_max, hs.queued.front, hs.queued.rear, hs.queued.fifo⟩,
      hs.alone⟩
  | started i hp hi =>
    rw [List.append_nil]
    exact ⟨hs.static, trivial, hs.orderly, hs.queued, hs.alone⟩
  | manager hp =>
    rw [List.append_nil]
    exact ⟨hs.static, rfl, hs.orderly, hs.queued, hs.alone⟩
  | join i hp hi =>
    rw [hp] at hw
    rw [List.append_nil]
    exact ⟨hs.static, hw, hs.orderly, hs.queued, hs.alone⟩
  | joined i tid hp ht =>
    have htid := hs.static.workers tid
    rw [ht] at htid
    cases htid
  | returns i hp hi =>
    rw [hp] at hw
    have hzero : i = 0 := hw
    have := cfg.one_le_min
    omega

private theorem beforeThreads_stuck (cfg : Config) (taskQueue : Nat → Task) (others : Bool) :
    Stuck cfg others [] ⟨beforeThreads cfg taskQueue, .start 0⟩ where
  static := ⟨rfl, rfl, trivial, fun _ ↦ rfl⟩
  waiting := trivial
  orderly := ⟨fun _ ↦ trivial, fun _ ↦ trivial, trivial⟩
  queued :=
    have hq := threadpoolCreate_queued cfg taskQueue
    ⟨hq.nonneg, hq.le_max, hq.front, hq.rear, hq.fifo⟩
  alone _ := rfl

/-- Unless others add tasks, enough of them to make the pool grow, the creator never
returns. -/
private theorem handsOut_only_if {taskQueue : Nat → Task} (h : HandsOut cfg taskQueue others) :
    others = true ∧ cfg.minThrNum < cfg.maxThrNum ∧ MIN_WAIT_TASK_NUM ≤ cfg.queueMaxSize := by
  by_contra hc
  obtain ⟨τ, S, hrun, hret, -⟩ := h
  have hs := hrun.invariant (Stuck cfg others) (beforeThreads_stuck cfg taskQueue others)
    (fun _ _ _ _ _ _ _ hs _ hstep ↦ (creationDoes_of_step hstep).stuck hc hs)
  have hw := hs.waiting
  rw [hret] at hw
  exact hw

end

/-! ### The creator -/

section
variable {S S' : Creation} {taskQueue : Nat → Task}

/-- The creator and the others can take the creation from one state to the other. -/
private def Leads (cfg : Config) (S S' : Creation) : Prop :=
  ∃ τ, (creation cfg true).Open S τ S'

private theorem Leads.trans {S'' : Creation} (h : Leads cfg S S') (h' : Leads cfg S' S'') :
    Leads cfg S S'' := by
  obtain ⟨τ, hr⟩ := h
  obtain ⟨τ', hr'⟩ := h'
  exact ⟨τ ++ τ', hr.trans hr'⟩

private theorem Leads.creator (h : S.create cfg = some S') : Leads cfg S S' := by
  have hs : (creation cfg true).step () S .creator = some (S', (), []) := by
    simp only [creation, h, Option.map_some]
  exact ⟨[], .single trivial hs⟩

/-- While the creator waits, the others do what they can do without it. -/
private theorem Reaches.leads {creator : CreatorPc} (h : Reaches cfg P P')
    (hc : creator.managed = true) : Leads cfg ⟨P, creator⟩ ⟨P', creator⟩ := by
  obtain ⟨τ, hr⟩ := h
  refine ⟨τ, ?_⟩
  induction hr with
  | refl => exact .refl
  | @snoc τ Q Q' w w' a es _ ha hs ih =>
    have hadm : creator.admits true a = true := by
      cases a with
      | destroyer => exact absurd rfl ha
      | manager => exact hc
      | worker | adder => rfl
    obtain ⟨⟨R, es'⟩, hq, he⟩ := Option.map_eq_some_iff.mp hs
    simp only [Prod.mk.injEq] at he
    obtain ⟨rfl, -, rfl⟩ := he
    have hs' : (creation cfg true).step () ⟨Q, creator⟩ (.pool a) =
        some (⟨R, creator⟩, (), es') := by
      simp only [creation, hadm, if_true, hq, Option.map_some]
    exact .snoc ih trivial hs'

/-- After `i` calls of `pthread_create`. -/
private def started (cfg : Config) (taskQueue : Nat → Task) (i : Nat) : Threadpool :=
  { threadpoolCreate cfg taskQueue with
    threads := fun j ↦ if j < i then j + 1 else 0
    nextTid := i + 1
    workers := fun k ↦ if 0 < k ∧ k ≤ i then .lock else .unborn }

private theorem leads_started (cfg : Config) (taskQueue : Nat → Task) {i : Nat}
    (hi : i ≤ cfg.minThrNum) :
    Leads cfg ⟨beforeThreads cfg taskQueue, .start 0⟩ ⟨started cfg taskQueue i, .start i⟩ := by
  induction i with
  | zero =>
    have hzero : started cfg taskQueue 0 = beforeThreads cfg taskQueue := by
      have hw : (fun k : Nat ↦ if 0 < k ∧ k ≤ 0 then WorkerPc.lock else .unborn) =
          fun _ ↦ .unborn := by
        funext k
        exact if_neg (by omega)
      simp only [started, beforeThreads, hw, Nat.not_lt_zero, if_false]
    rw [hzero]
    exact ⟨[], .refl⟩
  | succ i ih =>
    refine (ih (by omega)).trans (Leads.creator ?_)
    have ht : Function.update (fun j ↦ if j < i then j + 1 else 0) i (i + 1) =
        fun j ↦ if j < i + 1 then j + 1 else 0 := by
      funext j
      by_cases hj : j = i
      · subst hj
        rw [Function.update_self, if_pos (by omega)]
      · have hiff : j < i + 1 ↔ j < i := by omega
        rw [Function.update_of_ne hj]
        simp only [hiff]
    have hw : Function.update (fun k ↦ if 0 < k ∧ k ≤ i then WorkerPc.lock else .unborn) (i + 1)
        .lock = fun k ↦ if 0 < k ∧ k ≤ i + 1 then .lock else .unborn := by
      funext k
      by_cases hk : k = i + 1
      · subst hk
        rw [Function.update_self, if_pos (by omega)]
      · have hiff : 0 < k ∧ k ≤ i + 1 ↔ 0 < k ∧ k ≤ i := by omega
        rw [Function.update_of_ne hk]
        simp only [hiff]
    simp only [Creation.create, if_pos (show i < cfg.minThrNum by omega), started, ht, hw]

/-- The creator waits in the join of slot `m`, and the workers before are gone. -/
private theorem leads_joining (taskQueue : Nat → Task) (hmax : cfg.minThrNum < cfg.maxThrNum)
    (hq : MIN_WAIT_TASK_NUM ≤ cfg.queueMaxSize) {m : Nat} (hm : m < cfg.minThrNum) :
    ∃ P, Reaches cfg (threadpoolCreate cfg taskQueue) P ∧ Poised cfg m P ∧
      (∃ f < cfg.maxThrNum, Free P f) ∧
      Leads cfg ⟨beforeThreads cfg taskQueue, .start 0⟩ ⟨P, .joining m (m + 1)⟩ := by
  induction m with
  | zero =>
    obtain ⟨P, hr, hp⟩ := exists_filled cfg taskQueue hq
    have hslot : Free P cfg.minThrNum := by
      left
      rw [hp.threads, if_neg (by omega)]
    refine ⟨P, hr, hp.poised (le_refl _), ⟨_, hmax, hslot⟩, ?_⟩
    let P₀ := threadpoolCreate cfg taskQueue
    have h₁ : Leads cfg _ ⟨P₀, .start cfg.minThrNum⟩ := leads_started cfg taskQueue (le_refl _)
    have h₂ : Leads cfg ⟨P₀, .start cfg.minThrNum⟩ ⟨P₀, .manager⟩ :=
      .creator (by simp [Creation.create])
    have h₃ : Leads cfg ⟨P₀, .manager⟩ ⟨P₀, .join 0⟩ := .creator rfl
    have h₄ : Leads cfg ⟨P₀, .join 0⟩ ⟨P₀, .joining 0 1⟩ := by
      refine .creator ?_
      simp [Creation.create, P₀, threadpoolCreate, hm]
    exact (((h₁.trans h₂).trans h₃).trans h₄).trans (hr.leads rfl)
  | succ m ih =>
    obtain ⟨P, hr, hp, hfree, hl⟩ := ih (by omega)
    obtain ⟨P', hr', hp', hgone, hfree'⟩ := hp.cycle (by omega) hmax hfree
    refine ⟨P', hr.trans hr', hp', hfree', (hl.trans (hr'.leads rfl)).trans ?_⟩
    have h₁ : Leads cfg ⟨P', .joining m (m + 1)⟩ ⟨P', .join (m + 1)⟩ :=
      .creator (by simp [Creation.create, Threadpool.isThreadAlive, hgone])
    have h₂ : Leads cfg ⟨P', .join (m + 1)⟩ ⟨P', .joining (m + 1) (m + 2)⟩ := by
      have hslot := (hp'.waiting (m + 2) (by omega) hm).2
      exact .creator (by simpa [Creation.create, hm] using hslot)
    exact h₁.trans h₂

/-- If others add tasks and the pool can grow, the creator can return. -/
private theorem handsOut_if (hmax : cfg.minThrNum < cfg.maxThrNum)
    (hq : MIN_WAIT_TASK_NUM ≤ cfg.queueMaxSize) : HandsOut cfg taskQueue true := by
  obtain ⟨n, hn⟩ : ∃ n, cfg.minThrNum = n + 1 :=
    ⟨cfg.minThrNum - 1, by have := cfg.one_le_min; omega⟩
  obtain ⟨P, hr, hp, hfree, hl⟩ := leads_joining taskQueue hmax hq
    (show n < cfg.minThrNum by omega)
  obtain ⟨P', hr', hp', hgone, -⟩ := hp.cycle (by omega) hmax hfree
  have h₁ : Leads cfg ⟨P', .joining n (n + 1)⟩ ⟨P', .join (n + 1)⟩ :=
    .creator (by simp [Creation.create, Threadpool.isThreadAlive, hgone])
  have h₂ : Leads cfg ⟨P', .join (n + 1)⟩ ⟨P', .returned⟩ :=
    .creator (by simp [Creation.create, hn])
  obtain ⟨τ, hrun⟩ := ((hl.trans (hr'.leads rfl)).trans h₁).trans h₂
  obtain ⟨τ', hpool⟩ := hr.trans hr'
  have hstaff := staff_before_shutdown hpool hp'.up
  have hpos : 0 < P'.liveThrNum := by
    have := hp'.min_le
    omega
  exact ⟨τ, ⟨P', .returned⟩, hrun, rfl, ⟨hp'.up, hpos, hstaff.count⟩⟩

end

/-- For every configuration: there is a schedule under which `threadpool_create` returns a
working pool exactly if others hold the pointer to the pool before it is returned and add
tasks, and the pool can grow and has room for the ten tasks that make it grow. -/
theorem handsOut_iff (cfg : Config) (taskQueue : Nat → Task) (others : Bool) :
    HandsOut cfg taskQueue others ↔
      others = true ∧ cfg.minThrNum < cfg.maxThrNum ∧
        MIN_WAIT_TASK_NUM ≤ cfg.queueMaxSize := by
  constructor
  · exact handsOut_only_if
  · rintro ⟨rfl, hmax, hq⟩
    exact handsOut_if hmax hq

/-- A pool of one to two workers is never handed out, for nobody else has it. -/
theorem not_handsOut_oneToTwo : ¬ HandsOut oneToTwo (fun _ ↦ ⟨0, none⟩) false := by
  intro h
  have hothers := (handsOut_only_if h).1
  cases hothers

end DupDistribute.Pool

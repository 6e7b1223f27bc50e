import DupDistribute.Pool.Queue
import DupDistribute.Pool.Size

/-!
# Tasks and sleeping workers

A worker goes to sleep only while the queue is empty, and an add wakes a sleeper. But
`queue_not_empty` also carries the wish that workers exit: a worker that an add has woken
takes the exit branch (`threadpool.c:92-102`) if some quota is left, also of a round in which
nobody was asleep. When the other workers sleep, its task is then left to nobody.
-/

namespace DupDistribute.Pool

open DupDistribute.Base

variable {cfg : Config} {P P' : Threadpool} {es : List PoolEvent}

/-- A live worker that is not asleep on `queue_not_empty`. -/
def Threadpool.Up (P : Threadpool) (k : Nat) : Prop :=
  (P.workers k).live = true ∧ P.workers k ≠ .asleep

/-- No queued task is left to sleeping workers. -/
def Threadpool.Attended (P : Threadpool) : Prop := 0 < P.queueSize → ∃ k, P.Up k

/-- A worker that is about to take the exit branch while tasks are queued leaves another one
that is not asleep. -/
def LeavesSomeone (cfg : Config) (P : Threadpool) (a : Act) : Prop :=
  ∀ k, a = .worker k → P.workers k = .woken → 0 < P.waitExitThrNum →
    (cfg.minThrNum : Int) < P.liveThrNum → 0 < P.queueSize → ∃ k', k' ≠ k ∧ P.Up k'

/-! ### Steps -/

/-- Another worker stays as it is. -/
private theorem up_of_ne {k k' : Nat} {workers : Nat → WorkerPc} {pc : WorkerPc}
    (hw : P'.workers = Function.update workers k pc) (hp : P.workers = workers) (hne : k' ≠ k)
    (h : P.Up k') : P'.Up k' := by
  rw [Threadpool.Up, hw, Function.update_of_ne hne, ← hp]
  exact h

/-- A worker that moves on is not asleep. -/
private theorem up_of_self {k : Nat} {workers : Nat → WorkerPc} {pc : WorkerPc}
    (hw : P'.workers = Function.update workers k pc) (hl : pc.live = true)
    (ha : pc ≠ .asleep) : P'.Up k := by
  rw [Threadpool.Up, hw, Function.update_self]
  exact ⟨hl, ha⟩

private theorem WorkerDoes.attended {k : Nat} (h : WorkerDoes cfg P k P' es)
    (hd : P.shutdown = false) (ho : P.Orderly cfg) (hc : LeavesSomeone cfg P (.worker k))
    (hi : P.Attended) : P'.Attended := by
  intro hs'
  cases h with
  | sleep hp =>
    have hk := ho.workers k
    rw [hp] at hk
    simp only [hk.2] at hs'
    cases hs'
  | exit hp hw hm =>
    obtain ⟨k', hne, hup⟩ := hc k rfl hp hw hm hs'
    exact ⟨k', up_of_ne rfl rfl hne hup⟩
  | shut hp hd' => rw [hd] at hd'; cases hd'
  | terminate hp =>
    obtain ⟨k', hup⟩ := hi hs'
    have hne : k' ≠ k := by
      rintro rfl
      rw [Threadpool.Up, hp] at hup
      cases hup.1
    exact ⟨k', up_of_ne rfl rfl hne hup⟩
  | _ => exact ⟨k, up_of_self rfl rfl (by simp)⟩

/-- When an add's signal finds nobody asleep, some worker is up, for the pool has workers. -/
private theorem Staff.up_of_lost (hs : P.Staff cfg)
    (hl : ∀ k < P.nextTid, P.workers k ≠ .asleep) : ∃ k, P.Up k := by
  have hmin := cfg.one_le_min
  have hle := hs.min_le
  have hcount := hs.count
  obtain ⟨k, hlt, hlive⟩ := exists_of_countMembers_pos
    (show 0 < countMembers WorkerPc.live P.workers P.nextTid by omega)
  exact ⟨k, hlive, hl k hlt⟩

private theorem AdderDoes.attended {j : Nat} {called : Task}
    (h : AdderDoes cfg P j called P' es) (ho : P.Orderly cfg) (hs : P.Staff cfg)
    (hi : P.Attended) : P'.Attended := by
  intro hs'
  cases h with
  | add task workers hp hsig =>
    cases hsig with
    | one k hk => exact ⟨k, up_of_self rfl rfl (by simp)⟩
    | lost hl => exact hs.up_of_lost hl
  | late pc task hp => exact absurd hp (ho.not_late j pc task)
  | _ => exact hi hs'

private theorem ManagerDoes.attended (h : ManagerDoes cfg P P') (hi : P.Attended) :
    P'.Attended := by
  intro hs'
  cases h with
  | create => exact ⟨P.nextTid, up_of_self rfl rfl (by simp)⟩
  | signal i workers hp hlt hsig =>
    cases hsig with
    | one k hk => exact ⟨k, up_of_self rfl rfl (by simp)⟩
    | lost => exact hi hs'
  | _ => exact hi hs'

private theorem DestroyerDoes.attended (h : DestroyerDoes P P') (hi : P.Attended) :
    P'.Attended := by
  intro hs'
  cases h with
  | broadcast hp =>
    obtain ⟨k, hl, ha⟩ := hi hs'
    refine ⟨k, ?_⟩
    simp only [Threadpool.Up]
    cases hk : P.workers k with
    | asleep => exact absurd hk ha
    | _ => rw [hk] at hl; exact ⟨hl, by simp [WorkerPc.broadcast]⟩
  | _ => exact hi hs'

private theorem PoolDoes.attended {a : Act} (h : PoolDoes cfg P a P' es)
    (hd : P'.shutdown = false) (ho : P.Orderly cfg) (hs : P.Staff cfg)
    (hc : LeavesSomeone cfg P a) (hi : P.Attended) : P'.Attended := by
  have hd₀ := h.shutdown_eq_false hd
  cases h with
  | worker h => exact h.attended hd₀ ho hc hi
  | adder h => exact h.attended ho hs hi
  | manager h => exact h.attended hi
  | destroyer h => exact h.attended hi

/-- A worker that exits and leaves nobody strands the queue. -/
private theorem stranded_of_exit {a : Act} (h : PoolDoes cfg P a P' es)
    (hc : ¬ LeavesSomeone cfg P a) : ¬ P'.Attended := by
  simp only [LeavesSomeone, not_forall] at hc
  obtain ⟨k, rfl, hp, hw, hm, hs, hnone⟩ := hc
  intro hi
  cases h with
  | worker h =>
    cases h with
    | exit =>
      obtain ⟨k', hup⟩ := hi hs
      have hne : k' ≠ k := by
        rintro rfl
        simp [Threadpool.Up, WorkerPc.live] at hup
      refine hnone ⟨k', hne, ?_⟩
      simpa [Threadpool.Up, Function.update_of_ne hne] using hup
    | spared _ _ hm' => exact hm' hm
    | stay _ hw' => exact hw' hw
    | lock hp' | empty hp' | goOn hp' | sleep hp' | wake hp' | relock hp' | shut hp'
    | take hp' | start _ hp' | returns _ hp' | finish hp' | terminate hp' =>
      rw [hp] at hp'
      cases hp'

/-! ### Whole runs -/

/-- For every configuration and every interleaving of adders, workers and manager: as long as
no worker has taken the exit branch while tasks were queued and all other live workers were
asleep, in every state before `shutdown` a queued task finds a live worker that is not asleep.
Such an exit leaves the queue to sleeping workers. -/
theorem attended_while_exits_leave_someone (cfg : Config) (taskQueue : Nat → Task) :
    (∀ τ P, (pool cfg).RunIn (fun _ P a ↦ LeavesSomeone cfg P a)
      (threadpoolCreate cfg taskQueue) τ P → P.shutdown = false → P.Attended) ∧
      ∀ P a P' es, ¬ LeavesSomeone cfg P a →
        (pool cfg).step () P a = some (P', (), es) → ¬ P'.Attended := by
  constructor
  · intro τ P h hd
    have hinv := before_shutdown (fun _ P ↦ P.Orderly cfg ∧ P.Staff cfg ∧ P.Attended)
      ⟨threadpoolCreate_orderly cfg taskQueue, threadpoolCreate_staff cfg taskQueue,
        fun hs ↦ absurd hs (lt_irrefl _)⟩ ?_ h hd
    · exact hinv.2.2
    rintro τ P a P' es hd' hc hdoes ⟨ho, hs, hi⟩
    exact ⟨hdoes.orderly hd' ho, hdoes.staff hd' hs, hdoes.attended hd' ho hs hc hi⟩
  · intro P a P' es hc hs
    exact stranded_of_exit (poolDoes_of_step hs) hc

/-- Two workers drain the queue and fall asleep while the exit quota is still there. The next
add wakes the first, which exits, and the task is left to the second, which sleeps. -/
theorem exit_strands_task :
    ∃ τ P, (pool oneToTwo).Open (threadpoolCreate oneToTwo (fun _ ↦ ⟨0, none⟩)) τ P ∧
      (P.shutdown = false ∧ P.queueSize = 1 ∧ P.liveThrNum = 1 ∧ P.nextTid = 3 ∧
        P.workers 1 = .exiting ∧ P.workers 2 = .asleep) ∧ ¬ P.Attended := by
  obtain ⟨τ, P, hrun, hobs⟩ := Machine.exec_observe (pool oneToTwo) (fun _ _ _ ↦ true)
    (threadpoolCreate oneToTwo (fun _ ↦ ⟨0, none⟩))
    (fillAndGrow ++ List.replicate 4 ((), .worker 1) ++ setQuota ++
      List.replicate 60 ((), .worker 1) ++ List.replicate 3 ((), .worker 2) ++
      List.replicate 5 ((), .adder 0 ⟨0, none⟩ (some 1)) ++ List.replicate 2 ((), .worker 1))
    (fun P _ ↦ P.shutdown = false ∧ P.queueSize = 1 ∧ P.liveThrNum = 1 ∧ P.nextTid = 3 ∧
        P.workers 1 = .exiting ∧ P.workers 2 = .asleep)
    (fun _ _ _ _ ↦ trivial) (by decide +kernel)
  refine ⟨τ, P, hrun, hobs, fun hatt ↦ ?_⟩
  obtain ⟨hd, hs, -, hn, h1, h2⟩ := hobs
  obtain ⟨k, hlive, hup⟩ := hatt (by rw [hs]; decide)
  have hstaff := staff_before_shutdown hrun hd
  have hk : k = 1 ∨ k = 2 := by
    by_contra hne
    rw [hstaff.unborn k (by omega)] at hlive
    cases hlive
  rcases hk with rfl | rfl
  · rw [h1] at hlive; cases hlive
  · exact hup h2

/-- A check of the condition that can be evaluated. -/
private def leavesSomeoneBelow (cfg : Config) (P : Threadpool) : Act → Bool
  | .worker k => decide (P.workers k = .woken → 0 < P.waitExitThrNum →
      (cfg.minThrNum : Int) < P.liveThrNum → 0 < P.queueSize →
      ∃ k' < P.nextTid, k' ≠ k ∧ (P.workers k').live = true ∧ P.workers k' ≠ .asleep)
  | _ => true

private theorem leavesSomeone_of_below {a : Act} (h : leavesSomeoneBelow cfg P a = true) :
    LeavesSomeone cfg P a := by
  rintro k rfl hp hw hm hs
  obtain ⟨k', -, hne, hup⟩ := of_decide_eq_true h hp hw hm hs
  exact ⟨k', hne, hup⟩

/-- The first worker exits while ten tasks are queued, and the second is there to take them. -/
theorem attended_after_exit :
    ∃ τ P, (pool oneToTwo).RunIn (fun _ P a ↦ LeavesSomeone oneToTwo P a)
        (threadpoolCreate oneToTwo (fun _ ↦ ⟨0, none⟩)) τ P ∧
      (P.shutdown = false ∧ P.queueSize = 10 ∧ P.workers 1 = .exiting) ∧ P.Attended := by
  obtain ⟨τ, P, hrun, hobs⟩ := Machine.exec_observe (pool oneToTwo)
    (fun _ P a ↦ leavesSomeoneBelow oneToTwo P a)
    (threadpoolCreate oneToTwo (fun _ ↦ ⟨0, none⟩))
    (fillAndGrow ++ setQuota ++ List.replicate 2 ((), .worker 1))
    (fun P _ ↦ P.shutdown = false ∧ P.queueSize = 10 ∧ P.workers 1 = .exiting)
    (fun _ _ _ ↦ leavesSomeone_of_below) (by decide +kernel)
  exact ⟨τ, P, hrun, hobs, (attended_while_exits_leave_someone oneToTwo _).1 τ P hrun hobs.1⟩

end DupDistribute.Pool

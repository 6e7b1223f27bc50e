import DupDistribute.Pool.Threadpool

/-!
# A schedule that replaces the first workers

A pool that may grow can lose all the workers it started with. They fall asleep and wake, ten
tasks make the manager create workers, and then, again and again, the manager finds workers to
spare, sets the exit quota, and one of the first workers takes the exit branch
(`threadpool.c:92-102`) while the manager fills its slot. The schedule is put together from
single steps, which the relations of `Threadpool` describe.
-/

namespace DupDistribute.Pool

open DupDistribute.Base

variable {cfg : Config} {P P' : Threadpool} {es : List PoolEvent}

/-! ### Steps that can be taken -/

/-- Everything the relations allow can be done. -/
private theorem WorkerDoes.step {k : Nat} (h : WorkerDoes cfg P k P' es)
    (hi : P.destroyer = .idle) : (pool cfg).step () P (.worker k) = some (P', (), es) := by
  have hs : P.threadpoolThread cfg k = some (P', es) := by
    cases h with
    | lock hp hl | relock hp hl =>
      simp [Threadpool.threadpoolThread, hp, Threadpool.acquire, hl, Threadpool.setWorker]
    | empty hp hq hd => simp [Threadpool.threadpoolThread, hp, hq, hd, Threadpool.setWorker]
    | goOn hp hq hd => simp [Threadpool.threadpoolThread, hp, hq, hd, Threadpool.setWorker]
    | exit hp hw hm =>
      simp [Threadpool.threadpoolThread, hp, Threadpool.wakeUp, hw, hm, Threadpool.unlock,
        Threadpool.setWorker]
    | spared hp hw hm =>
      simp [Threadpool.threadpoolThread, hp, Threadpool.wakeUp, hw, hm, Threadpool.setWorker]
    | stay hp hw =>
      simp [Threadpool.threadpoolThread, hp, Threadpool.wakeUp, hw, Threadpool.setWorker]
    | shut hp hd =>
      simp [Threadpool.threadpoolThread, hp, hd, Threadpool.unlock, Threadpool.setWorker]
    | take hp =>
      simp [Threadpool.threadpoolThread, hp, Threadpool.take, Threadpool.unlock,
        Threadpool.setWorker]
    | sleep hp | wake hp | start task hp | returns task hp | finish hp | terminate hp =>
      simp [Threadpool.threadpoolThread, hp, Threadpool.unlock, Threadpool.setWorker]
  simp only [pool, Threadpool.step, hi, hs, Option.map_some]

private theorem signal_of_signals {workers workers' : Nat → WorkerPc} {n : Nat}
    (h : Signals workers n workers') : ∃ wake, signal workers n wake = some workers' := by
  cases h with
  | one k hk => exact ⟨some k, if_pos hk⟩
  | lost hn => exact ⟨none, if_pos hn⟩

private theorem LateDoes.step {j : Nat} {task : Task} {pc : LatePc}
    (h : LateDoes cfg P j task pc P' es) :
    ∃ wake, P.addLate cfg j task wake pc = some (P', es) := by
  cases h with
  | free arg ha => exact ⟨none, by simp [Threadpool.addLate, ha, Threadpool.setAdder]⟩
  | null ha => exact ⟨none, by simp [Threadpool.addLate, ha, Threadpool.setAdder]⟩
  | signal workers hs =>
    obtain ⟨wake, hw⟩ := signal_of_signals hs
    exact ⟨wake, by simp [Threadpool.addLate, hw, Threadpool.setAdder]⟩
  | _ => exact ⟨none, rfl⟩

private theorem AdderDoes.step {j : Nat} {called : Task} (h : AdderDoes cfg P j called P' es)
    (hi : P.destroyer = .idle) :
    ∃ wake, (pool cfg).step () P (.adder j called wake) = some (P', (), es) := by
  have hs : ∃ wake, P.threadpoolAdd cfg j called wake = some (P', es) := by
    cases h with
    | lock task hp hl =>
      refine ⟨none, ?_⟩
      rcases hp with hp | hp <;>
        simp [Threadpool.threadpoolAdd, hp, Threadpool.acquire, hl, Threadpool.setAdder]
    | full task hp hq hd =>
      exact ⟨none, by simp [Threadpool.threadpoolAdd, hp, hq, hd, Threadpool.setAdder]⟩
    | goOn task hp hc =>
      have hn : ¬ (P.queueSize = cfg.queueMaxSize ∧ P.shutdown = false) := by
        rintro ⟨hq, hd⟩
        simp [hq, hd] at hc
      exact ⟨none, by simp only [Threadpool.threadpoolAdd, hp, if_neg hn, Threadpool.setAdder]⟩
    | add task workers hp hs =>
      obtain ⟨wake, hw⟩ := signal_of_signals hs
      refine ⟨wake, ?_⟩
      simp [Threadpool.threadpoolAdd, hp, Threadpool.enqueue, hw, Threadpool.unlock,
        Threadpool.setAdder]
    | late pc task hp h =>
      obtain ⟨wake, hw⟩ := h.step
      exact ⟨wake, by simpa only [Threadpool.threadpoolAdd, hp] using hw⟩
    | shut task hp hd | up task hp hd =>
      exact ⟨none, by
        simp [Threadpool.threadpoolAdd, hp, hd, Threadpool.unlock, Threadpool.setAdder]⟩
    | call hp | sleep task hp | wake task hp =>
      exact ⟨none, by
        simp [Threadpool.threadpoolAdd, hp, Threadpool.unlock, Threadpool.setAdder]⟩
  obtain ⟨wake, hs⟩ := hs
  exact ⟨wake, by simp only [pool, Threadpool.step, hi, hs, Option.map_some]⟩

/-- For the growth loop the relation leaves out why it goes on, so that is asked for. -/
private theorem ManagerDoes.step (h : ManagerDoes cfg P P') (hi : P.destroyer = .idle)
    (hg : ∀ i add live busy, P.manager = .grow i add live busy →
      P'.manager = .decideShrink live busy ∨
        add < DEFAULT_THREAD_VARY ∧ P.liveThrNum < cfg.maxThrNum) :
    ∃ wake, (pool cfg).step () P (.manager wake) = some (P', (), []) := by
  have hs : ∃ wake, P.adjustThread cfg wake = some (P', []) := by
    cases h with
    | create i add live busy hp hi ha hm hf =>
      refine ⟨none, ?_⟩
      simp only [Threadpool.adjustThread, hp, hi, ha, hm, and_self, if_true, Threadpool.growSlot]
      rw [if_pos (by simpa [Threadpool.isThreadAlive] using hf)]
    | signal i workers hp hi hs =>
      obtain ⟨wake, hw⟩ := signal_of_signals hs
      exact ⟨wake, by simp [Threadpool.adjustThread, hp, hi, hw]⟩
    | skip i add live busy hp hlt hf ht =>
      obtain ⟨ha, hm⟩ := (hg i add live busy hp).resolve_left (by simp)
      refine ⟨none, ?_⟩
      simp only [Threadpool.adjustThread, hp, hlt, ha, hm, and_self, if_true,
        Threadpool.growSlot]
      rw [if_neg (by simpa [Threadpool.isThreadAlive] using ⟨hf, ht⟩)]
    | growing queueSize live busy hp hq hl | shrinking live busy hp hq hl =>
      exact ⟨none, by simp [Threadpool.adjustThread, hp, hq, hl]⟩
    | notGrowing queueSize live busy hp hn | notShrinking live busy hp hn
    | grown i add live busy hp hn =>
      exact ⟨none, by
        simp only [Threadpool.adjustThread, hp, if_neg hn, Threadpool.unlock]⟩
    | round hp hc | leave hp hc | snapshot hp hc | lock live busy hp hc | quota hp hc
    | signalled i hp hc =>
      exact ⟨none, by simp [Threadpool.adjustThread, hp, hc, Threadpool.acquire]⟩
    | busy queueSize live hp => exact ⟨none, by simp [Threadpool.adjustThread, hp]⟩
  obtain ⟨wake, hs⟩ := hs
  exact ⟨wake, by simp only [pool, Threadpool.step, hi, hs, Option.map_some]⟩

/-- Workers, adders and the manager can take the pool from one state to the other. -/
def Reaches (cfg : Config) (P P' : Threadpool) : Prop :=
  ∃ τ, (pool cfg).RunIn (fun _ _ a ↦ a ≠ .destroyer) P τ P'

/-- One schedule after another. -/
theorem Reaches.trans {P'' : Threadpool} (h : Reaches cfg P P')
    (h' : Reaches cfg P' P'') : Reaches cfg P P'' := by
  obtain ⟨τ, hr⟩ := h
  obtain ⟨τ', hr'⟩ := h'
  exact ⟨τ ++ τ', hr.trans hr'⟩

private theorem WorkerDoes.reaches {k : Nat} (h : WorkerDoes cfg P k P' es)
    (hi : P.destroyer = .idle) : Reaches cfg P P' :=
  ⟨es, .single (by simp) (h.step hi)⟩

private theorem AdderDoes.reaches {j : Nat} {called : Task}
    (h : AdderDoes cfg P j called P' es) (hi : P.destroyer = .idle) : Reaches cfg P P' := by
  obtain ⟨wake, hs⟩ := h.step hi
  exact ⟨es, .single (by simp) hs⟩

private theorem ManagerDoes.reachesGrow (h : ManagerDoes cfg P P') (hi : P.destroyer = .idle)
    (hg : ∀ i add live busy, P.manager = .grow i add live busy →
      P'.manager = .decideShrink live busy ∨
        add < DEFAULT_THREAD_VARY ∧ P.liveThrNum < cfg.maxThrNum) : Reaches cfg P P' := by
  obtain ⟨wake, hs⟩ := h.step hi hg
  exact ⟨[], .single (by simp) hs⟩

/-- The manager is in its growth loop. -/
private def ManagerPc.growing : ManagerPc → Bool
  | .grow .. => true
  | _ => false

private theorem ManagerDoes.reaches {pc : ManagerPc} (h : ManagerDoes cfg P P')
    (hi : P.destroyer = .idle) (hp : P.manager = pc) (hpc : pc.growing = false) :
    Reaches cfg P P' := by
  refine h.reachesGrow hi fun i add live busy hg ↦ ?_
  rw [hp] at hg
  subst hg
  cases hpc

/-- The first `m` of the initial workers have left and the others have been woken from their
sleep; nobody sleeps and nobody is busy. -/
structure Ready (cfg : Config) (m : Nat) (P : Threadpool) : Prop where
  idle : P.destroyer = .idle
  up : P.shutdown = false
  busy : P.busyThrNum = 0
  awake : ∀ k, P.workers k ≠ .asleep
  fresh : cfg.minThrNum < P.nextTid
  waiting : ∀ k, m < k → k ≤ cfg.minThrNum → P.workers k = .signalled ∧ P.threads (k - 1) = k
  min_le : (cfg.minThrNum : Int) ≤ P.liveThrNum
  le_max : P.liveThrNum ≤ cfg.maxThrNum

/-- A slot that the manager can use. -/
def Free (P : Threadpool) (f : Nat) : Prop :=
  P.threads f = 0 ∨ P.workers (P.threads f) = .terminated

private theorem Ready.create {m i : Nat} {live busy : Int} {add : Nat} (h : Ready cfg m P)
    (hm : P.liveThrNum < cfg.maxThrNum) (hf : Free P i) :
    Ready cfg m { P with
      threads := Function.update P.threads i P.nextTid
      workers := Function.update P.workers P.nextTid .lock
      nextTid := P.nextTid + 1, liveThrNum := P.liveThrNum + 1
      manager := .grow (i + 1) (add + 1) live busy } where
  idle := h.idle
  up := h.up
  busy := h.busy
  awake := by
    rw [Function.forall_update_iff P.workers (fun _ x ↦ x ≠ .asleep)]
    exact ⟨by simp, fun k _ ↦ h.awake k⟩
  fresh := Nat.lt_succ_of_lt h.fresh
  waiting k hk hle := by
    obtain ⟨hw, ht⟩ := h.waiting k hk hle
    have hne : k ≠ P.nextTid := by
      have := h.fresh
      omega
    -- the slot of a worker that is there is not free
    have hslot : k - 1 ≠ i := by
      rintro rfl
      rcases hf with hf | hf
      · omega
      · rw [ht, hw] at hf
        cases hf
    simp only
    rw [Function.update_of_ne hne, Function.update_of_ne hslot]
    exact ⟨hw, ht⟩
  min_le := by
    have := h.min_le
    simp only
    omega
  le_max := by
    simp only
    omega

private theorem Ready.move {m : Nat} (h : Ready cfg m P) (lock : Option Owner) (quota : Int)
    (manager : ManagerPc) :
    Ready cfg m { P with lock := lock, waitExitThrNum := quota, manager := manager } :=
  ⟨h.idle, h.up, h.busy, h.awake, h.fresh, h.waiting, h.min_le, h.le_max⟩

/-- The growth loop ends. -/
private theorem Ready.growEnd {m i add : Nat} {live busy : Int} (h : Ready cfg m P)
    (hp : P.manager = .grow i add live busy)
    (hend : ¬ (i < cfg.maxThrNum ∧ add < DEFAULT_THREAD_VARY ∧
      P.liveThrNum < cfg.maxThrNum)) :
    ∃ P', Reaches cfg P P' ∧ Ready cfg m P' ∧ P'.manager = .decideShrink live busy ∧
      P'.lock = none ∧ P'.queueSize = P.queueSize ∧ P.liveThrNum ≤ P'.liveThrNum := by
  refine ⟨_, (ManagerDoes.grown i add live busy hp hend).reachesGrow h.idle ?_,
    h.move none P.waitExitThrNum _, rfl, rfl, rfl, Int.le_refl _⟩
  intro i' add' live' busy' hp'
  rw [hp] at hp'
  cases hp'
  exact .inl rfl

/-- The growth loop comes to its end, and it creates a worker if there is a slot for one. -/
private theorem Ready.growLoop {m i add : Nat} {live busy : Int} (h : Ready cfg m P)
    (hp : P.manager = .grow i add live busy) :
    ∃ P', Reaches cfg P P' ∧ Ready cfg m P' ∧ P'.manager = .decideShrink live busy ∧
      P'.lock = none ∧ P'.queueSize = P.queueSize ∧ P.liveThrNum ≤ P'.liveThrNum ∧
      ((∃ f, i ≤ f ∧ f < cfg.maxThrNum ∧ Free P f) → add < DEFAULT_THREAD_VARY →
        P.liveThrNum < cfg.maxThrNum → P.liveThrNum < P'.liveThrNum) := by
  induction hn : cfg.maxThrNum - i generalizing i add P with
  | zero =>
    obtain ⟨P', hr, hready, hman, hlock, hsize, hle⟩ := h.growEnd hp (by omega)
    refine ⟨P', hr, hready, hman, hlock, hsize, hle, ?_⟩
    rintro ⟨f, hif, hf, -⟩
    omega
  | succ n ih =>
    by_cases hc : add < DEFAULT_THREAD_VARY ∧ P.liveThrNum < cfg.maxThrNum
    · have hgo (pc : ManagerPc) : ∀ i' add' live' busy', P.manager = .grow i' add' live' busy' →
          pc = .decideShrink live' busy' ∨
            add' < DEFAULT_THREAD_VARY ∧ P.liveThrNum < cfg.maxThrNum := by
        intro i' add' live' busy' hp'
        rw [hp] at hp'
        cases hp'
        exact .inr hc
      by_cases hf : Free P i
      · have hstep := ManagerDoes.create i add live busy hp (by omega) hc.1 hc.2 hf
        obtain ⟨P', hr, hready, hman, hlock, hsize, hle, -⟩ :=
          ih (h.create hc.2 hf) rfl (by omega)
        simp only at hle
        exact ⟨P', (hstep.reachesGrow h.idle (hgo _)).trans hr, hready, hman, hlock, hsize,
          by omega, fun _ _ _ ↦ by omega⟩
      · obtain ⟨hz, ht⟩ := not_or.mp hf
        have hstep : ManagerDoes cfg P _ := .skip i add live busy hp (by omega) hz ht
        obtain ⟨P', hr, hready, hman, hlock, hsize, hle, hlt⟩ :=
          ih (h.move P.lock P.waitExitThrNum (.grow (i + 1) add live busy)) rfl (by omega)
        refine ⟨P', (hstep.reachesGrow h.idle (hgo _)).trans hr, hready, hman, hlock, hsize,
          hle, ?_⟩
        rintro ⟨f, hif, hfm, hff⟩ ha hm
        have hne : i ≠ f := by
          rintro rfl
          exact hf hff
        exact hlt ⟨f, by omega, hfm, hff⟩ ha hm
    · obtain ⟨P', hr, hready, hman, hlock, hsize, hle⟩ := h.growEnd hp (fun hend ↦ hc hend.2)
      exact ⟨P', hr, hready, hman, hlock, hsize, hle, fun _ ha hm ↦ absurd ⟨ha, hm⟩ hc⟩

/-- The manager is between two rounds and there are tasks enough to make the pool grow. -/
structure Poised (cfg : Config) (m : Nat) (P : Threadpool) : Prop
    extends Ready cfg m P where
  free : P.lock = none
  between : P.manager = .loop
  tasks : (MIN_WAIT_TASK_NUM : Int) ≤ P.queueSize

/-- The signals that follow the exit quota find nobody asleep. -/
private theorem Ready.signals {m : Nat} (h : Ready cfg m P) (hp : P.manager = .signal 0) :
    Reaches cfg P { P with manager := .loop } := by
  have hlost : Signals P.workers P.nextTid P.workers := .lost fun k _ ↦ h.awake k
  have h₁ : ManagerDoes cfg P _ := .signal 0 P.workers hp (by decide) hlost
  have h₂ : ManagerDoes cfg { P with manager := .signal 1 } _ :=
    .signal 1 P.workers rfl (by decide) hlost
  have h₃ : ManagerDoes cfg { P with manager := .signal 2 } _ :=
    .signal 2 P.workers rfl (by decide) hlost
  have h₄ : ManagerDoes cfg { P with manager := .signal 3 } _ := .signalled 3 rfl (by decide)
  exact (((h₁.reaches h.idle hp rfl).trans (h₂.reaches h.idle rfl rfl)).trans
    (h₃.reaches h.idle rfl rfl)).trans (h₄.reaches h.idle rfl rfl)

/-- The end of a round: the exit quota is set if there were workers to spare at its start. -/
private theorem Ready.shrink {m : Nat} {live busy : Int} (h : Ready cfg m P)
    (hl : P.lock = none) (hp : P.manager = .decideShrink live busy) (hb : busy * 2 < live) :
    ∃ P', Reaches cfg P P' ∧ Ready cfg m P' ∧ P'.lock = none ∧ P'.manager = .loop ∧
      P'.queueSize = P.queueSize ∧ P'.liveThrNum = P.liveThrNum ∧
      ((cfg.minThrNum : Int) < live → 0 < P'.waitExitThrNum) := by
  have hquota : (0 : Int) < DEFAULT_THREAD_VARY := by decide
  by_cases hm : (cfg.minThrNum : Int) < live
  · have h₁ := (ManagerDoes.shrinking live busy hp hb hm).reaches h.idle hp rfl
    have h₂ : ManagerDoes cfg { P with manager := .shrink } _ := .quota rfl hl
    have h₃ := (h.move P.lock DEFAULT_THREAD_VARY (.signal 0)).signals rfl
    exact ⟨_, (h₁.trans (h₂.reaches h.idle rfl rfl)).trans h₃,
      h.move P.lock DEFAULT_THREAD_VARY .loop, hl, rfl, rfl, rfl, fun _ ↦ hquota⟩
  · have h₁ := (ManagerDoes.notShrinking live busy hp (fun hc ↦ hm hc.2)).reaches h.idle hp rfl
    exact ⟨_, h₁, h.move P.lock P.waitExitThrNum .loop, hl, rfl, rfl, rfl,
      fun hc ↦ absurd hc hm⟩

/-- A round of the manager: the pool grows if it may and there is a slot, and the exit quota is
set if there are workers to spare. -/
private theorem Poised.round {m : Nat} (h : Poised cfg m P) :
    ∃ P', Reaches cfg P P' ∧ Poised cfg m P' ∧ P.liveThrNum ≤ P'.liveThrNum ∧
      ((∃ f < cfg.maxThrNum, Free P f) → P.liveThrNum < cfg.maxThrNum →
        P.liveThrNum < P'.liveThrNum) ∧
      ((cfg.minThrNum : Int) < P.liveThrNum → 0 < P'.waitExitThrNum) := by
  have hb : P.busyThrNum * 2 < P.liveThrNum := by
    have := h.min_le
    have := cfg.one_le_min
    have := h.busy
    omega
  have h₁ := (ManagerDoes.round h.between h.up : ManagerDoes cfg P _).reaches h.idle h.between rfl
  have h₂ : ManagerDoes cfg { P with manager := .snapshot } _ := .snapshot rfl h.free
  have h₃ : ManagerDoes cfg { P with manager := .busy P.queueSize P.liveThrNum } _ :=
    .busy _ _ rfl
  have hstart : Reaches cfg P
      { P with manager := .decideGrow P.queueSize P.liveThrNum P.busyThrNum } :=
    (h₁.trans (h₂.reaches h.idle rfl rfl)).trans (h₃.reaches h.idle rfl rfl)
  by_cases hlt : P.liveThrNum < cfg.maxThrNum
  · have h₄ : ManagerDoes cfg
        { P with manager := .decideGrow P.queueSize P.liveThrNum P.busyThrNum } _ :=
      .growing _ _ _ rfl h.tasks hlt
    have h₅ : ManagerDoes cfg { P with manager := .growLock P.liveThrNum P.busyThrNum } _ :=
      .lock _ _ rfl h.free
    obtain ⟨Q, hr, hready, hman, hlock, hsize, hle, hgrow⟩ :=
      (h.toReady.move (some .manager) P.waitExitThrNum (.grow 0 0 P.liveThrNum
        P.busyThrNum)).growLoop rfl
    obtain ⟨P', hr', hready', hlock', hman', hsize', hlive', hquota⟩ :=
      hready.shrink hlock hman hb
    have hall := (((hstart.trans (h₄.reaches h.idle rfl rfl)).trans
      (h₅.reaches h.idle rfl rfl)).trans hr).trans hr'
    refine ⟨P', hall, ⟨hready', hlock', hman', ?_⟩, ?_, ?_, hquota⟩
    · rw [hsize', hsize]
      exact h.tasks
    · rw [hlive']
      exact hle
    · rintro ⟨f, hf, hff⟩ -
      rw [hlive']
      exact hgrow ⟨f, Nat.zero_le f, hf, hff⟩ (by decide) hlt
  · have h₄ : ManagerDoes cfg
        { P with manager := .decideGrow P.queueSize P.liveThrNum P.busyThrNum } _ :=
      .notGrowing _ _ _ rfl (fun hc ↦ hlt hc.2)
    obtain ⟨P', hr', hready', hlock', hman', hsize', hlive', hquota⟩ :=
      (h.toReady.move P.lock P.waitExitThrNum (.decideShrink P.liveThrNum P.busyThrNum)).shrink
        h.free rfl hb
    refine ⟨P', (hstart.trans (h₄.reaches h.idle rfl rfl)).trans hr',
      ⟨hready', hlock', hman', ?_⟩, Int.le_of_eq hlive'.symm, fun _ hc ↦ absurd hc hlt, hquota⟩
    rw [hsize']
    exact h.tasks

/-- The next of the initial workers takes the exit branch. -/
private theorem Poised.exit {m : Nat} (h : Poised cfg m P) (hm : m < cfg.minThrNum)
    (hq : 0 < P.waitExitThrNum) (hlive : (cfg.minThrNum : Int) < P.liveThrNum) :
    ∃ P', Reaches cfg P P' ∧ Poised cfg (m + 1) P' ∧ P'.workers (m + 1) = .terminated ∧
      P'.threads m = m + 1 := by
  obtain ⟨hw, hslot⟩ := h.waiting (m + 1) (by omega) hm
  let P₁ : Threadpool := { P with
    lock := some (.worker (m + 1)), workers := Function.update P.workers (m + 1) .woken }
  let P₂ : Threadpool := { P with
    waitExitThrNum := P.waitExitThrNum - 1, liveThrNum := P.liveThrNum - 1, lock := none
    workers := Function.update P₁.workers (m + 1) .exiting }
  let P₃ : Threadpool := { P₂ with workers := Function.update P₂.workers (m + 1) .terminated }
  have h₁ : WorkerDoes cfg P (m + 1) P₁ [] := .relock hw h.free
  have h₂ : WorkerDoes cfg P₁ (m + 1) P₂ [] := .exit (Function.update_self ..) hq hlive
  have h₃ : WorkerDoes cfg P₂ (m + 1) P₃ [] := .terminate (Function.update_self ..)
  have hne {k : Nat} (hk : k ≠ m + 1) : P₃.workers k = P.workers k := by
    simp only [P₃, P₂, P₁, Function.update_of_ne hk]
  have hself : P₃.workers (m + 1) = .terminated := Function.update_self ..
  refine ⟨P₃, ((h₁.reaches h.idle).trans (h₂.reaches h.idle)).trans (h₃.reaches h.idle),
    ⟨⟨h.idle, h.up, h.busy, fun k ↦ ?_, h.fresh, fun k hk hle ↦ ?_, ?_, ?_⟩, rfl, h.between,
      h.tasks⟩, hself, hslot⟩
  · by_cases hk : k = m + 1
    · rw [hk, hself]
      simp
    · rw [hne hk]
      exact h.awake k
  · rw [hne (by omega)]
    exact h.waiting k (by omega) hle
  · simp only [P₃, P₂]
    omega
  · have := h.le_max
    simp only [P₃, P₂]
    omega

/-- Two rounds and an exit: the next of the initial workers is gone, and its slot is free. -/
theorem Poised.cycle {m : Nat} (h : Poised cfg m P) (hm : m < cfg.minThrNum)
    (hmax : cfg.minThrNum < cfg.maxThrNum) (hfree : ∃ f < cfg.maxThrNum, Free P f) :
    ∃ P', Reaches cfg P P' ∧ Poised cfg (m + 1) P' ∧ P'.workers (m + 1) = .terminated ∧
      ∃ f < cfg.maxThrNum, Free P' f := by
  obtain ⟨Q, hr, hq, hle, hgrow, -⟩ := h.round
  have hspare : (cfg.minThrNum : Int) < Q.liveThrNum := by
    have := h.min_le
    by_cases hlt : P.liveThrNum < cfg.maxThrNum
    · have := hgrow hfree hlt
      omega
    · omega
  obtain ⟨Q', hr', hq', hle', -, hquota⟩ := hq.round
  obtain ⟨P', hr'', hp, hgone, hslot⟩ := hq'.exit hm (hquota hspare) (by omega)
  refine ⟨P', (hr.trans hr').trans hr'', hp, hgone, m, by omega, .inr ?_⟩
  rw [hslot]
  exact hgone

/-! ### Before the first exit -/

/-- The first `j` workers have slept and been woken, and `n` tasks have been added. -/
structure Prepared (cfg : Config) (j n : Nat) (P : Threadpool) : Prop where
  idle : P.destroyer = .idle
  up : P.shutdown = false
  busy : P.busyThrNum = 0
  free : P.lock = none
  between : P.manager = .loop
  size : P.queueSize = n
  live : P.liveThrNum = cfg.minThrNum
  nextTid : P.nextTid = cfg.minThrNum + 1
  threads : ∀ i, P.threads i = if i < cfg.minThrNum then i + 1 else 0
  adder : P.adders 0 = .idle
  workers : ∀ k, P.workers k = if 0 < k ∧ k ≤ j then .signalled
    else if 0 < k ∧ k ≤ cfg.minThrNum then .lock else .unborn

private theorem threadpoolCreate_prepared (cfg : Config) (taskQueue : Nat → Task) :
    Prepared cfg 0 0 (threadpoolCreate cfg taskQueue) where
  idle := rfl
  up := rfl
  busy := rfl
  free := rfl
  between := rfl
  size := rfl
  live := rfl
  nextTid := rfl
  threads _ := rfl
  adder := rfl
  workers k := by
    rw [if_neg (by omega)]
    rfl

/-- Another worker finds the queue empty, sleeps, and wakes without a signal. -/
private theorem Prepared.sleep {j : Nat} (h : Prepared cfg j 0 P) (hj : j < cfg.minThrNum) :
    ∃ P', Reaches cfg P P' ∧ Prepared cfg (j + 1) 0 P' := by
  have hw : P.workers (j + 1) = .lock := by
    rw [h.workers, if_neg (by omega), if_pos (by omega)]
  let P₁ : Threadpool := { P with
    lock := some (.worker (j + 1)), workers := Function.update P.workers (j + 1) .test }
  let P₂ : Threadpool := { P₁ with workers := Function.update P₁.workers (j + 1) .wait }
  let P₃ : Threadpool := { P₂ with
    lock := none, workers := Function.update P₂.workers (j + 1) .asleep }
  let P₄ : Threadpool := { P₃ with workers := Function.update P₃.workers (j + 1) .signalled }
  have h₁ : WorkerDoes cfg P (j + 1) P₁ [] := .lock hw h.free
  have h₂ : WorkerDoes cfg P₁ (j + 1) P₂ [] := .empty (Function.update_self ..) h.size h.up
  have h₃ : WorkerDoes cfg P₂ (j + 1) P₃ [] := .sleep (Function.update_self ..)
  have h₄ : WorkerDoes cfg P₃ (j + 1) P₄ [] := .wake (Function.update_self ..)
  refine ⟨P₄, (((h₁.reaches h.idle).trans (h₂.reaches h.idle)).trans (h₃.reaches h.idle)).trans
    (h₄.reaches h.idle), ⟨h.idle, h.up, h.busy, rfl, h.between, h.size, h.live, h.nextTid,
      h.threads, h.adder, fun k ↦ ?_⟩⟩
  by_cases hk : k = j + 1
  · subst hk
    rw [if_pos (by omega)]
    exact Function.update_self ..
  · simp only [P₄, P₃, P₂, P₁, Function.update_of_ne hk]
    have hiff : 0 < k ∧ k ≤ j + 1 ↔ 0 < k ∧ k ≤ j := by omega
    simp only [hiff]
    exact h.workers k

private theorem Prepared.awake {j n : Nat} (h : Prepared cfg j n P) (k : Nat) :
    P.workers k ≠ .asleep := by
  rw [h.workers]
  split
  · simp
  · split <;> simp

/-- Another task is added. -/
private theorem Prepared.add {j n : Nat} (h : Prepared cfg j n P) (hn : n < cfg.queueMaxSize) :
    ∃ P', Reaches cfg P P' ∧ Prepared cfg j (n + 1) P' := by
  let task : Task := ⟨0, none⟩
  let P₁ : Threadpool := { P with adders := Function.update P.adders 0 (.lock task) }
  let P₂ : Threadpool := { P₁ with
    lock := some (.adder 0), adders := Function.update P₁.adders 0 (.test task) }
  let P₃ : Threadpool := { P₂ with adders := Function.update P₂.adders 0 (.check task) }
  let P₄ : Threadpool := { P₃ with adders := Function.update P₃.adders 0 (.body task) }
  let P₅ : Threadpool := { P₄ with
    taskQueue := Function.update P.taskQueue P.queueRear task
    queueRear := (P.queueRear + 1) % cfg.queueMaxSize, queueSize := P.queueSize + 1
    lock := none, adders := Function.update P₄.adders 0 .idle }
  have hroom : P.queueSize ≠ cfg.queueMaxSize := by
    rw [h.size]
    omega
  have h₁ : AdderDoes cfg P 0 task P₁ [] := .call h.adder
  have h₂ : AdderDoes cfg P₁ 0 task P₂ [] := .lock task (.inl rfl) h.free
  have h₃ : AdderDoes cfg P₂ 0 task P₃ [] := .goOn task rfl (.inl hroom)
  have h₄ : AdderDoes cfg P₃ 0 task P₄ [] := .up task rfl h.up
  have h₅ : AdderDoes cfg P₄ 0 task P₅ _ := .add task P.workers rfl (.lost fun k _ ↦ h.awake k)
  refine ⟨P₅, ((((h₁.reaches h.idle).trans (h₂.reaches h.idle)).trans (h₃.reaches h.idle)).trans
    (h₄.reaches h.idle)).trans (h₅.reaches h.idle), ⟨h.idle, h.up, h.busy, rfl, h.between, ?_,
      h.live, h.nextTid, h.threads, rfl, h.workers⟩⟩
  simp only [P₅, h.size]
  omega

private theorem Reaches.refl : Reaches cfg P P := ⟨[], .refl⟩

private theorem exists_slept (cfg : Config) (taskQueue : Nat → Task) {j : Nat}
    (hj : j ≤ cfg.minThrNum) :
    ∃ P, Reaches cfg (threadpoolCreate cfg taskQueue) P ∧ Prepared cfg j 0 P := by
  induction j with
  | zero => exact ⟨_, .refl, threadpoolCreate_prepared cfg taskQueue⟩
  | succ j ih =>
    obtain ⟨P, hr, hp⟩ := ih (by omega)
    obtain ⟨P', hr', hp'⟩ := hp.sleep hj
    exact ⟨P', hr.trans hr', hp'⟩

/-- All workers can have slept and any number of tasks that fit can have been added. -/
theorem exists_filled (cfg : Config) (taskQueue : Nat → Task) {n : Nat}
    (hn : n ≤ cfg.queueMaxSize) :
    ∃ P, Reaches cfg (threadpoolCreate cfg taskQueue) P ∧ Prepared cfg cfg.minThrNum n P := by
  induction n with
  | zero => exact exists_slept cfg taskQueue (le_refl _)
  | succ n ih =>
    obtain ⟨P, hr, hp⟩ := ih (by omega)
    obtain ⟨P', hr', hp'⟩ := hp.add hn
    exact ⟨P', hr.trans hr', hp'⟩

/-- Then the workers can leave one by one. -/
theorem Prepared.poised {n : Nat} (h : Prepared cfg cfg.minThrNum n P)
    (hn : MIN_WAIT_TASK_NUM ≤ n) : Poised cfg 0 P where
  idle := h.idle
  up := h.up
  busy := h.busy
  awake := h.awake
  fresh := by
    rw [h.nextTid]
    omega
  waiting k hk hle := by
    rw [h.workers, if_pos ⟨hk, hle⟩, h.threads, if_pos (by omega)]
    exact ⟨rfl, by omega⟩
  min_le := Int.le_of_eq h.live.symm
  le_max := by
    have := cfg.min_le_max
    rw [h.live]
    omega
  free := h.free
  between := h.between
  tasks := by
    rw [h.size]
    omega

end DupDistribute.Pool

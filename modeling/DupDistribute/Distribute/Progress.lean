import DupDistribute.Distribute.Completion

/-!
# Progress of the fan-out

Main locks `mute` before it creates the thread of a client, and only that thread unlocks it
(`util.c:231-249`, `util.c:310`). `pthread_create` reports a failure by a positive number,
which the source compares with -1, so after a failed creation nobody unlocks `mute`: main waits
for ever at the lock of the next client. After the last client there is no such lock, and main
gets to the join of a thread that was never created. With every thread there, main can always
go on.
-/

namespace DupDistribute.Distribute

open DupDistribute.Base DupDistribute.Wire DupDistribute.Record DupDistribute.Playback

/-- `distribute_run` is not under way: it has returned, or the connection is closed, or a
crash has ended the process. -/
def Proc.Returned (p : Proc) : Prop := p.main = .recv ∨ p.main = .closed ∨ p.main = .dead

/-- Main waits for `mute`, or for a thread to end. -/
def Proc.Waits (p : Proc) : Prop :=
  (∃ i, p.main = .lock i ∧ i < (p.tcpInfo 0).clientNum ∧ p.mute = true) ∨
    ∃ i, p.main = .join i ∧ i < (p.tcpInfo 0).clientNum ∧ p.threads i ≠ .exited

/-- Main waits, and whatever the threads that exist do, it never gets past that point. -/
def Proc.Wedged (env : Env) (p : Proc) : Prop :=
  p.Waits ∧ ∀ τ p', (process env).Open p τ p' → p'.main = p.main

/-- Some thread can take a step unless `distribute_run` has returned, and main is not waiting
in vain. -/
structure Proc.GoesOn (env : Env) (p : Proc) : Prop where
  enabled : p.Returned ∨ ∀ w, ∃ a, ((process env).step w p a).isSome
  free : ¬ p.Wedged env

variable {env : Env} {t₀ : Table} {p p' : Proc} {w w' : World} {es : List Event}

/-! ### With every thread there -/

/-- No thread crashes or ends its session without leaving that place. -/
theorem Proc.step_live {a : Act} (hl : ∀ j, (p.threads j).Live)
    (h : p.step env w a = some (p', w', es)) : ∀ j, (p'.threads j).Live := by
  cases a with
  | client j i =>
    obtain ⟨pc', t', shm', es', hs, rfl, -, -⟩ := Proc.client_step h
    by_cases hc : pc' = .crashed
    · subst hc
      exact fun _ ↦ trivial
    · rw [Proc.afterClient_of_ne hc]
      exact (Function.forall_update_iff p.threads (fun _ pc ↦ pc.Live)).mpr
        ⟨(clientDoes_of_step hs).live hc, fun k _ ↦ hl k⟩
  | main i =>
    cases Proc.mainDoes_of_step h with
    | received chunk =>
      simp only [Proc.receive]
      split <;> exact hl
    | prepare => exact fun _ ↦ trivial
    | create k =>
      refine (Function.forall_update_iff p.threads (fun _ pc ↦ pc.Live)).mpr
        ⟨?_, fun k _ ↦ hl k⟩
      split <;> trivial
    | _ => exact hl

/-- A thread with work left is never stuck. -/
theorem clientStep_isSome {param : ThreadParam} {w : Shm} {t : Table} {pc : ClientPc}
    (a : ClientInput) (hl : pc.Live) (ha : pc ≠ .absent) (hx : pc ≠ .exited) :
    (clientStep env param w (pc, t) a).isSome := by
  cases pc with
  | absent => exact absurd rfl ha
  | exited => exact absurd rfl hx
  | crashed => exact absurd hl id
  | start | header | check =>
    simp only [clientStep]
    split <;> rfl
  | playback fd s =>
    simp only [clientStep, Option.isSome_map]
    exact Session.step_isSome env _ _ w a.session hl.1 hl.2.1 hl.2.2
  | send | close | unlock => rfl

/-- The two facts that carry progress: no thread is missing, and none is in a dead end. -/
private structure Sure (env : Env) (t₀ : Table) (p : Proc) : Prop where
  tables : p.tcpInfo.Agrees t₀
  stage : ∃ cur, Stage env True t₀ p cur
  live : ∀ j, (p.threads j).Live

private theorem sure_of_run {p₀ : Proc} {τ : List Event} (h₀ : p₀.Waiting)
    (h : (process env).RunIn (fun _ _ a ↦ a.Creates True) p₀ τ p) : Sure env p₀.tcpInfo p := by
  refine h.invariant (fun _ p ↦ Sure env p₀.tcpInfo p) ⟨.refl _, ⟨[], .idle h₀⟩, ?_⟩ ?_
  · intro j
    rcases h₀.resting j with hj | hj <;> rw [hj] <;> trivial
  · intro τ p w a p' w' es hp hsure hs
    obtain ⟨hag, ⟨cur, hst⟩, hl⟩ := hp
    refine ⟨Proc.step_agrees hag hs, ?_, Proc.step_live hl hs⟩
    rcases hst.step hag hsure hs with hst' | ⟨_, _, hst'⟩
    · exact ⟨_, hst'⟩
    · exact ⟨[], hst'⟩

private theorem Sure.enabled (h : Sure env t₀ p) (hr : ¬ p.Returned) (w : World) :
    ∃ a, ((process env).step w p a).isSome := by
  obtain ⟨hag, ⟨cur, hst⟩, hl⟩ := h
  simp only [Proc.Returned, not_or] at hr
  by_cases hq : p.Resting
  · exact ⟨.main {}, hst.main_isSome hag hq hr.1 hr.2.1 hr.2.2 w⟩
  · simp only [Proc.Resting, not_forall, not_or] at hq
    obtain ⟨j, ha, hx⟩ := hq
    refine ⟨.client j {}, ?_⟩
    simp only [process, Proc.step, Option.isSome_map]
    exact clientStep_isSome _ (hl j) ha hx

private theorem Sure.not_wedged (h : Sure env t₀ p) : ¬ p.Wedged env := by
  obtain ⟨hag, ⟨cur, hst⟩, hl⟩ := h
  rintro ⟨hwait, hnever⟩
  have hmain : (∃ i, p.main = .lock i) ∨ ∃ i, p.main = .join i :=
    hwait.imp (fun ⟨i, hi, _⟩ ↦ ⟨i, hi⟩) (fun ⟨i, hi, _⟩ ↦ ⟨i, hi⟩)
  have hne (pc : MainPc) (h1 : ∀ i, pc ≠ .lock i) (h2 : ∀ i, pc ≠ .join i) : p.main ≠ pc := by
    rintro rfl
    rcases hmain with ⟨i, hi⟩ | ⟨i, hi⟩
    · exact h1 i hi
    · exact h2 i hi
  obtain ⟨τ, p', hrun, hw, -⟩ := hst.completes hag hl (hne .closed (by simp) (by simp))
    (hne .dead (by simp) (by simp))
  have hopen : (process env).Open p τ p' := hrun.mono (fun _ _ _ _ ↦ trivial)
  exact hne .recv (by simp) (by simp) ((hnever τ p' hopen).symm.trans hw.main)

/-! ### With a thread missing -/

/-- The thread of client `m + 1` was not created, and main has not noticed. -/
private structure Missing (n m : Nat) (p : Proc) : Prop where
  clients : (p.tcpInfo 0).clientNum = n
  bounded : m < n
  blocked : p.Blocked n m
  mute : p.mute = true
  threads : OneByOne p.threads m .absent

private theorem missing_of_create {m : Nat} {i : MainInput} (h : p.Sound env t₀)
    (hm : p.main = .create m) (hi : i.created = false)
    (hs : p.mainStep env w i = some (p', w', es)) : Missing (t₀ 0).clientNum m p' := by
  obtain ⟨hag, cur, hst⟩ := h
  simp only [Proc.mainStep, hm, hi, Option.some.injEq, Prod.mk.injEq] at hs
  obtain ⟨rfl, -, -⟩ := hs
  have hn : (p.tcpInfo 0).clientNum = (t₀ 0).clientNum := (hag 0).2.2.2
  cases hst with
  | between chunk pre k σ hr ho hc hth hf hb =>
    cases hb with
    | create hp hu hlt =>
      obtain rfl : m = k := by simpa [hm] using hp
      exact ⟨hn, hlt, .lock rfl, hu, hth.set .absent⟩
    | _ => simp_all
  | idle hw => simp [hw.main] at hm
  | working _ _ _ _ _ _ _ _ _ _ _ _ hb => cases hb <;> simp_all
  | missing _ _ _ _ _ _ _ _ _ hb => cases hb <;> simp_all
  | closed | running | recording | preparing | dead => simp_all

/-- Main waits for `mute`, which it holds itself. -/
private theorem Missing.stuck {n m : Nat} (h : Missing n m p) (hm : p.main = .lock (m + 1))
    (hlt : m + 1 < n) (w : World) (a : Act) : (process env).step w p a = none := by
  have hc : m + 1 < (p.tcpInfo 0).clientNum := h.clients ▸ hlt
  cases a with
  | client j i => simp [process, Proc.step, clientStep_resting (h.threads.resting j)]
  | main i => simp [process, Proc.step, Proc.mainStep, hm, hc, h.mute]

private theorem Missing.wedged {n m : Nat} (h : Missing n m p) (hm : p.main = .lock (m + 1))
    (hlt : m + 1 < n) : p.Wedged env := by
  refine ⟨.inl ⟨m + 1, hm, h.clients ▸ hlt, h.mute⟩, fun τ p' hrun ↦ ?_⟩
  have hsame : p' = p := hrun.invariant (fun _ q ↦ q = p) rfl (by
    rintro τ q w a q' w' es rfl - hs
    rw [h.stuck hm hlt w a] at hs
    cases hs)
  rw [hsame]

private theorem Missing.enabled {n m : Nat} (h : Missing n m p) (he : m + 1 = n)
    (hj : p.main ≠ .join m) (w : World) : ∃ a, ((process env).step w p a).isSome := by
  refine ⟨.main {}, ?_⟩
  simp only [process, Proc.step]
  cases h.blocked with
  | lock hm =>
    have hge : ¬ m + 1 < n := by omega
    simp only [Proc.mainStep, hm, h.clients, hge, if_false, Option.isSome_some]
  | join k hm hk =>
    have hne : k ≠ m := by
      rintro rfl
      exact hj hm
    have hlt : k < n := by omega
    simp only [Proc.mainStep, hm, h.clients, hlt, h.threads.before k (by omega), true_or, if_true,
      Option.isSome_some]

private theorem Missing.step {n m : Nat} {a : Act} (h : Missing n m p) (hj : p.main ≠ .join m)
    (hs : (process env).step w p a = some (p', w', es)) :
    Missing n m p' ∧ p'.stepsLeft n < p.stepsLeft n := by
  obtain ⟨i, rfl, hi⟩ := h.threads.resting.main_step hs
  obtain ⟨⟨main, rfl⟩, -, hb⟩ := h.blocked.main_step h.clients h.mute h.threads
    (fun hm ↦ absurd hm hj) h.bounded hi
  refine ⟨⟨h.clients, h.bounded, hb, h.mute, h.threads⟩, ?_⟩
  have hne : p.main ≠ .recv := by cases h.blocked <;> simp_all
  have hset (k : Nat) (hk : p.main = .setIndex k ∨ p.main = .create k) : k < n := by
    cases h.blocked <;> simp_all
  rcases main_stepsLeft h.clients hne hset hi with hr | hlt
  · cases hb <;> simp_all
  · exact hlt

/-- Without a further client main gets to the join of the missing thread. -/
private theorem Missing.inevitably {n m : Nat} (h : Missing n m p) (he : m + 1 = n) :
    (process env).Inevitably (fun _ ↦ True) (fun _ ↦ True)
      (fun q ↦ q.main = .join m ∧ q.threads m = .absent) p := by
  refine .of_measure (Proc.stepsLeft n) (I := Missing n m) ?_ ?_ h
  · intro w p hp hq _
    obtain ⟨a, ha⟩ := hp.enabled he (fun hm ↦ hq ⟨hm, hp.threads.here⟩) w
    exact ⟨a, trivial, ha⟩
  · intro w p a p' w' es hp hq _ _ hs
    exact .inr (hp.step (fun hm ↦ hq ⟨hm, hp.threads.here⟩) hs)

/-! ### Whole runs -/

/-- For every number of clients and whatever `connect`, `send` and the lock files do: while
every `pthread_create` has worked, some thread can take a step until `distribute_run` returns,
and main waits for nobody in vain. When a creation fails for the first time, main is wedged at
once if there is a further client; if there is none, it gets to the join of the thread that was
never created, however the threads are scheduled. -/
theorem goesOn_while_threads_created {p₀ : Proc} (h₀ : p₀.Waiting) :
    (∀ τ p, (process env).RunIn (fun _ _ a ↦ a.Creates True) p₀ τ p → p.GoesOn env) ∧
      ∀ τ p i a w p' w' es, (process env).RunIn (fun _ _ a ↦ a.Creates True) p₀ τ p →
        p.main = .create i → a.created = false → p.mainStep env w a = some (p', w', es) →
        (i + 1 < (p.tcpInfo 0).clientNum → p'.Wedged env) ∧
          (i + 1 = (p.tcpInfo 0).clientNum →
            (process env).Inevitably (fun _ ↦ True) (fun _ ↦ True)
              (fun q ↦ q.main = .join i ∧ q.threads i = .absent) p') := by
  constructor
  · intro τ p hrun
    have hp := sure_of_run h₀ hrun
    refine ⟨?_, hp.not_wedged⟩
    by_cases hr : p.Returned
    · exact .inl hr
    · exact .inr (hp.enabled hr)
  · intro τ p i a w p' w' es hrun hm ha hs
    have hopen : (process env).Open p₀ τ p := hrun.mono (fun _ _ _ _ ↦ trivial)
    obtain ⟨hag, done, cur, -, -, hst⟩ := chunked_of_open h₀ hopen
    have hn : (p.tcpInfo 0).clientNum = (p₀.tcpInfo 0).clientNum := (hag 0).2.2.2
    have hmiss := missing_of_create ⟨hag, cur, hst⟩ hm ha hs
    have hmain : p'.main = .lock (i + 1) := by
      simp only [Proc.mainStep, hm, Option.some.injEq, Prod.mk.injEq] at hs
      rw [← hs.1]
    rw [hn]
    exact ⟨fun hlt ↦ hmiss.wedged hmain hlt, fun he ↦ hmiss.inevitably he⟩

/-- Two clients, and no thread for the first: main waits for `mute`, which it holds itself. -/
theorem failed_creation_wedges :
    let env : Env := ⟨['d'], fun _ ↦ ['1']⟩
    let t : Table := fun i ↦ if i = 0 then { clientNum := 2 } else { address := ['c'] }
    ∃ τ p, (process env).Open (Proc.forked t 0) τ p ∧
      (p.main = .lock 1 ∧ p.mute = true ∧ ∀ w a, (process env).step w p a = none) ∧
      p.Wedged env ∧ ¬ p.GoesOn env := by
  intro env t
  let w : World := ⟨∅, ⟨{env.dayDir 0}, fun _ ↦ none⟩⟩
  obtain ⟨τ, p, hrun, hm⟩ := Machine.exec_observe (process env) (fun _ _ _ ↦ true)
    (Proc.forked t 0)
    ((w, .main { chunk := some [0xEB] }) :: List.replicate 10 (w, .main {}))
    (fun p _ ↦ p.main = .create 0) (fun _ _ _ _ ↦ trivial) (by decide)
  let p' : Proc := { p with
    threads := Function.update p.threads 0 .absent, main := .lock 1 }
  have hs : (process env).step w p (.main { created := false }) = some (p', w, []) := by
    simp [process, Proc.step, Proc.mainStep, hm, p']
  obtain ⟨hag, done, cur, -, -, hst⟩ := chunked_of_open (Proc.forked_waiting t 0) hrun
  have hmiss : Missing 2 0 p' :=
    missing_of_create (i := { created := false }) (w := w) ⟨hag, cur, hst⟩ hm rfl hs
  have hwed : p'.Wedged env := hmiss.wedged rfl (by decide)
  refine ⟨_, p', Machine.RunIn.snoc hrun trivial hs, ⟨rfl, hmiss.mute, ?_⟩, hwed, ?_⟩
  · exact hmiss.stuck rfl (by decide)
  · exact fun hgo ↦ hgo.free hwed

/-- One client, whose thread holds `mute` while main waits to join it. -/
theorem goesOn_one_client :
    let env : Env := ⟨['d'], fun _ ↦ ['1']⟩
    (Proc.forked (oneClient ['x']) 0).Waiting ∧
      ∃ τ p, (process env).RunIn (fun _ _ a ↦ a.Creates True)
          (Proc.forked (oneClient ['x']) 0) τ p ∧
        (p.main = .join 0 ∧ p.threads 0 = .start) ∧ p.GoesOn env := by
  intro env
  let w : World := ⟨∅, ⟨{env.dayDir 0}, fun _ ↦ none⟩⟩
  obtain ⟨τ, p, hrun, hm⟩ := Machine.exec_observe (process env)
    (fun _ _ a ↦ decide (a.Creates True)) (Proc.forked (oneClient ['x']) 0)
    ((w, .main { chunk := some [0xEB] }) :: List.replicate 12 (w, .main {}))
    (fun p _ ↦ p.main = .join 0 ∧ p.threads 0 = .start)
    (fun _ _ _ ha ↦ of_decide_eq_true ha) (by decide)
  have h₀ := Proc.forked_waiting (oneClient ['x']) 0
  exact ⟨h₀, τ, p, hrun, hm, (goesOn_while_threads_created h₀).1 τ p hrun⟩

end DupDistribute.Distribute

import DupDistribute.Distribute.Requests
import DupDistribute.System.Sessions

/-!
# Lock files over whole runs

Any number of processes over one set of lock files. A lock file outlives its replay when a
replay ends with success, because only the failing branch removes it
(`playback.c:191-206`), and when the process dies in the replay: of a null stream, of a second
`free` of an entry, or of `SIGPIPE`, which the model leaves out (`Act.Unsignalled`). And two
processes replay to one address when the second creates the lock file over the first, because
`creat` is not exclusive (`playback.c:182`).
-/

namespace DupDistribute.System

open DupDistribute.Base
open DupDistribute.Record (Env)
open DupDistribute.Playback DupDistribute.Distribute

variable {ι : Type} [DecidableEq ι] {env : Env} {t : ι → Table}
  {S S₀ S' : Sys ι World Proc} {x : ι × Act} {es : List (ι × Event)}

/-! ### Lock files mean playback -/

/-- A process receives a chunk, and its first client thread connects and reads the head. -/
def requestActs (i : ι) (chunk : List UInt8) : List (Unit × ι × Act) :=
  ((), i, .main { chunk := some chunk }) :: List.replicate 5 ((), i, .main {}) ++
    List.replicate 2 ((), i, .client 0 {})

/-- At most one process is inside `scanAndSend` for an address. -/
def OneReplay (S : Sys ι World Proc) : Prop :=
  ∀ address i j, (S.procs i).Within SessionPc.inScan address →
    (S.procs j).Within SessionPc.inScan address → i = j

/-- A lock file is created only while no other process is in `scanAndSend`, or on its way
there, for the same address. -/
def CreatesAlone (S : Sys ι World Proc) (x : ι × Act) : Prop :=
  ∀ address, (S.procs x.1).Creates x.2 address →
    ∀ j, j ≠ x.1 → ¬ (S.procs j).Within SessionPc.replaying address

private theorem session_serves {address : CString} {fd : Int} {w w' : Shm}
    {i : SessionInput} {s s' : Session} {es : List PlaybackEvent}
    (hd : Session.Does env address fd w i s s' w' es) (hp : s.pc = .creat)
    (hok : i.creatOk = true) : s'.pc = .serve := by
  cases hd with
  | created => rfl
  | notCreated _ hno => simp [hok] at hno
  | served hp' | notServed hp' => simp [hp] at hp'
  | scanned _ _ _ hp' => simp [hp] at hp'
  | removed hp' => simp [hp] at hp'

private theorem exclusive_step (h : SoundSys env t S) (hc : CreatesAlone S x)
    (hs : ((process env).interleave ι).step () S x = some (S', (), es))
    (he : Exclusive (rolesOf S)) : Exclusive (rolesOf S') := by
  obtain ⟨p', es', hp, hroles, hm⟩ := step_role h hs
  rw [hroles]
  refine he.move hm ?_
  intro a hcr hsv j hj hr
  have hcreates : (S.procs x.1).Creates x.2 a := ((h x.1).role_step hp).creates hcr hsv
  exact hc a hcreates j hj ((h j).replaying_iff.mpr hr)

/-- A process on its way into `scanAndSend` gets there when the day directory exists. -/
private theorem reaches_scan (env : Env) {k : ι} {address : CString}
    (h : (S.procs k).Within SessionPc.replaying address) :
    ∃ τ S', ((process env).interleave ι).Open S τ S' ∧
      (S'.procs k).Within SessionPc.inScan address ∧
      ∀ j, j ≠ k → S'.procs j = S.procs j := by
  obtain ⟨n, hn⟩ := h
  cases hp : (S.procs k).threads n with
  | playback fd s =>
    simp only [hp, ClientPc.within, Bool.and_eq_true, decide_eq_true_eq] at hn
    obtain ⟨hr, ha⟩ := hn
    cases hs : s.pc with
    | scan sc =>
      refine ⟨[], S, .refl, ⟨n, ?_⟩, fun _ _ ↦ rfl⟩
      simp [hp, ClientPc.within, hs, SessionPc.inScan, ha]
    | serve =>
      let p' := (S.procs k).afterClient n
        (.playback fd { s with dir := env.dayDir 0, pc := .scan {} }) (S.procs k).tcpInfo
      have hstep : (process env).step S.world (S.procs k) (.client n {}) =
          some (p', S.world, [.client n (S.procs k).param.clientIndex
            (.playback (.serve (env.dayDir 0) true))]) := by
        simp [process, Proc.step, clientStep, hp, Session.step, hs, p', ClientPc.ofSession]
      have hin : p'.Within SessionPc.inScan address :=
        ⟨n, by simp [p', Proc.afterClient, ClientPc.within, SessionPc.inScan, ha]⟩
      have hrun := Machine.RunIn.single (C := fun _ _ _ ↦ True) trivial
        (Machine.step_interleave (i := k) hstep)
      exact ⟨_, _, hrun, by simpa using hin, fun j hj ↦ Function.update_of_ne hj ..⟩
    | _ => simp [hs, SessionPc.replaying] at hr
  | _ => simp [hp, ClientPc.within] at hn

private theorem two_replays (h : SoundSys env t S) (hc : ¬ CreatesAlone S x)
    (hs : ((process env).interleave ι).step () S x = some (S', (), es)) :
    ∃ τ S'', ((process env).interleave ι).Open S' τ S'' ∧ ¬ OneReplay S'' := by
  simp only [CreatesAlone, not_forall, not_not] at hc
  obtain ⟨address, ⟨s, i, hmv, hpc, hok⟩, j, hj, hr⟩ := hc
  have hi : (S'.procs x.1).Within SessionPc.replaying address := by
    obtain ⟨p', es', hp, hroles, -⟩ := step_role h hs
    rw [(h.step hs x.1).replaying_iff]
    have hrole : rolesOf S' x.1 = p'.role := by rw [hroles, Function.update_self]
    rw [← rolesOf, hrole]
    obtain ⟨s', fd, es'', hd, hrole'⟩ := ((h x.1).role_step hp).of_moved hmv
    rw [hrole', session_serves hd hpc hok]
    exact .inl rfl
  have hj' : (S'.procs j).Within SessionPc.replaying address := by
    obtain ⟨p', w', es', -, rfl, -⟩ := Machine.interleave_step hs
    simpa [Function.update_of_ne hj] using hr
  obtain ⟨τ₁, S₁, hrun₁, hi₁, hrest₁⟩ := reaches_scan env hi
  obtain ⟨τ₂, S₂, hrun₂, hj₂, hrest₂⟩ := reaches_scan env (hrest₁ j hj ▸ hj')
  refine ⟨_, S₂, hrun₁.trans hrun₂, fun hone ↦ hj (hone address j x.1 hj₂ ?_)⟩
  rw [hrest₂ x.1 (Ne.symm hj)]
  exact hi₁

/-- In every run of any number of processes in which a lock file is created only while no
other process replays to its address, at most one process is inside `scanAndSend` for an
address. Any other creation can be continued to two replays. -/
theorem one_replay {τ : List (ι × Event)} (h₀ : ∀ i, (S₀.procs i).Waiting)
    (h : ((process env).interleave ι).RunIn (fun _ S x ↦ CreatesAlone S x) S₀ τ S) :
    OneReplay S ∧ ∀ x S' es,
      ((process env).interleave ι).step () S x = some (S', (), es) → ¬ CreatesAlone S x →
        ∃ τ' S'', ((process env).interleave ι).Open S' τ' S'' ∧ ¬ OneReplay S'' := by
  have hex₀ : Exclusive (rolesOf S₀) := by
    intro a i j hi
    simp [rolesOf, (h₀ i).resting.role, Role.Replaying, Role.Scanning] at hi
  obtain ⟨hsound, hex⟩ := (soundSys_of_waiting env h₀).invariant hex₀
    (fun _ _ _ _ hso hc hs ↦ exclusive_step hso hc hs) h
  constructor
  · intro address i j hi hj
    have scan_replays {k : ι} (hk : (S.procs k).Within SessionPc.inScan address) :
        (rolesOf S k).Replaying address :=
      (hsound k).replaying_iff.mp (hk.mono SessionPc.replaying_of_inScan)
    exact hex address i j (scan_replays hi) (scan_replays hj)
  · intro x S' es hs hc
    exact two_replays hsound hc hs

/-- Two START requests of one client over two connections: both processes replay to it. -/
theorem two_starts_replay :
    ∃ τ S, ((process ⟨['d'], fun _ ↦ ['1']⟩).interleave Bool).Open
      (forkedSys Bool (oneClient ['c'])) τ S ∧ ¬ OneReplay S := by
  obtain ⟨τ, S, hrun, hf, ht⟩ := Machine.exec_observe
    ((process ⟨['d'], fun _ ↦ ['1']⟩).interleave Bool) (fun _ _ _ ↦ true)
    (forkedSys Bool (oneClient ['c']))
    (requestActs false startRequest ++ requestActs true startRequest ++
      List.replicate 2 ((), false, .client 0 {}) ++ List.replicate 2 ((), true, .client 0 {}))
    (fun S _ ↦
      ((S.procs false).threads 0).within SessionPc.inScan (S.procs false).tcpInfo ['c'] = true ∧
      ((S.procs true).threads 0).within SessionPc.inScan (S.procs true).tcpInfo ['c'] = true)
    (fun _ _ _ _ ↦ trivial) (by decide)
  refine ⟨τ, S, hrun, fun hone ↦ ?_⟩
  exact absurd (hone ['c'] false true ⟨0, hf⟩ ⟨0, ht⟩) (by decide)

/-- One connection, whose START request has got into `scanAndSend`. -/
theorem one_replay_one_start :
    ∃ τ S, ((process ⟨['d'], fun _ ↦ ['1']⟩).interleave Unit).RunIn
        (fun _ S x ↦ CreatesAlone S x) (forkedSys Unit (oneClient ['c'])) τ S ∧
      (S.procs ()).Within SessionPc.inScan ['c'] ∧
      OneReplay S ∧ ∀ x S' es,
        ((process ⟨['d'], fun _ ↦ ['1']⟩).interleave Unit).step () S x = some (S', (), es) →
          ¬ CreatesAlone S x →
          ∃ τ' S'', ((process ⟨['d'], fun _ ↦ ['1']⟩).interleave Unit).Open S' τ' S'' ∧
            ¬ OneReplay S'' := by
  obtain ⟨τ, S, hrun, hw⟩ := Machine.exec_observe (C := fun _ S x ↦ CreatesAlone S x)
    ((process ⟨['d'], fun _ ↦ ['1']⟩).interleave Unit) (fun _ _ _ ↦ true)
    (forkedSys Unit (oneClient ['c']))
    (requestActs () startRequest ++ List.replicate 2 ((), (), .client 0 {}))
    (fun S _ ↦
      ((S.procs ()).threads 0).within SessionPc.inScan (S.procs ()).tcpInfo ['c'] = true)
    (fun _ _ _ _ _ _ j hj ↦ absurd (Subsingleton.elim j _) hj) (by decide)
  exact ⟨τ, S, hrun, ⟨0, hw⟩, one_replay (fun _ ↦ Proc.forked_waiting _ 0) hrun⟩

end DupDistribute.System

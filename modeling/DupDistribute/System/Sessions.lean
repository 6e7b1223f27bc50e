import DupDistribute.Distribute.Thread
import DupDistribute.System.Protocol

/-!
# Processes as parties of the lock-file protocol

At most one thread of a process works at a time, and it is the thread of the current index.
What it does in `playback_run` is the role of the process; `Proc.Sound.role_moves` is the
simulation: every step of a process is a move of the abstract protocol.
-/

namespace DupDistribute.System

open DupDistribute.Base DupDistribute.Wire DupDistribute.Record DupDistribute.Playback
open DupDistribute.Distribute

/-! ### Roles -/

/-- The addresses whose lock file exists. -/
def lockedAt (w : Shm) : Set CString := {a | shmFile a ∈ w}

/-- Creating a lock file locks its address. -/
theorem lockedAt_insert (w : Shm) (a : CString) :
    lockedAt (insert (shmFile a) w) = insert a (lockedAt w) := by
  ext b
  simp [lockedAt, shmFile_inj]

/-- Removing a lock file unlocks its address. -/
theorem lockedAt_erase (w : Shm) (a : CString) :
    lockedAt (w.erase (shmFile a)) = lockedAt w \ {a} := by
  ext b
  simp [lockedAt, shmFile_inj, and_comm]

end DupDistribute.System

namespace DupDistribute.Playback

open DupDistribute.Base DupDistribute.System

/-- The role of a session for an address. -/
def SessionPc.role (a : CString) : SessionPc → Role CString
  | .creat => .creating a
  | .serve => .serving a
  | .scan s => if s.pc = .body then .sending a else .polling a
  | .removeFailed => .failed a
  | .removeEnd => .removing a
  | .removeWrong => .removing a
  | .returned => .away
  | .crashed => .away

end DupDistribute.Playback

namespace DupDistribute.Distribute

open DupDistribute.Base DupDistribute.Wire DupDistribute.Record DupDistribute.Playback
open DupDistribute.System

/-- The role of a client thread. -/
def ClientPc.role (t : Table) : ClientPc → Role CString
  | .playback _ s => s.pc.role (t s.index).address
  | _ => .away

/-- The thread of the current index. -/
def Proc.worker (p : Proc) : ClientPc := p.threads (p.param.clientIndex - 1)

/-- The role of a process is that of its working thread. -/
def Proc.role (p : Proc) : Role CString := p.worker.role p.tcpInfo

/-- The session that a step moves, with its address and the outcomes chosen for it. -/
def Proc.moved (p : Proc) : Act → Option (CString × Session × SessionInput)
  | .main _ => none
  | .client j a =>
    match p.threads j with
    | .playback _ s => some ((p.tcpInfo s.index).address, s, a.session)
    | _ => none

/-- The step creates the lock file of an address. -/
def Proc.Creates (p : Proc) (a : Act) (address : CString) : Prop :=
  ∃ s i, p.moved a = some (address, s, i) ∧ s.pc = .creat ∧ i.creatOk = true

/-- The step removes the lock file of an address. -/
def Proc.Removes (p : Proc) (a : Act) (address : CString) : Prop :=
  ∃ s i, p.moved a = some (address, s, i) ∧
    (s.pc = .removeFailed ∨ s.pc = .removeEnd ∨ s.pc = .removeWrong)

/-- The thread is in the given region of `playback_run` for an address. -/
def ClientPc.within (region : SessionPc → Bool) (t : Table) (a : CString) : ClientPc → Bool
  | .playback _ s => region s.pc && decide ((t s.index).address = a)
  | _ => false

/-- Some thread of the process is in the given region of `playback_run` for an address. -/
def Proc.Within (region : SessionPc → Bool) (a : CString) (p : Proc) : Prop :=
  ∃ j, (p.threads j).within region p.tcpInfo a = true

/-- A region inside another. -/
theorem Proc.Within.mono {region region' : SessionPc → Bool} {a : CString} {p : Proc}
    (hsub : ∀ pc, region pc = true → region' pc = true) (h : p.Within region a) :
    p.Within region' a := by
  obtain ⟨j, hj⟩ := h
  refine ⟨j, ?_⟩
  cases hp : p.threads j with
  | playback fd s =>
    simp only [hp, ClientPc.within, Bool.and_eq_true] at hj ⊢
    exact ⟨hsub _ hj.1, hj.2⟩
  | _ => simp [hp, ClientPc.within] at hj

variable {env : Env} {t₀ : Table} {p p' : Proc} {w w' : World} {a : Act} {es : List Event}

/-- Without a working thread there is no role. -/
theorem Proc.Resting.role (h : p.Resting) : p.role = .away := by
  rcases h (p.param.clientIndex - 1) with hw | hw <;>
    simp [Proc.role, Proc.worker, hw, ClientPc.role]

/-- A thread that can move is the one of the current index. -/
theorem Proc.Sound.active {j : Nat} (h : p.Sound env t₀)
    (hj : ¬ (p.threads j = .absent ∨ p.threads j = .exited)) :
    p.worker = p.threads j ∧ p.param.clientIndex = j + 1 ∧ p.Blocked (t₀ 0).clientNum j := by
  obtain ⟨-, cur, hst⟩ := h
  have hw := hst.working_of_active hj
  exact ⟨by simp [Proc.worker, hw.index], hw.index, hw.blocked⟩

/-- Main prepares the next thread only while no thread works. -/
theorem Proc.Sound.resting (h : p.Sound env t₀) (hl : ∀ m, p.main ≠ .lock m)
    (hjn : ∀ k, p.main ≠ .join k) : p.Resting := by
  intro j
  by_contra hj
  obtain ⟨-, -, hb⟩ := h.active hj
  cases hb with
  | lock hm => exact hl _ hm
  | join k hm => exact hjn k hm

/-- A thread that neither holds a connection nor unlocks. -/
def ClientPc.Idle (pc : ClientPc) : Prop := pc = .absent ∨ pc = .exited ∨ pc = .start

/-- An idle thread has no role. -/
theorem ClientPc.Idle.role {pc : ClientPc} {t : Table} (h : pc.Idle) : pc.role t = .away := by
  rcases h with rfl | rfl | rfl <;> rfl

/-- Without a working thread, the thread of every index is idle. -/
theorem Proc.Resting.idle (h : p.Resting) : p.worker.Idle := by
  rcases h (p.param.clientIndex - 1) with hw | hw
  · exact .inl hw
  · exact .inr (.inl hw)

/-- Everything a step can do to the working thread of its process. -/
inductive Proc.WorkerStep (env : Env) (w w' : World) (p p' : Proc) : Act → List Event → Prop where
  | main (i : MainInput) (es : List Event) (hw : w'.shm = w.shm)
      (hes : ∀ k i e, Event.client k i e ∉ es)
      (hp : (p'.worker = p.worker ∧ p'.param.clientIndex = p.param.clientIndex ∧
        p'.tcpInfo = p.tcpInfo) ∨ p.worker.Idle ∧ p'.worker.Idle) :
      WorkerStep env w w' p p' (.main i) es
  | client (i : ClientInput) (pc' : ClientPc) (t' : Table) (es : List ClientEvent)
      (hd : ClientDoes env p.param w.shm i p.tcpInfo p.worker pc' t' w'.shm es)
      (hwk : p'.worker = if pc' = .crashed then .absent else pc') (hix : p'.param = p.param)
      (ht : p'.tcpInfo = t') :
      WorkerStep env w w' p p' (.client (p.param.clientIndex - 1) i)
        (es.map (.client (p.param.clientIndex - 1) p.param.clientIndex))

/-- Every step is one of these. -/
theorem Proc.Sound.worker_step (h : p.Sound env t₀)
    (hs : p.step env w a = some (p', w', es)) : Proc.WorkerStep env w w' p p' a es := by
  cases a with
  | main i =>
    cases Proc.mainDoes_of_step hs with
    | received chunk hm =>
      have hq := h.resting (by simp [hm]) (by simp [hm])
      refine .main i _ rfl (by simp [receiveEvents]) (.inr ⟨hq.idle, ?_⟩)
      apply Proc.Resting.idle
      simp only [Proc.receive]
      split <;> exact hq
    | prepare hm =>
      have hq := h.resting (by simp [hm]) (by simp [hm])
      exact .main i _ rfl (by simp) (.inr ⟨hq.idle, .inl rfl⟩)
    | setIndex k hm =>
      have hq := h.resting (by simp [hm]) (by simp [hm])
      exact .main i _ rfl (by simp) (.inr ⟨hq.idle, Proc.Resting.idle hq⟩)
    | create k hm =>
      have hq := h.resting (by simp [hm]) (by simp [hm])
      refine .main i _ rfl (by simp) (.inr ⟨hq.idle, ?_⟩)
      simp only [Proc.worker, Function.update_apply]
      split
      · split
        · exact .inr (.inr rfl)
        · exact .inl rfl
      · exact hq.idle
    | _ => exact .main i _ rfl (by simp) (.inl ⟨rfl, rfl, rfl⟩)
  | client j i =>
    obtain ⟨pc', t', shm', es', hc, rfl, rfl, rfl⟩ := Proc.client_step hs
    have hactive : ¬ (p.threads j = .absent ∨ p.threads j = .exited) := by
      intro hr
      simp [clientStep_resting hr] at hc
    obtain ⟨hw, hi, -⟩ := h.active hactive
    obtain rfl : j = p.param.clientIndex - 1 := by omega
    refine .client i pc' t' es' (clientDoes_of_step hc) ?_ ?_ ?_
    · by_cases hcr : pc' = .crashed
      · subst hcr
        rfl
      · rw [Proc.afterClient_of_ne hcr, if_neg hcr]
        simp [Proc.worker]
    · simp only [Proc.afterClient]
      split <;> rfl
    · simp only [Proc.afterClient]
      split <;> rfl

/-- A session works for the client of the current index. -/
theorem Proc.Sound.session_index (h : p.Sound env t₀) {fd : Int} {s : Session}
    (hw : p.worker = .playback fd s) : s.index = p.param.clientIndex := by
  obtain ⟨-, cur, hst⟩ := h
  have hwork := hst.working_of_active (j := p.param.clientIndex - 1) (by
    rw [← Proc.worker, hw]
    simp)
  obtain ⟨chunk, υ, -, hrun⟩ := hwork.run
  rw [hwork.index]
  exact (hrun.facts.session fd s hw).1

/-- Only the working thread can be in `playback_run`. -/
theorem Proc.Sound.within_iff (h : p.Sound env t₀) (region : SessionPc → Bool) (a : CString) :
    p.Within region a ↔ p.worker.within region p.tcpInfo a = true := by
  constructor
  · rintro ⟨j, hj⟩
    have hactive : ¬ (p.threads j = .absent ∨ p.threads j = .exited) := by
      rintro (hr | hr) <;> simp [hr, ClientPc.within] at hj
    obtain ⟨hw, -⟩ := h.active hactive
    rwa [hw]
  · intro hw
    exact ⟨_, hw⟩

/-- A region of the code that is a property of the role of a session is one of the role of
the process. -/
theorem Proc.Sound.region_iff (h : p.Sound env t₀) {region : SessionPc → Bool} {a : CString}
    {R : Role CString → Prop} (haway : ¬ R .away)
    (hpc : ∀ (pc : SessionPc) (b : CString), (region pc = true ∧ b = a) ↔ R (pc.role b)) :
    p.Within region a ↔ R p.role := by
  rw [h.within_iff, Proc.role]
  cases p.worker with
  | playback fd s =>
    rw [ClientPc.within, ClientPc.role, ← hpc, Bool.and_eq_true, decide_eq_true_eq]
  | _ => simpa only [ClientPc.within, ClientPc.role, Bool.false_eq_true, false_iff] using haway

/-- On the way into `scanAndSend` or inside it, as code and as role. -/
theorem Proc.Sound.replaying_iff (h : p.Sound env t₀) {a : CString} :
    p.Within SessionPc.replaying a ↔ p.role.Replaying a := by
  refine h.region_iff (R := fun r ↦ r.Replaying a) ?_ (fun pc b ↦ ?_)
  · simp [Role.Replaying, Role.Scanning]
  · cases pc with
    | scan sc =>
      simp only [SessionPc.replaying, SessionPc.role]
      split <;> simp [Role.Replaying, Role.Scanning]
    | _ => simp [SessionPc.replaying, SessionPc.role, Role.Replaying, Role.Scanning]

/-- Past the poll, as code and as role. -/
theorem Proc.Sound.pastPoll_iff (h : p.Sound env t₀) {a : CString} :
    p.Within SessionPc.pastPoll a ↔ p.role = .sending a := by
  refine h.region_iff (R := fun r ↦ r = .sending a) ?_ (fun pc b ↦ ?_)
  · simp
  · cases pc with
    | scan sc =>
      simp only [SessionPc.pastPoll, SessionPc.role, decide_eq_true_eq]
      split
      · next hb => simp [hb]
      · next hb => simp [hb]
    | _ => simp [SessionPc.pastPoll, SessionPc.role]

/-! ### The simulation -/

/-- A step of a session is a move of its role. -/
theorem session_role_moves {address : CString} {acceptfd : Int} {w w' : Shm}
    {i : SessionInput} {s s' : Session} {es : List PlaybackEvent}
    (h : Session.Does env address acceptfd w i s s' w' es) :
    (s.pc.role address).Moves (lockedAt w) (s'.pc.role address) (lockedAt w') := by
  cases h with
  | created hp =>
    rw [hp, lockedAt_insert]
    exact .create address
  | notCreated hp =>
    rw [hp]
    exact .refuse address
  | served hp =>
    rw [hp]
    exact .serve address
  | notServed hp =>
    rw [hp]
    exact .noRecords address
  | removed hp =>
    rw [lockedAt_erase]
    rcases hp with hp | hp | hp <;> rw [hp]
    · exact .cleanUp address
    · exact .remove address
    · exact .remove address
  | scanned sc sc' es' hp hs =>
    simp only [hp]
    cases Scan.does_of_step hs with
    | unlisted hsc =>
      simp only [SessionPc.role, hsc, SessionPc.ofScan, reduceCtorEq, ↓reduceIte]
      exact .finish address
    | listed names hsc =>
      simp only [SessionPc.role, hsc, SessionPc.ofScan, reduceCtorEq, ↓reduceIte]
      exact .stay _
    | passed hsc hi hl =>
      simp only [SessionPc.role, hsc, SessionPc.ofScan, reduceCtorEq, ↓reduceIte]
      exact .pass address hl
    | stopped hsc =>
      simp only [SessionPc.role, hsc, SessionPc.ofScan, reduceCtorEq, ↓reduceIte]
      exact .finish address
    | finished hsc =>
      simp only [SessionPc.role, hsc, SessionPc.ofScan, reduceCtorEq, ↓reduceIte]
      exact .finish address
    | aborted hsc =>
      simp only [SessionPc.role, hsc, SessionPc.ofScan, ↓reduceIte]
      exact .crash address
    | crashed hsc ha hc =>
      simp only [SessionPc.role, hsc, SessionPc.ofScan, (Scan.body_crashed _ ha hc).1, ↓reduceIte]
      exact .crash address
    | worked buffer hsc ha hc =>
      rcases Scan.body_worked (s.scanArgs address acceptfd) ha hc with hb | hb
      · simp only [SessionPc.role, hsc, SessionPc.ofScan, hb, reduceCtorEq, ↓reduceIte]
        exact .next address
      · simp only [SessionPc.role, hsc, SessionPc.ofScan, hb, ↓reduceIte]
        exact .fail address

private theorem clientDoes_role {param : ThreadParam} {shm shm' : Shm} {i : ClientInput}
    {t t' : Table} {pc pc' : ClientPc} {es : List ClientEvent}
    (hd : ClientDoes env param shm i t pc pc' t' shm' es) :
    ((∀ fd s, pc ≠ .playback fd s) ∧ shm' = shm ∧
      (∀ e, ClientEvent.playback (.scan e) ∉ es) ∧
      (pc'.role t' = pc.role t ∨ pc.role t = .away ∧
        ∃ address index request, pc'.role t' = (Session.enter index request).pc.role address)) ∨
    ∃ fd s s' es', pc = .playback fd s ∧
      Session.Does env (t s.index).address (t s.index).acceptfd shm i.session s s' shm' es' ∧
      pc'.role t' = s'.pc.role (t s.index).address ∧ es = es'.map .playback := by
  cases hd with
  | enter fd => exact .inl ⟨by simp, rfl, by simp, .inr ⟨rfl, _, _, _, rfl⟩⟩
  | session fd s s' _ es' hd =>
    refine .inr ⟨fd, s, s', es', rfl, hd, ?_, rfl⟩
    obtain ⟨hindex, -⟩ := Session.does_frame hd
    cases hp : s'.pc <;> simp [ClientPc.ofSession, hp, ClientPc.role, SessionPc.role, hindex]
  | _ => exact .inl ⟨by simp, rfl, by simp, .inl rfl⟩

/-- Everything a step can do to the role of its process: without a session that moves, the
lock files stay and a request may arrive; otherwise the session takes its step. -/
inductive Proc.RoleStep (env : Env) (w w' : World) (p p' : Proc) (a : Act) (es : List Event) :
    Prop where
  | other (hm : p.moved a = none) (hw : w'.shm = w.shm)
      (hes : ∀ k i e, Event.client k i (.playback (.scan e)) ∉ es)
      (hr : p'.role = p.role ∨ p.role = .away ∧
        ∃ address index request, p'.role = (Session.enter index request).pc.role address)
  | session (address : CString) (s s' : Session) (i : SessionInput) (fd : Int)
      (es' : List PlaybackEvent) (hm : p.moved a = some (address, s, i))
      (ha : address = (p.tcpInfo p.param.clientIndex).address)
      (hr : p.role = s.pc.role address)
      (hd : Session.Does env address fd w.shm i s s' w'.shm es')
      (hr' : p'.role = s'.pc.role address)
      (hes : es = es'.map (fun e ↦
        .client (p.param.clientIndex - 1) p.param.clientIndex (.playback e)))

/-- Every step is one of these. -/
theorem Proc.Sound.role_step (h : p.Sound env t₀) (hs : p.step env w a = some (p', w', es)) :
    Proc.RoleStep env w w' p p' a es := by
  cases h.worker_step hs with
  | main i es hw hes hp =>
    refine .other rfl hw (fun k i e ↦ hes k i _) (.inl ?_)
    rcases hp with ⟨hwk, hix, ht⟩ | ⟨hi, hi'⟩
    · rw [Proc.role, Proc.role, hwk, ht]
    · rw [Proc.role, Proc.role, hi.role, hi'.role]
  | client i pc' t' es' hd hwk hix ht =>
    have hr' : p'.role = pc'.role t' := by
      rw [Proc.role, hwk, ht]
      split
      · next hcr => rw [hcr]; rfl
      · rfl
    rcases clientDoes_role hd with ⟨hno, hshm, hes, hrole⟩ |
      ⟨fd, s, s', es'', hw, hds, hrole, rfl⟩
    · refine .other ?_ hshm (by simp +contextual [hes]) (hr' ▸ hrole)
      simp only [Proc.moved]
      split
      · next fd s hw => exact absurd hw (hno fd s)
      · rfl
    · rw [Proc.worker] at hw
      refine .session (p.tcpInfo s.index).address s s' i.session _ es'' ?_ ?_ ?_ hds
        (hr'.trans hrole) (by simp)
      · simp only [Proc.moved, hw]
      · rw [h.session_index hw]
      · rw [Proc.role, Proc.worker, hw]
        rfl

/-- A session that moves takes the step. -/
theorem Proc.RoleStep.of_moved {address : CString} {s : Session} {i : SessionInput}
    (h : Proc.RoleStep env w w' p p' a es) (hm : p.moved a = some (address, s, i)) :
    ∃ s' fd es', Session.Does env address fd w.shm i s s' w'.shm es' ∧
      p'.role = s'.pc.role address := by
  cases h with
  | other hno => simp [hno] at hm
  | session address' s₁ s' i₁ fd es' hm' _ _ hd hr' =>
    rw [hm'] at hm
    simp only [Option.some.injEq, Prod.mk.injEq] at hm
    obtain ⟨rfl, rfl, rfl⟩ := hm
    exact ⟨s', fd, es', hd, hr'⟩

/-- Only the creation of the lock file leads from `creating` to `serving`. -/
theorem Proc.RoleStep.creates {address : CString} (h : Proc.RoleStep env w w' p p' a es)
    (hr : p.role = .creating address) (hr' : p'.role = .serving address) :
    p.Creates a address := by
  cases h with
  | other _ _ _ hstay =>
    rcases hstay with hstay | ⟨hstay, -⟩
    · simp [hstay, hr] at hr'
    · simp [hstay] at hr
  | session address' s s' i fd es' hm _ hrole hd hrole' =>
    rw [hrole] at hr
    rw [hrole'] at hr'
    generalize w'.shm = shm' at hd
    have hp : s.pc = .creat := by
      cases hp : s.pc <;> simp [hp, SessionPc.role] at hr
      · rfl
      · split at hr <;> cases hr
    have ha : address' = address := by simpa [hp, SessionPc.role] using hr
    refine ⟨s, i, ha ▸ hm, hp, ?_⟩
    cases hd with
    | created _ hok => exact hok
    | notCreated => simp [SessionPc.role] at hr'
    | served hp' | notServed hp' => simp [hp] at hp'
    | scanned _ _ _ hp' => simp [hp] at hp'
    | removed hp' => simp [hp] at hp'

/-- A missing lock file stays missing until it is created. -/
theorem Proc.RoleStep.unlocked {address : CString} (h : Proc.RoleStep env w w' p p' a es)
    (hc : ¬ p.Creates a address) (hl : shmFile address ∉ w.shm) : shmFile address ∉ w'.shm := by
  cases h with
  | other _ hw => rwa [hw]
  | session address' s s' i fd es' hm _ _ hd =>
    generalize w'.shm = shm' at *
    cases hd with
    | created hp hok =>
      intro hin
      rcases Finset.mem_insert.mp hin with heq | hin
      · rw [shmFile_inj] at heq
        exact hc ⟨s, i, heq ▸ hm, hp, hok⟩
      · exact hl hin
    | removed => exact fun hin ↦ hl (Finset.mem_of_mem_erase hin)
    | _ => exact hl

/-- A lock file stays until it is removed. -/
theorem Proc.RoleStep.locked {address : CString} (h : Proc.RoleStep env w w' p p' a es)
    (hc : ¬ p.Removes a address) (hl : shmFile address ∈ w.shm) : shmFile address ∈ w'.shm := by
  cases h with
  | other _ hw => rwa [hw]
  | session address' s s' i fd es' hm _ _ hd =>
    generalize w'.shm = shm' at *
    cases hd with
    | created => exact Finset.mem_insert_of_mem hl
    | removed hp =>
      refine Finset.mem_erase.mpr ⟨fun heq ↦ ?_, hl⟩
      rw [shmFile_inj] at heq
      exact hc ⟨s, i, heq ▸ hm, hp⟩
    | _ => exact hl

/-- Every step of a process is a move of the protocol. -/
theorem Proc.Sound.role_moves (h : p.Sound env t₀) (hs : p.step env w a = some (p', w', es)) :
    p.role.Moves (lockedAt w.shm) p'.role (lockedAt w'.shm) := by
  cases h.role_step hs with
  | other hm hw hes hr =>
    rw [hw]
    rcases hr with hr | ⟨hr, address, index, request, hr'⟩
    · rw [hr]
      exact .stay _
    · rw [hr, hr']
      simp only [Session.enter]
      split
      · exact .start address
      · split <;> exact .stop address
  | session address s s' i fd es' hm ha hr hd hr' =>
    rw [hr, hr']
    exact session_role_moves hd

end DupDistribute.Distribute

namespace DupDistribute.System

open DupDistribute.Base
open DupDistribute.Record (Env)
open DupDistribute.Playback DupDistribute.Distribute

variable {ι : Type} [DecidableEq ι] {env : Env} {t : ι → Table}
  {S S₀ S' : Sys ι World Proc} {x : ι × Act} {es : List (ι × Event)}

/-! ### Families of processes -/

/-- Every process is in some stage, with the table it started from. -/
def SoundSys (env : Env) (t : ι → Table) (S : Sys ι World Proc) : Prop :=
  ∀ i, (S.procs i).Sound env (t i)

/-- The roles of the processes. -/
def rolesOf (S : Sys ι World Proc) (i : ι) : Role CString := (S.procs i).role

/-- Every step keeps the processes in stages. -/
theorem SoundSys.step (h : SoundSys env t S)
    (hs : ((process env).interleave ι).step () S x = some (S', (), es)) : SoundSys env t S' := by
  obtain ⟨p', w', es', hp, rfl, -⟩ := Machine.interleave_step hs
  intro i
  by_cases hi : i = x.1
  · subst hi
    simpa using (h x.1).step hp
  · simpa [Function.update_of_ne hi] using h i

/-- Invariants of a family may rely on the stages of its processes. -/
theorem SoundSys.invariant {C : Unit → Sys ι World Proc → ι × Act → Prop}
    {I : Sys ι World Proc → Prop} {τ : List (ι × Event)} (h₀ : SoundSys env t S₀) (hi : I S₀)
    (keep : ∀ S x S' es, SoundSys env t S → C () S x →
      ((process env).interleave ι).step () S x = some (S', (), es) → I S → I S')
    (h : ((process env).interleave ι).RunIn C S₀ τ S) : SoundSys env t S ∧ I S :=
  h.invariant (fun _ S ↦ SoundSys env t S ∧ I S) ⟨h₀, hi⟩
    (fun _ _ _ _ _ _ _ hs hc hstep ↦ ⟨hs.1.step hstep, keep _ _ _ _ hs.1 hc hstep hs.2⟩)

/-- Every run keeps the processes in stages. -/
theorem SoundSys.run {C : Unit → Sys ι World Proc → ι × Act → Prop} {τ : List (ι × Event)}
    (h₀ : SoundSys env t S₀) (h : ((process env).interleave ι).RunIn C S₀ τ S) :
    SoundSys env t S :=
  (h₀.invariant (I := fun _ ↦ True) trivial (fun _ _ _ _ _ _ _ _ ↦ trivial) h).1

omit [DecidableEq ι] in
/-- Processes that wait for chunks are in their first stage. -/
theorem soundSys_of_waiting (env : Env) (h₀ : ∀ i, (S₀.procs i).Waiting) :
    SoundSys env (fun i ↦ (S₀.procs i).tcpInfo) S₀ :=
  fun i ↦ (h₀ i).sound

/-- Processes that start by waiting for chunks are in stages ever after. -/
theorem soundSys_of_run {C : Unit → Sys ι World Proc → ι × Act → Prop}
    {τ : List (ι × Event)} (h₀ : ∀ i, (S₀.procs i).Waiting)
    (h : ((process env).interleave ι).RunIn C S₀ τ S) :
    SoundSys env (fun i ↦ (S₀.procs i).tcpInfo) S :=
  (soundSys_of_waiting env h₀).run h

/-- Freshly forked processes with the same table, no lock files and no records. -/
def forkedSys (ι : Type) (t : Table) : Sys ι World Proc :=
  ⟨fun _ ↦ Proc.forked t 0, ⟨∅, ⟨∅, fun _ ↦ none⟩⟩⟩

/-- A step of the family, as the step of one process. -/
theorem step_role (h : SoundSys env t S)
    (hs : ((process env).interleave ι).step () S x = some (S', (), es)) :
    ∃ p' es', (process env).step S.world (S.procs x.1) x.2 = some (p', S'.world, es') ∧
      rolesOf S' = Function.update (rolesOf S) x.1 p'.role ∧
      (rolesOf S x.1).Moves (lockedAt S.world.shm) p'.role (lockedAt S'.world.shm) := by
  obtain ⟨p', w', es', hp, rfl, -⟩ := Machine.interleave_step hs
  refine ⟨p', es', hp, ?_, (h x.1).role_moves hp⟩
  funext i
  by_cases hi : i = x.1
  · subst hi
    simp [rolesOf]
  · simp [rolesOf, Function.update_of_ne hi]

end DupDistribute.System

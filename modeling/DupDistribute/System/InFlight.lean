import DupDistribute.Distribute.Forward
import DupDistribute.System.Locks

/-!
# What is in flight when a lock file changes

A replay polls for its lock file before each record, and a client thread checks for it
before it forwards a chunk. After END has removed the lock file, a replay can only send the
record for which it had passed its poll; after START has created it, a process can only
forward the chunk for which it had made its check. Both hold as long as the lock file stays
as it is, which for END is not the programs' doing: the next START creates the same file.
-/

namespace DupDistribute.System

open DupDistribute.Base
open DupDistribute.Record (Env)
open DupDistribute.Playback DupDistribute.Distribute

variable {ι : Type} [DecidableEq ι] {env : Env} {t : ι → Table} {t₀ : Table}
  {S S₀ S₁ S₂ S' : Sys ι World Proc} {x : ι × Act} {p p' : Proc} {w w' : World} {a : Act}
  {es : List Event} {address : CString}

/-! ### Replays -/

/-- The record sent to an address by `scanAndSend`. -/
def sendsRecord (t : Table) (address : CString) : Event → Bool
  | .client _ i (.playback (.scan (.send _ _ _))) => decide ((t i).address = address)
  | _ => false

/-- The answer of a poll in `scanAndSend` for the lock file of an address. -/
def polls (t : Table) (address : CString) : Event → Option Bool
  | .client _ i (.playback (.scan (.access present))) =>
    if (t i).address = address then some present else none
  | _ => none

/-- One record in flight for each process past its poll. -/
def recordsInFlight (address : CString) (p : Proc) : Nat :=
  if p.role = .sending address then 1 else 0

private theorem recordsInFlight_le (address : CString) (p : Proc) :
    recordsInFlight address p ≤ 1 := by
  simp only [recordsInFlight]
  split <;> omega

private theorem scan_pays {args : ScanArgs} {shm : Shm} {i : ScanInput} {sc sc' : Scan}
    {es : List ScanEvent} {k n : Nat} (h : Scan.Does args shm i sc sc' es)
    (hl : shmFile address ∉ shm) (hn : (t₀ n).address = args.address) :
    (es.map (fun e ↦ Event.client k n (.playback (.scan e)))).countP (sendsRecord t₀ address) +
        (if (SessionPc.ofScan sc').role args.address = .sending address then 1 else 0) ≤
      if (SessionPc.scan sc).role args.address = .sending address then 1 else 0 := by
  cases h with
  | unlisted hp | listed _ hp | stopped hp | finished hp | aborted hp =>
    simp [sendsRecord, SessionPc.ofScan, SessionPc.role]
  | passed hp hi hlock =>
    have hne : args.address ≠ address := fun heq ↦ hl (heq ▸ hlock)
    simp [sendsRecord, SessionPc.ofScan, SessionPc.role, hne]
  | crashed hp ha hc =>
    obtain ⟨hcr, path, he⟩ := Scan.body_crashed args ha hc
    simp [sendsRecord, SessionPc.ofScan, SessionPc.role, hcr, he]
  | worked buffer hp ha hc =>
    have hafter : (SessionPc.ofScan (sc.body args i).1).role args.address ≠ .sending address := by
      rcases Scan.body_worked args ha hc with hb | hb <;>
        simp [SessionPc.ofScan, SessionPc.role, hb]
    obtain ⟨path, rest, he, hr⟩ := Scan.body_events args ha hc
    rw [if_neg hafter, he]
    rcases hr with rfl | rfl
    · simp [sendsRecord]
    · simp [sendsRecord, SessionPc.role, hp, hn]

/-- While its lock file is missing, a replay sends only the record in flight. -/
private theorem replay_pays (h : p.Sound env t₀) (hl : shmFile address ∉ w.shm)
    (hs : p.step env w a = some (p', w', es)) :
    es.countP (sendsRecord t₀ address) + recordsInFlight address p' ≤
      recordsInFlight address p := by
  cases h.role_step hs with
  | other _ _ hes hr =>
    have hcount : es.countP (sendsRecord t₀ address) = 0 := by
      rw [List.countP_eq_zero]
      intro e he hsend
      cases e with
      | client k i e =>
        cases e with
        | playback e =>
          cases e with
          | scan e => exact hes k i e he
          | _ => simp [sendsRecord] at hsend
        | _ => simp [sendsRecord] at hsend
      | _ => simp [sendsRecord] at hsend
    rw [hcount, recordsInFlight, recordsInFlight]
    rcases hr with hr | ⟨-, address', index, request, hr⟩
    · rw [hr, Nat.zero_add]
    · have hne : p'.role ≠ .sending address := by
        rw [hr]
        simp only [Session.enter]
        split
        · simp [SessionPc.role]
        · split <;> simp [SessionPc.role]
      simp [hne]
  | session address' s s' i fd es' hm ha hr hd hr' hes =>
    have hn : (t₀ p.param.clientIndex).address = address' := by
      rw [ha, (h.tables _).1]
    rw [recordsInFlight, recordsInFlight, hr, hr', hes]
    generalize w'.shm = shm' at hd
    cases hd with
    | scanned sc sc' es'' hp hsc =>
      rw [hp, List.map_map]
      exact scan_pays (Scan.does_of_step hsc) hl hn
    | _ => simp [sendsRecord, SessionPc.role]

/-- While its lock file is missing, a replay that polls ends. -/
private theorem poll_ends {e : Event} {present : Bool} (h : p.Sound env t₀)
    (hl : shmFile address ∉ w.shm) (hs : p.step env w a = some (p', w', es)) (he : e ∈ es)
    (hp : polls t₀ address e = some present) : present = false ∧ p'.role = .away := by
  obtain ⟨k, n, rfl, hn⟩ : ∃ k n, e = .client k n (.playback (.scan (.access present))) ∧
      (t₀ n).address = address := by
    unfold polls at hp
    split at hp
    · next k n present' =>
      simp only [Option.ite_none_right_eq_some, Option.some.injEq] at hp
      exact ⟨k, n, by rw [hp.2], hp.1⟩
    · cases hp
  cases h.role_step hs with
  | other _ _ hes _ => exact absurd he (hes k n _)
  | session address' s s' i fd es' hm ha hr hd hr' hes =>
    rw [hes] at he
    rw [hr']
    generalize w'.shm = shm' at hd
    simp only [List.mem_map, Event.client.injEq, ClientEvent.playback.injEq] at he
    obtain ⟨e', he', -, rfl, rfl⟩ := he
    have haddr : address' = address := by rw [ha, ← hn, (h.tables _).1]
    subst haddr
    cases hd with
    | scanned sc sc' es'' hsc hss =>
      simp only [List.mem_map, PlaybackEvent.scan.injEq, exists_eq_right] at he'
      cases Scan.does_of_step hss with
      | passed _ _ hlock => exact absurd hlock hl
      | stopped => exact ⟨by simpa using he', rfl⟩
      | unlisted | listed | finished | aborted => simp at he'
      | crashed _ ha hc =>
        obtain ⟨path, heq⟩ := (Scan.body_crashed (s.scanArgs address' fd) ha hc).2
        simp [heq] at he'
      | worked buffer _ ha hc =>
        obtain ⟨path, rest, heq, hr⟩ := Scan.body_events (s.scanArgs address' fd) ha hc
        rw [heq] at he'
        rcases hr with rfl | rfl <;> simp at he'
    | _ => simp at he'

/-- All processes in stages, and no lock file for the address. -/
private structure Unlocked (env : Env) (t : ι → Table) (address : CString)
    (S : Sys ι World Proc) : Prop where
  sound : SoundSys env t S
  missing : shmFile address ∉ S.world.shm

private theorem Unlocked.step {es : List (ι × Event)} (h : Unlocked env t address S)
    (hc : ¬ (S.procs x.1).Creates x.2 address)
    (hs : ((process env).interleave ι).step () S x = some (S', (), es)) :
    Unlocked env t address S' := by
  refine ⟨h.sound.step hs, ?_⟩
  obtain ⟨p', w', es', hp, rfl, -⟩ := Machine.interleave_step hs
  exact ((h.sound x.1).role_step hp).unlocked hc h.missing

private theorem unlocked_of_remove {s : Session} {i : SessionInput} {es : List (ι × Event)}
    (h : SoundSys env t S) (hm : (S.procs x.1).moved x.2 = some (address, s, i))
    (hpc : s.pc = .removeEnd)
    (hs : ((process env).interleave ι).step () S x = some (S', (), es)) :
    Unlocked env t address S' := by
  refine ⟨h.step hs, ?_⟩
  obtain ⟨p', w', es', hp, rfl, -⟩ := Machine.interleave_step hs
  obtain ⟨s', fd, es'', hd, -⟩ := ((h x.1).role_step hp).of_moved hm
  change shmFile address ∉ w'.shm
  generalize w'.shm = shm' at hd
  cases hd with
  | removed => exact Finset.notMem_erase _ _
  | created hp' | notCreated hp' | served hp' | notServed hp' => simp [hpc] at hp'
  | scanned _ _ _ hp' => simp [hpc] at hp'

/-- While its lock file is missing and not created, no process begins to replay. -/
private theorem not_replaying_step (h : p.Sound env t₀) (hc : ¬ p.Creates a address)
    (hs : p.step env w a = some (p', w', es)) (hr : ¬ p.role.Replaying address) :
    ¬ p'.role.Replaying address := by
  intro hr'
  rcases (h.role_moves hs).replaying hr' with hold | ⟨hcr, hsv⟩
  · exact hr hold
  · exact hc ((h.role_step hs).creates hcr hsv)

private theorem polls_end {τ : List (ι × Event)} (h₁ : Unlocked env t address S₁)
    (h : ((process env).interleave ι).RunIn
      (fun _ S y ↦ ¬ (S.procs y.1).Creates y.2 address) S₁ τ S₂) (j : ι) :
    ∀ present ∈ (Machine.eventsOf j τ).filterMap (polls (t j) address),
      present = false ∧ ¬ (S₂.procs j).role.Replaying address := by
  have hinv := h.invariant
    (fun τ S ↦ Unlocked env t address S ∧
      ∀ present ∈ (Machine.eventsOf j τ).filterMap (polls (t j) address),
        present = false ∧ ¬ (S.procs j).role.Replaying address) ⟨h₁, by simp⟩ ?_
  · exact hinv.2
  rintro τ S u ⟨k, a⟩ S' u' es ⟨hu, hpoll⟩ hc hs
  refine ⟨hu.step hc hs, ?_⟩
  obtain ⟨p', w', es', hp, rfl, rfl⟩ := Machine.interleave_step hs
  intro present hm
  rw [Machine.eventsOf_append, List.filterMap_append, List.mem_append] at hm
  by_cases hk : k = j
  · subst hk
    rw [Machine.eventsOf_self] at hm
    simp only [Function.update_self]
    rcases hm with hm | hm
    · obtain ⟨hpr, hnot⟩ := hpoll present hm
      exact ⟨hpr, not_replaying_step (hu.sound k) hc hp hnot⟩
    · obtain ⟨e, he, hpe⟩ := List.mem_filterMap.mp hm
      obtain ⟨hpr, haway⟩ := poll_ends (hu.sound k) hu.missing hp he hpe
      exact ⟨hpr, by simp [haway, Role.Replaying, Role.Scanning]⟩
  · rw [Machine.eventsOf_other hk] at hm
    simp only [Function.update_of_ne (Ne.symm hk)]
    rcases hm with hm | hm
    · exact hpoll present hm
    · simp at hm

/-- Steps left to a replay whose lock file is missing. -/
def replayLeft : SessionPc → Nat
  | .serve => 3
  | .scan s => if s.pc = .check then 1 else 2
  | _ => 0

/-- Steps left to a process before its replay ends, if the lock file stays missing. -/
def processLeft (n : Nat) (p : Proc) : Nat :=
  p.stepsLeft n + match p.worker with
    | .playback _ s => replayLeft s.pc
    | _ => 0

private theorem replayLeft_lt {fd : Int} {shm shm' : Shm} {i : SessionInput} {s s' : Session}
    {es : List PlaybackEvent} (h : Session.Does env address fd shm i s s' shm' es)
    (hl : shmFile address ∉ shm) (hr : s.pc.replaying = true) (hr' : s'.pc.replaying = true) :
    replayLeft s'.pc < replayLeft s.pc := by
  cases h with
  | created hp | notCreated hp => simp [hp, SessionPc.replaying] at hr
  | removed hp => rcases hp with hp | hp | hp <;> simp [hp, SessionPc.replaying] at hr
  | served hp => simp [hp, replayLeft]
  | notServed => simp [SessionPc.replaying] at hr'
  | scanned sc sc' es' hp hs =>
    cases Scan.does_of_step hs with
    | listed names hsc => simp [hp, hsc, SessionPc.ofScan, replayLeft]
    | passed _ _ hlock => exact absurd hlock hl
    | unlisted | stopped | finished | aborted =>
      simp [SessionPc.ofScan, SessionPc.replaying] at hr'
    | crashed _ ha hc =>
      simp [SessionPc.ofScan, (Scan.body_crashed _ ha hc).1, SessionPc.replaying] at hr'
    | worked buffer hsc ha hc =>
      rcases Scan.body_worked (s.scanArgs address fd) ha hc with hb | hb
      · simp [hp, hsc, hb, SessionPc.ofScan, replayLeft]
      · simp [SessionPc.ofScan, hb, SessionPc.replaying] at hr'

/-- The session of a replaying process: its thread works alone, and main waits for it. -/
private structure ReplaysAt (t₀ : Table) (address : CString) (p : Proc) (j : Nat) (fd : Int)
    (s : Session) : Prop where
  thread : p.threads j = .playback fd s
  worker : p.worker = .playback fd s
  index : p.param.clientIndex = j + 1
  replaying : s.pc.replaying = true
  going : s.pc.Going
  address : (p.tcpInfo s.index).address = address
  alone : ∀ k, k ≠ j → p.threads k = .absent ∨ p.threads k = .exited
  blocked : p.Blocked (t₀ 0).clientNum j
  bounded : j < (t₀ 0).clientNum

private theorem replaysAt_of_within (h : p.Sound env t₀)
    (hr : p.Within SessionPc.replaying address) : ∃ j fd s, ReplaysAt t₀ address p j fd s := by
  obtain ⟨j, hj⟩ := hr
  cases hp : p.threads j with
  | playback fd s =>
    have hactive : ¬ (p.threads j = .absent ∨ p.threads j = .exited) := by simp [hp]
    have hw := (h.active hactive).1
    obtain ⟨-, cur, hst⟩ := h
    have hwork := hst.working_of_active hactive
    obtain ⟨chunk, υ, -, hrun⟩ := hwork.run
    simp only [hp, ClientPc.within, Bool.and_eq_true, decide_eq_true_eq] at hj
    refine ⟨j, fd, s, hp, hw.trans hp, hwork.index, hj.1, ?_, hj.2, hwork.alone, hwork.blocked,
      hwork.bounded⟩
    exact (hrun.facts.session fd s hp).2.2.2.2
  | _ => simp [hp, ClientPc.within] at hj

private theorem session_of_playback {param : ThreadParam} {shm shm' : Shm} {i : ClientInput}
    {t t' : Table} {fd fd' : Int} {s s' : Session} {es : List ClientEvent}
    (h : ClientDoes env param shm i t (.playback fd s) (.playback fd' s') t' shm' es) :
    ∃ es', Session.Does env (t s.index).address (t s.index).acceptfd shm i.session s s' shm'
      es' := by
  generalize hq : ClientPc.playback fd' s' = q at h
  cases h with
  | session _ _ s'' _ es'' hd =>
    simp only [ClientPc.ofSession] at hq
    split at hq
    · cases hq
    · cases hq
    · obtain ⟨-, rfl⟩ := ClientPc.playback.inj hq
      exact ⟨es'', hd⟩

private theorem ReplaysAt.main_step {j : Nat} {fd : Int} {s : Session} {i : MainInput}
    (hr : ReplaysAt t₀ address p j fd s) (h : p.Sound env t₀)
    (hr' : p'.Within SessionPc.replaying address)
    (hs : p.step env w (.main i) = some (p', w', es)) :
    processLeft (t₀ 0).clientNum p' < processLeft (t₀ 0).clientNum p := by
  have hsame : p'.worker = p.worker := by
    cases h.worker_step hs with
    | main _ _ _ _ hp =>
      rcases hp with ⟨hwk, -⟩ | ⟨hi, -⟩
      · exact hwk
      · simp [ClientPc.Idle, hr.worker] at hi
  have hm : p.main ≠ .recv ∧
      ∀ k, p.main = .setIndex k ∨ p.main = .create k → k < (t₀ 0).clientNum := by
    cases hr.blocked <;> simp_all
  rcases main_stepsLeft (h.tables 0).2.2.2 hm.1 hm.2 hs with hrecv | hless
  · obtain ⟨-, cur, hst⟩ := h.step hs
    obtain rfl := hst.nil_of_recv hrecv
    obtain ⟨j', hj'⟩ := hr'
    rcases hst.waiting.resting j' with hno | hno <;> simp [hno, ClientPc.within] at hj'
  · simp only [processLeft, hsame]
    omega

private theorem ReplaysAt.client_step {j k : Nat} {fd : Int} {s : Session} {i : ClientInput}
    (hr : ReplaysAt t₀ address p j fd s) (h : p.Sound env t₀) (hl : shmFile address ∉ w.shm)
    (hr' : p'.Within SessionPc.replaying address)
    (hs : p.step env w (.client k i) = some (p', w', es)) :
    processLeft (t₀ 0).clientNum p' < processLeft (t₀ 0).clientNum p := by
  obtain ⟨j', fd', s', hat⟩ := replaysAt_of_within (h.step hs) hr'
  obtain ⟨pc', t', shm', es', hc, rfl, rfl, rfl⟩ := Proc.client_step hs
  obtain rfl : k = j := by
    by_contra hne
    simp [clientStep_resting (hr.alone k hne)] at hc
  have hcr : pc' ≠ .crashed := by
    rintro rfl
    simpa [Proc.afterClient] using hat.thread
  have hw' := hat.worker
  simp only [Proc.afterClient_of_ne hcr] at hw' ⊢
  obtain rfl : pc' = .playback fd' s' := by simpa [Proc.worker, hr.index] using hw'
  rw [hr.thread] at hc
  obtain ⟨es'', hd⟩ := session_of_playback (clientDoes_of_step hc)
  rw [hr.address] at hd
  have hless := replayLeft_lt hd hl hr.replaying hat.replaying
  have hsum := sum_update clientLeft hr.bounded p.threads (.playback fd' s')
  have hzero (fd : Int) (s : Session) : clientLeft (.playback fd s) = 0 := rfl
  rw [hr.thread, hzero, hzero] at hsum
  simp only [processLeft, Proc.stepsLeft, hr.worker, hw']
  omega

/-- While its lock file is missing, every replay ends. -/
private theorem replay_stops (h : p.Sound env t₀) :
    (process env).Inevitably (fun w ↦ shmFile address ∉ w.shm) (fun _ ↦ True)
      (fun p ↦ ¬ p.Within SessionPc.replaying address) p := by
  refine .of_measure (processLeft (t₀ 0).clientNum) (I := fun p ↦ p.Sound env t₀) ?_ ?_ h
  · intro w p hp hr _
    obtain ⟨j, fd, s, hat⟩ := replaysAt_of_within hp (not_not.mp hr)
    refine ⟨.client j {}, trivial, ?_⟩
    simp only [process, Proc.step, hat.thread, clientStep, Option.isSome_map]
    obtain ⟨hret, hcr⟩ := SessionPc.replaying_ne hat.replaying
    exact Session.step_isSome env _ _ _ _ hat.going hret hcr
  · intro w p a p' w' es hp hr hl _ hs
    obtain ⟨j, fd, s, hat⟩ := replaysAt_of_within hp (not_not.mp hr)
    by_cases hr' : p'.Within SessionPc.replaying address
    · refine .inr ⟨hp.step hs, ?_⟩
      cases a with
      | main => exact hat.main_step hp hr' hs
      | client => exact hat.client_step hp hl hr' hs
    · exact .inl hr'

/-- END stops a running playback. After a process has removed the lock file of an address in
the END branch, and as long as no START creates it again: every process sends at most one
more record to that address, one for which it was past its poll when the file was removed;
every poll it makes finds no lock file, and after it the process does not replay; and it
gets there, however the processes are scheduled. -/
theorem end_stops_replay {τ₁ τ₂ es₁ : List (ι × Event)} {s : Session} {i : SessionInput}
    (h₀ : ∀ j, (S₀.procs j).Waiting) (h₁ : ((process env).interleave ι).Open S₀ τ₁ S)
    (hm : (S.procs x.1).moved x.2 = some (address, s, i)) (hpc : s.pc = .removeEnd)
    (hs : ((process env).interleave ι).step () S x = some (S₁, (), es₁))
    (h₂ : ((process env).interleave ι).RunIn
      (fun _ S y ↦ ¬ (S.procs y.1).Creates y.2 address) S₁ τ₂ S₂) (j : ι) :
    let sends := (Machine.eventsOf j τ₂).countP (sendsRecord (S₀.procs j).tcpInfo address)
    sends ≤ 1 ∧ (0 < sends → (S₁.procs j).Within SessionPc.pastPoll address) ∧
      (∀ present ∈ (Machine.eventsOf j τ₂).filterMap (polls (S₀.procs j).tcpInfo address),
        present = false ∧ ¬ (S₂.procs j).Within SessionPc.replaying address) ∧
      (process env).Inevitably (fun w ↦ shmFile address ∉ w.shm) (fun _ ↦ True)
        (fun p ↦ ¬ p.Within SessionPc.replaying address) (S₂.procs j) := by
  intro sends
  have hun := unlocked_of_remove (soundSys_of_run h₀ h₁) hm hpc hs
  have hspend : sends + recordsInFlight address (S₂.procs j) ≤
      recordsInFlight address (S₁.procs j) :=
    h₂.spend (Unlocked env (fun k ↦ (S₀.procs k).tcpInfo) address) j _ _ hun
      (fun _ _ _ _ hu hc hst ↦ hu.step hc hst)
      (fun _ _ _ _ _ hu _ hst ↦ replay_pays (hu.sound j) hu.missing hst)
  have hsound := hun.sound.run h₂
  refine ⟨?_, fun hpos ↦ ?_, ?_, replay_stops (hsound j)⟩
  · have hle := recordsInFlight_le address (S₁.procs j)
    omega
  · rw [(hun.sound j).pastPoll_iff]
    by_contra hne
    simp only [recordsInFlight, hne, ↓reduceIte] at hspend
    omega
  · intro present hp
    obtain ⟨hpr, hnot⟩ := polls_end hun h₂ j present hp
    exact ⟨hpr, fun hw ↦ hnot ((hsound j).replaying_iff.mp hw)⟩

/-- A replay of two records that is about to poll, and a connection with an END request that
is about to remove the lock file. -/
private def interrupted : List (Unit × Fin 3 × Act) :=
  requestActs 0 startRequest ++ List.replicate 3 ((), 0, .client 0
    { session := { scan := { listing := some [['1', '_', '0'], ['1', '_', '1']] } } }) ++
    requestActs 1 endRequest

/-- A step of the replay, with time for every record and a link that takes it. -/
private def replayAct : Unit × Fin 3 × Act :=
  ((), 0, .client 0 { session := { scan := { now := 10, staleTime := ['1'], send := .sent 1 } } })

/-- Three connections of one client. -/
abbrev threeForks : Sys (Fin 3) World Proc := forkedSys (Fin 3) (oneClient ['c'])

/-- Their processes. -/
abbrev threeProcesses :
    Machine Unit (Sys (Fin 3) World Proc) (Fin 3 × Act) (Fin 3 × Event) :=
  (process ⟨['d'], fun _ ↦ ['1']⟩).interleave (Fin 3)

/-- END removes the lock file while a replay is about to poll; a START over a third
connection creates it again; the replay goes on and sends both records. -/
theorem restart_revives_replay :
    ∃ τ₁ S s i S₁ es₁ τ₂ S₂, threeProcesses.Open threeForks τ₁ S ∧
      (S.procs 1).moved (.client 0 {}) = some (['c'], s, i) ∧ s.pc = .removeEnd ∧
      threeProcesses.step () S (1, .client 0 {}) = some (S₁, (), es₁) ∧
      threeProcesses.Open S₁ τ₂ S₂ ∧ ¬ (S₁.procs 0).Within SessionPc.pastPoll ['c'] ∧
      (Machine.eventsOf 0 τ₂).countP (sendsRecord (oneClient ['c']) ['c']) = 2 := by
  have hexec : ∃ r, r ∈ threeProcesses.exec (fun _ _ _ ↦ true) threeForks interrupted ∧
      (∃ m, m ∈ (r.1.procs 1).moved (.client 0 {}) ∧ m.1 = ['c'] ∧ m.2.1.pc = .removeEnd) ∧
      ∃ q, q ∈ threeProcesses.step () r.1 (1, .client 0 {}) ∧
        (q.1.procs 0).role = .polling ['c'] ∧
        ∃ r', r' ∈ threeProcesses.exec (fun _ _ _ ↦ true) q.1
          (requestActs 2 startRequest ++ [((), 2, .client 0 {})] ++
            List.replicate 4 replayAct) ∧
          (Machine.eventsOf 0 r'.2).countP (sendsRecord (oneClient ['c']) ['c']) = 2 := by
    decide
  obtain ⟨⟨S, τ₁⟩, h₁, ⟨⟨address, s, i⟩, hm, rfl, hpc⟩, ⟨S₁, ⟨⟩, es₁⟩, hs, hrole, ⟨S₂, τ₂⟩, h₂,
    hcount⟩ := hexec
  have hrun₁ : threeProcesses.Open threeForks τ₁ S :=
    Machine.exec_run (fun _ _ _ _ ↦ trivial) h₁
  have hsound := (soundSys_of_run (fun _ ↦ Proc.forked_waiting _ 0) hrun₁).step hs
  refine ⟨τ₁, S, s, i, S₁, es₁, τ₂, S₂, hrun₁, hm, hpc, hs,
    Machine.exec_run (fun _ _ _ _ ↦ trivial) h₂, ?_, hcount⟩
  rw [(hsound 0).pastPoll_iff, hrole]
  simp

/-- The same without the second START: the replay polls and ends. -/
theorem end_stops_replay_two_records :
    ∃ τ₁ S s i S₁ es₁ τ₂ S₂, threeProcesses.Open threeForks τ₁ S ∧
      (S.procs 1).moved (.client 0 {}) = some (['c'], s, i) ∧ s.pc = .removeEnd ∧
      threeProcesses.step () S (1, .client 0 {}) = some (S₁, (), es₁) ∧
      threeProcesses.RunIn (fun _ S y ↦ ¬ (S.procs y.1).Creates y.2 ['c']) S₁ τ₂ S₂ ∧
      (Machine.eventsOf 0 τ₂).filterMap (polls (oneClient ['c']) ['c']) = [false] ∧
      (let sends := (Machine.eventsOf 0 τ₂).countP (sendsRecord (oneClient ['c']) ['c'])
       sends ≤ 1 ∧ (0 < sends → (S₁.procs 0).Within SessionPc.pastPoll ['c']) ∧
        (∀ present ∈ (Machine.eventsOf 0 τ₂).filterMap (polls (oneClient ['c']) ['c']),
          present = false ∧ ¬ (S₂.procs 0).Within SessionPc.replaying ['c']) ∧
        (process ⟨['d'], fun _ ↦ ['1']⟩).Inevitably (fun w ↦ shmFile ['c'] ∉ w.shm)
          (fun _ ↦ True) (fun p ↦ ¬ p.Within SessionPc.replaying ['c']) (S₂.procs 0)) := by
  let quiet (_ : Unit) (S : Sys (Fin 3) World Proc) (y : Fin 3 × Act) : Bool :=
    ((S.procs y.1).moved y.2).all (fun m ↦ decide (m.2.1.pc ≠ .creat))
  have hexec : ∃ r, r ∈ threeProcesses.exec (fun _ _ _ ↦ true) threeForks interrupted ∧
      (∃ m, m ∈ (r.1.procs 1).moved (.client 0 {}) ∧ m.1 = ['c'] ∧ m.2.1.pc = .removeEnd) ∧
      ∃ q, q ∈ threeProcesses.step () r.1 (1, .client 0 {}) ∧
        ∃ r', r' ∈ threeProcesses.exec quiet q.1 [replayAct] ∧
          (Machine.eventsOf 0 r'.2).filterMap (polls (oneClient ['c']) ['c']) = [false] := by
    decide
  obtain ⟨⟨S, τ₁⟩, h₁, ⟨⟨address, s, i⟩, hm, rfl, hpc⟩, ⟨S₁, ⟨⟩, es₁⟩, hs, ⟨S₂, τ₂⟩, h₂,
    hpolls⟩ := hexec
  have hrun₁ : threeProcesses.Open threeForks τ₁ S :=
    Machine.exec_run (fun _ _ _ _ ↦ trivial) h₁
  have hrun₂ : threeProcesses.RunIn (fun _ S y ↦ ¬ (S.procs y.1).Creates y.2 ['c']) S₁ τ₂ S₂ := by
    refine Machine.exec_run ?_ h₂
    rintro _ S y hok ⟨s, i, hmv, hpc, -⟩
    simp [quiet, hmv, hpc] at hok
  exact ⟨τ₁, S, s, i, S₁, es₁, τ₂, S₂, hrun₁, hm, hpc, hs, hrun₂, hpolls,
    end_stops_replay (fun _ ↦ Proc.forked_waiting _ 0) hrun₁ hm hpc hs hrun₂ 0⟩

/-! ### Live chunks -/

/-- A received chunk sent by `distribute_client_send` to a client with the address. -/
def forwards (t : Table) (address : CString) : Event → Bool
  | .client _ i (.send _ _ _) => decide ((t i).address = address)
  | _ => false

/-- Some thread has made its lock-file check for a client with the address, and is about to
send. -/
def PastCheck (address : CString) (p : Proc) : Prop :=
  ∃ j fd, p.threads j = .send fd ∧ (p.tcpInfo p.param.clientIndex).address = address

/-- One chunk in flight for a thread past its check. -/
def chunkOf (address info : CString) : ClientPc → Nat
  | .send _ => if info = address then 1 else 0
  | _ => 0

/-- One chunk in flight for each process past its check. -/
def chunksInFlight (address : CString) (p : Proc) : Nat :=
  chunkOf address (p.tcpInfo p.param.clientIndex).address p.worker

private theorem client_pays {param : ThreadParam} {shm shm' : Shm} {i : ClientInput}
    {t t' : Table} {pc pc' : ClientPc} {es : List ClientEvent} {k : Nat}
    (h : ClientDoes env param shm i t pc pc' t' shm' es) (hl : shmFile address ∈ shm)
    (hn : (t₀ param.clientIndex).address = (t param.clientIndex).address) :
    (es.map (.client k param.clientIndex)).countP (forwards t₀ address) +
        chunkOf address (t' param.clientIndex).address pc' ≤
      chunkOf address (t param.clientIndex).address pc := by
  cases h with
  | unlocked fd hw =>
    have hne : (t param.clientIndex).address ≠ address := fun heq ↦ hw (heq ▸ hl)
    simp [forwards, chunkOf, hne]
  | send fd => simp [forwards, chunkOf, hn]
  | session fd s s' _ es' hd =>
    have hpc : chunkOf address (t param.clientIndex).address (.ofSession fd s') = 0 := by
      simp only [ClientPc.ofSession]
      split <;> rfl
    have hcount : (es'.map (fun e ↦ Event.client k param.clientIndex (.playback e))).countP
        (forwards t₀ address) = 0 := by simp [List.countP_eq_zero, forwards]
    rw [hpc, List.map_map]
    exact Nat.le_of_eq hcount
  | _ => simp [forwards, chunkOf]

/-- While the lock file is there, a process forwards only the chunk in flight. -/
private theorem forward_pays (h : p.Sound env t₀) (hl : shmFile address ∈ w.shm)
    (hs : p.step env w a = some (p', w', es)) :
    es.countP (forwards t₀ address) + chunksInFlight address p' ≤ chunksInFlight address p := by
  cases h.worker_step hs with
  | main i es _ hes hp =>
    have hcount : es.countP (forwards t₀ address) = 0 := by
      rw [List.countP_eq_zero]
      intro e he hf
      cases e with
      | client k i e => exact hes k i e he
      | _ => simp [forwards] at hf
    rw [hcount, Nat.zero_add]
    rcases hp with ⟨hwk, hix, ht⟩ | ⟨-, hi⟩
    · simp [chunksInFlight, hwk, hix, ht]
    · rcases hi with hi | hi | hi <;> simp [chunksInFlight, chunkOf, hi]
  | client i pc' t' es' hd hwk hix ht =>
    have hafter : chunksInFlight address p' =
        chunkOf address (t' p.param.clientIndex).address pc' := by
      rw [chunksInFlight, hwk, hix, ht]
      split
      · next hcr => rw [hcr]; rfl
      · rfl
    rw [hafter, chunksInFlight]
    exact client_pays hd hl (h.tables _).1.symm

/-- All processes in stages, and a lock file for the address. -/
private structure Locked (env : Env) (t : ι → Table) (address : CString)
    (S : Sys ι World Proc) : Prop where
  sound : SoundSys env t S
  present : shmFile address ∈ S.world.shm

private theorem Locked.step {es : List (ι × Event)} (h : Locked env t address S)
    (hc : ¬ (S.procs x.1).Removes x.2 address)
    (hs : ((process env).interleave ι).step () S x = some (S', (), es)) :
    Locked env t address S' := by
  refine ⟨h.sound.step hs, ?_⟩
  obtain ⟨p', w', es', hp, rfl, -⟩ := Machine.interleave_step hs
  exact ((h.sound x.1).role_step hp).locked hc h.present

private theorem locked_of_create {es : List (ι × Event)} (h : SoundSys env t S)
    (hc : (S.procs x.1).Creates x.2 address)
    (hs : ((process env).interleave ι).step () S x = some (S', (), es)) :
    Locked env t address S' := by
  refine ⟨h.step hs, ?_⟩
  obtain ⟨s, i, hm, hpc, hok⟩ := hc
  obtain ⟨p', w', es', hp, rfl, -⟩ := Machine.interleave_step hs
  obtain ⟨s', fd, es'', hd, -⟩ := ((h x.1).role_step hp).of_moved hm
  change shmFile address ∈ w'.shm
  generalize w'.shm = shm' at hd
  cases hd with
  | created => exact Finset.mem_insert_self _ _
  | notCreated _ hno => simp [hok] at hno
  | served hp' | notServed hp' => simp [hpc] at hp'
  | scanned _ _ _ hp' => simp [hpc] at hp'
  | removed hp' => simp [hpc] at hp'

/-- Live forwarding is suspended during playback. After START has created the lock file of an
address and until that file is removed, every process sends at most one received chunk to
clients with that address, one for which it was past its check when the file was created. -/
theorem start_suspends_forwarding {τ₁ τ₂ es₁ : List (ι × Event)}
    (h₀ : ∀ j, (S₀.procs j).Waiting) (h₁ : ((process env).interleave ι).Open S₀ τ₁ S)
    (hc : (S.procs x.1).Creates x.2 address)
    (hs : ((process env).interleave ι).step () S x = some (S₁, (), es₁))
    (h₂ : ((process env).interleave ι).RunIn
      (fun _ S y ↦ ¬ (S.procs y.1).Removes y.2 address) S₁ τ₂ S₂) (j : ι) :
    let sends := (Machine.eventsOf j τ₂).countP (forwards (S₀.procs j).tcpInfo address)
    sends ≤ 1 ∧ (0 < sends → PastCheck address (S₁.procs j)) := by
  intro sends
  have hlk := locked_of_create (soundSys_of_run h₀ h₁) hc hs
  have hspend : sends + chunksInFlight address (S₂.procs j) ≤
      chunksInFlight address (S₁.procs j) :=
    h₂.spend (Locked env (fun k ↦ (S₀.procs k).tcpInfo) address) j _ _ hlk
      (fun _ _ _ _ hu hc hst ↦ hu.step hc hst)
      (fun _ _ _ _ _ hu _ hst ↦ forward_pays (hu.sound j) hu.present hst)
  have hone : chunksInFlight address (S₁.procs j) ≤ 1 ∧
      (0 < chunksInFlight address (S₁.procs j) → PastCheck address (S₁.procs j)) := by
    simp only [chunksInFlight]
    cases hw : (S₁.procs j).worker with
    | send fd =>
      by_cases ha : ((S₁.procs j).tcpInfo (S₁.procs j).param.clientIndex).address = address
      · exact ⟨by simp [chunkOf, ha], fun _ ↦ ⟨_, fd, hw, ha⟩⟩
      · simp [chunkOf, ha]
    | _ => simp [chunkOf]
  exact ⟨by omega, fun hpos ↦ hone.2 (by omega)⟩

/-- A live chunk whose thread is past its check when START creates the lock file. -/
theorem start_suspends_forwarding_in_flight :
    ∃ τ₁ S S₁ es₁ τ₂ S₂, threeProcesses.Open threeForks τ₁ S ∧
      (S.procs 1).Creates (.client 0 {}) ['c'] ∧
      threeProcesses.step () S (1, .client 0 {}) = some (S₁, (), es₁) ∧
      threeProcesses.RunIn (fun _ S y ↦ ¬ (S.procs y.1).Removes y.2 ['c']) S₁ τ₂ S₂ ∧
      (Machine.eventsOf 0 τ₂).countP (forwards (oneClient ['c']) ['c']) = 1 ∧
      (let sends := (Machine.eventsOf 0 τ₂).countP (forwards (oneClient ['c']) ['c'])
       sends ≤ 1 ∧ (0 < sends → PastCheck ['c'] (S₁.procs 0))) := by
  let quiet (_ : Unit) (S : Sys (Fin 3) World Proc) (y : Fin 3 × Act) : Bool :=
    ((S.procs y.1).moved y.2).isNone
  have hexec : ∃ r, r ∈ threeProcesses.exec (fun _ _ _ ↦ true) threeForks
        (((), 0, .main { chunk := some [0xEB] }) :: List.replicate 12 ((), 0, .main {}) ++
          List.replicate 3 ((), 0, .client 0 {}) ++ requestActs 1 startRequest) ∧
      (∃ m, m ∈ (r.1.procs 1).moved (.client 0 {}) ∧ m.1 = ['c'] ∧ m.2.1.pc = .creat ∧
        m.2.2.creatOk = true) ∧
      ∃ q, q ∈ threeProcesses.step () r.1 (1, .client 0 {}) ∧
        ∃ r', r' ∈ threeProcesses.exec quiet q.1 (List.replicate 3 ((), 0, .client 0 {})) ∧
          (Machine.eventsOf 0 r'.2).countP (forwards (oneClient ['c']) ['c']) = 1 := by
    decide
  obtain ⟨⟨S, τ₁⟩, h₁, ⟨⟨address, s, i⟩, hm, rfl, hpc, hok⟩, ⟨S₁, ⟨⟩, es₁⟩, hs, ⟨S₂, τ₂⟩, h₂,
    hcount⟩ := hexec
  have hrun₁ : threeProcesses.Open threeForks τ₁ S :=
    Machine.exec_run (fun _ _ _ _ ↦ trivial) h₁
  have hc : (S.procs 1).Creates (.client 0 {}) ['c'] := ⟨s, i, hm, hpc, hok⟩
  have hrun₂ : threeProcesses.RunIn (fun _ S y ↦ ¬ (S.procs y.1).Removes y.2 ['c']) S₁ τ₂ S₂ := by
    refine Machine.exec_run ?_ h₂
    rintro _ S y hok ⟨s, i, hmv, -⟩
    simp [quiet, hmv] at hok
  exact ⟨τ₁, S, S₁, es₁, τ₂, S₂, hrun₁, hc, hs, hrun₂, hcount,
    start_suspends_forwarding (fun _ ↦ Proc.forked_waiting _ 0) hrun₁ hc hs hrun₂ 0⟩

end DupDistribute.System

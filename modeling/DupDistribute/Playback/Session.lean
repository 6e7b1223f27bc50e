import DupDistribute.Playback.Scan
import DupDistribute.Record.Recorder
import DupDistribute.Wire.DataHeader

/-!
# A playback session

`playback_run` (`playback.c:160-230`) with `myscandirServe` (`playback.c:117-158`) inside
its START branch. The lock file is created before the replay and removed again only when
the replay reports a failure; END and unknown commands remove it. `remove` fails exactly
when there is no file.
-/

namespace DupDistribute.Playback

open DupDistribute.Base DupDistribute.Wire DupDistribute.Record

/-- What a session step does. -/
inductive PlaybackEvent where
  | copy (c : Copy)
  | creat (path : CString) (ok : Bool)
  | serve (dir : CString) (ok : Bool)
  | scan (e : ScanEvent)
  | remove (path : CString) (ok : Bool)
  deriving DecidableEq

/-- Where `playback_run` is. The three `remove` calls stand in the START branch after a
failed replay, in the END branch and in the branch of an unknown command. -/
inductive SessionPc where
  | creat
  | serve
  | scan (s : Scan)
  | removeFailed
  | removeEnd
  | removeWrong
  | returned
  | crashed
  deriving DecidableEq

/-- A call of `playback_run`: its `index` argument, the request, the day directory once
`myscandirServe` has built it, and its place. -/
structure Session where
  index : Nat
  request : ReplayProtocol
  dir : CString
  pc : SessionPc
  deriving DecidableEq

/-- Outcomes the environment chooses for a session step: whether `creat` works, the clock
and the presence of the day directory, and the outcomes of a replay step. -/
structure SessionInput where
  creatOk : Bool := true
  now : Nat := 0
  dayDir : Bool := true
  scan : ScanInput := {}

/-- The branch on `commandtype`, `playback.c:180-229`. -/
def Session.enter (index : Nat) (request : ReplayProtocol) : Session where
  index := index
  request := request
  dir := []
  pc :=
    if request.CommandType = PLAYBACK_START then .creat
    else if request.CommandType = PLAYBACK_END then .removeEnd
    else .removeWrong

/-- Arguments of the replay: `myscandirServe` prints the times with `%d`. -/
def Session.scanArgs (s : Session) (address : CString) (acceptfd : Int) : ScanArgs where
  path := s.dir
  starttime := printD 0 s.request.StartTime.toInt32
  speed := s.request.Speed.toUInt32
  address := address
  acceptfd := acceptfd

/-- The place after a replay step, `playback.c:191-206`. -/
def SessionPc.ofScan (s : Scan) : SessionPc :=
  match s.pc with
  | .returned .success => .returned
  | .returned .fail => .removeFailed
  | .crashed => .crashed
  | _ => .scan s

/-- `remove(shmFile)`. -/
def removeLock (path : CString) (w : Shm) (s : Session) :
    Session × Shm × List PlaybackEvent :=
  ({ s with pc := .returned }, w.erase path, [.remove path (path ∈ w)])

/-- One step of a session of a client with the given table entry. -/
def Session.step (env : Env) (address : CString) (acceptfd : Int) (w : Shm) (s : Session)
    (a : SessionInput) : Option (Session × Shm × List PlaybackEvent) :=
  let path := shmFile address
  match s.pc with
  | .creat =>
    if a.creatOk then some ({ s with pc := .serve }, insert path w, [.creat path true])
    else some ({ s with pc := .returned }, w, [.creat path false])
  | .serve =>
    let dir := env.dayDir a.now
    if a.dayDir then some ({ s with dir := dir, pc := .scan {} }, w, [.serve dir true])
    else some ({ s with pc := .removeFailed }, w, [.serve dir false])
  | .scan sc =>
    (sc.step (s.scanArgs address acceptfd) w a.scan).map (fun r ↦
      ({ s with pc := .ofScan r.1 }, w, r.2.map .scan))
  | .removeFailed => some (removeLock path w s)
  | .removeEnd => some (removeLock path w s)
  | .removeWrong => some (removeLock path w s)
  | .returned => none
  | .crashed => none

/-- Everything a session step can do, by program point and outcome. -/
inductive Session.Does (env : Env) (address : CString) (acceptfd : Int) (w : Shm)
    (a : SessionInput) (s : Session) : Session → Shm → List PlaybackEvent → Prop where
  | created (hp : s.pc = .creat) (hok : a.creatOk = true) :
      Does env address acceptfd w a s { s with pc := .serve } (insert (shmFile address) w)
        [.creat (shmFile address) true]
  | notCreated (hp : s.pc = .creat) (hok : a.creatOk = false) :
      Does env address acceptfd w a s { s with pc := .returned } w
        [.creat (shmFile address) false]
  | served (hp : s.pc = .serve) (hok : a.dayDir = true) :
      Does env address acceptfd w a s { s with dir := env.dayDir a.now, pc := .scan {} } w
        [.serve (env.dayDir a.now) true]
  | notServed (hp : s.pc = .serve) (hok : a.dayDir = false) :
      Does env address acceptfd w a s { s with pc := .removeFailed } w
        [.serve (env.dayDir a.now) false]
  | scanned (sc sc' : Scan) (es : List ScanEvent) (hp : s.pc = .scan sc)
      (hs : sc.step (s.scanArgs address acceptfd) w a.scan = some (sc', es)) :
      Does env address acceptfd w a s { s with pc := .ofScan sc' } w (es.map .scan)
  | removed (hp : s.pc = .removeFailed ∨ s.pc = .removeEnd ∨ s.pc = .removeWrong) :
      Does env address acceptfd w a s { s with pc := .returned } (w.erase (shmFile address))
        [.remove (shmFile address) (shmFile address ∈ w)]

/-- The step function does nothing else. -/
theorem Session.does_of_step {env : Env} {address : CString} {acceptfd : Int} {w w' : Shm}
    {s s' : Session} {a : SessionInput} {es : List PlaybackEvent}
    (h : s.step env address acceptfd w a = some (s', w', es)) :
    Session.Does env address acceptfd w a s s' w' es := by
  cases hp : s.pc with
  | creat =>
    simp only [Session.step, hp] at h
    split at h <;> next hok =>
      simp only [Option.some.injEq, Prod.mk.injEq] at h
      obtain ⟨rfl, rfl, rfl⟩ := h
      first
      | exact .created hp hok
      | exact .notCreated hp (by simpa using hok)
  | serve =>
    simp only [Session.step, hp] at h
    split at h <;> next hok =>
      simp only [Option.some.injEq, Prod.mk.injEq] at h
      obtain ⟨rfl, rfl, rfl⟩ := h
      first
      | exact .served hp hok
      | exact .notServed hp (by simpa using hok)
  | scan sc =>
    simp only [Session.step, hp, Option.map_eq_some_iff] at h
    obtain ⟨⟨sc', es'⟩, hs, he⟩ := h
    simp only [Prod.mk.injEq] at he
    obtain ⟨rfl, rfl, rfl⟩ := he
    exact .scanned sc sc' es' hp hs
  | removeFailed | removeEnd | removeWrong =>
    simp only [Session.step, hp, removeLock, Option.some.injEq, Prod.mk.injEq] at h
    obtain ⟨rfl, rfl, rfl⟩ := h
    exact .removed (by simp [hp])
  | returned | crashed => simp [Session.step, hp] at h

/-- A session keeps its index and its request, copies nothing, and sends record contents. -/
theorem Session.does_frame {env : Env} {address : CString} {acceptfd : Int} {w w' : Shm}
    {a : SessionInput} {s s' : Session} {es : List PlaybackEvent}
    (h : Session.Does env address acceptfd w a s s' w' es) :
    s'.index = s.index ∧ s'.request = s.request ∧ (∀ c, PlaybackEvent.copy c ∉ es) ∧
      ∀ fd buffer res, PlaybackEvent.scan (.send fd buffer res) ∈ es →
        ∃ path, PlaybackEvent.scan (.fopen path (some buffer)) ∈ es := by
  cases h with
  | scanned sc sc' es' hp hs =>
    refine ⟨rfl, rfl, by simp, ?_⟩
    intro fd buffer res hm
    simp only [List.mem_map, PlaybackEvent.scan.injEq, exists_eq_right] at hm ⊢
    exact Scan.step_send hs hm
  | _ => exact ⟨rfl, rfl, by simp, by simp⟩

/-- A session in `scanAndSend` is in its loop, or before it. -/
def SessionPc.Going : SessionPc → Prop
  | .scan s => s.pc = .scandir ∨ s.pc = .check ∨ s.pc = .body
  | _ => True

/-- A request starts outside `scanAndSend`. -/
theorem Session.enter_going (index : Nat) (request : ReplayProtocol) :
    (Session.enter index request).pc.Going := by
  simp only [Session.enter]
  split
  · trivial
  · split <;> trivial

/-- A request has not ended when it starts. -/
theorem Session.enter_ne (index : Nat) (request : ReplayProtocol) :
    (Session.enter index request).pc ≠ .returned ∧
      (Session.enter index request).pc ≠ .crashed := by
  simp only [Session.enter]
  split
  · simp
  · split <;> simp

/-- When `scanAndSend` returns, the session leaves it. -/
theorem Session.does_going {env : Env} {address : CString} {acceptfd : Int} {w w' : Shm}
    {a : SessionInput} {s s' : Session} {es : List PlaybackEvent}
    (h : Session.Does env address acceptfd w a s s' w' es) : s'.pc.Going := by
  cases h with
  | served => exact .inl rfl
  | scanned sc sc' es' hp hs =>
    cases hp' : sc'.pc with
    | returned code => cases code <;> simp [SessionPc.ofScan, hp', SessionPc.Going]
    | _ => simp [SessionPc.ofScan, hp', SessionPc.Going]
  | _ => trivial

/-! ### Regions of the code -/

/-- Inside the START branch, after the lock file was created. -/
def SessionPc.inStart : SessionPc → Bool
  | .serve | .scan _ | .removeFailed => true
  | _ => false

/-- On the way into `scanAndSend`, or inside it. -/
def SessionPc.replaying : SessionPc → Bool
  | .serve | .scan _ => true
  | _ => false

/-- Inside `scanAndSend`. -/
def SessionPc.inScan : SessionPc → Bool
  | .scan _ => true
  | _ => false

/-- Inside `scanAndSend`, past the poll for the lock file and before the send. -/
def SessionPc.pastPoll : SessionPc → Bool
  | .scan s => decide (s.pc = .body)
  | _ => false

/-- A session that has not ended is never stuck. -/
theorem Session.step_isSome (env : Env) (address : CString) (acceptfd : Int) (w : Shm)
    {s : Session} (a : SessionInput) (hg : s.pc.Going) (hr : s.pc ≠ .returned)
    (hc : s.pc ≠ .crashed) : (s.step env address acceptfd w a).isSome := by
  cases hp : s.pc with
  | creat | serve =>
    simp only [Session.step, hp]
    split <;> rfl
  | scan sc =>
    rw [hp] at hg
    simp only [Session.step, hp, Option.isSome_map]
    rcases hg with hsc | hsc | hsc <;> simp [Scan.step, hsc]
  | removeFailed | removeEnd | removeWrong => simp only [Session.step, hp, Option.isSome_some]
  | returned => exact absurd hp hr
  | crashed => exact absurd hp hc

/-- A replay has not ended. -/
theorem SessionPc.replaying_ne {pc : SessionPc} (h : pc.replaying = true) :
    pc ≠ .returned ∧ pc ≠ .crashed := by
  constructor <;> rintro rfl <;> cases h

/-- `scanAndSend` is part of the replay. -/
theorem SessionPc.replaying_of_inScan (pc : SessionPc) (h : pc.inScan = true) :
    pc.replaying = true := by
  cases pc with
  | scan => rfl
  | _ => cases h

end DupDistribute.Playback

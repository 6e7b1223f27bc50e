import DupDistribute.Base.Machine
import DupDistribute.Base.CString
import Mathlib.Data.Finset.Insert

/-!
# Recording a message

`recordData.c:9-89` with the two file operations of `distribute_run` that follow it
(`util.c:222-223`). `initDataRecord` is a machine whose steps are the single calls on
the clock and on the file system; the processes share the store and nothing else, so
`uuid` belongs to the local state. Reading `engine.conf` is taken as one step: its
`data-path` is a parameter, and so is the mapping of seconds to local dates.
-/

namespace DupDistribute.Record

open DupDistribute.Base

/-- `data-path` of `engine.conf`, and `strftime "%Y%m%d"` of the local time. -/
structure Env where
  dataPath : CString
  localDate : Nat → CString

/-- `value` in `CreateDataDir`, `recordData.c:27-29`, for a clock reading. -/
def Env.dayDir (env : Env) (now : Nat) : CString :=
  env.dataPath ++ '/' :: env.localDate now

/-- Directories that exist and the contents of the record files. -/
structure Store where
  dirs : Finset CString
  files : CString → Option (List UInt8)

/-- `fopen` with `w+`: the file exists and is empty. -/
def Store.truncate (w : Store) (path : CString) : Store :=
  { w with files := Function.update w.files path (some []) }

/-- One write at the start of the file, through a stream of its own. -/
def Store.write (w : Store) (path : CString) (bytes : List UInt8) : Store :=
  { w with
    files := Function.update w.files path
      (some (bytes ++ ((w.files path).getD []).drop bytes.length)) }

/-- `CreateDataDir` on the counter, `recordData.c:31-40`. -/
def createDataDirUuid (existed : Bool) (uuid : UInt32) : UInt32 :=
  if existed then uuid + 1 else 0

/-- `CreateDataFile` on the counter, `recordData.c:53-55`. -/
def createDataFileUuid (uuid : UInt32) : UInt32 := if uuid > 999 then 0 else uuid

/-- The counter a call uses in the name, from its value before the call and from the
answer of `access` on the day directory. -/
def nextUuid (uuid : UInt32) (existed : Bool) : UInt32 :=
  createDataFileUuid (createDataDirUuid existed uuid)

/-- `CreateDataFile`, `recordData.c:56-59`: `"%d_%03d"` and `".data"` under the directory. -/
def dataFile (dir : CString) (timestamp uuid : UInt32) : CString :=
  dir ++ '/' :: (printD 0 timestamp.toInt32 ++
    '_' :: (printD 3 uuid.toInt32 ++ ['.', 'd', 'a', 't', 'a']))

/-- What one call of `initDataRecord` started from and read. -/
structure Call where
  dir : CString
  existed : Bool
  uuid : UInt32
  timestamp : UInt32
  deriving DecidableEq

/-- Where a process is in recording a message. -/
inductive Pc where
  | idle
  | accessConf
  | getDirName
  | accessDir (dir : CString)
  | mkdir (dir : CString)
  | createDataFile (dir : CString) (existed : Bool) (before : UInt32)
  | fopen (call : Call) (path : CString)
  | opened (path : CString)
  deriving DecidableEq

/-- The recording part of a process: its private counter and its place in the code. -/
structure Recorder where
  uuid : UInt32
  pc : Pc
  deriving DecidableEq

/-- Outcomes the environment chooses for a step; each step uses the ones it needs. -/
structure Input where
  ok : Bool := true
  now : Nat := 0
  bytes : List UInt8 := []

/-- What a recording step does. -/
inductive Event where
  | readDate (now : Nat)
  | access (dir : CString) (existed : Bool)
  | mkdir (dir : CString) (ok : Bool)
  | readTime (now : Nat)
  | fopen (call : Call) (path : CString)
  | returned (file : Option CString)
  | write (path : CString) (bytes : List UInt8)
  deriving DecidableEq

/-- One step of recording. `mkdir` fails on a directory that exists, `fopen` fails without
the directory, and both may fail for reasons of the environment (`ok`). -/
def Recorder.step (env : Env) (w : Store) (s : Recorder) (a : Input) :
    Option (Recorder × Store × List Event) :=
  match s.pc with
  | .idle => some ({ s with pc := .accessConf }, w, [])
  | .accessConf =>
    if a.ok then some ({ s with pc := .getDirName }, w, [])
    else some ({ s with pc := .idle }, w, [.returned none])
  | .getDirName =>
    some ({ s with pc := .accessDir (env.dayDir a.now) }, w, [.readDate a.now])
  | .accessDir dir =>
    if dir ∈ w.dirs then
      some (⟨createDataDirUuid true s.uuid, .createDataFile dir true s.uuid⟩, w,
        [.access dir true])
    else some ({ s with pc := .mkdir dir }, w, [.access dir false])
  | .mkdir dir =>
    if a.ok ∧ dir ∉ w.dirs then
      some (⟨createDataDirUuid false s.uuid, .createDataFile dir false s.uuid⟩,
        { w with dirs := insert dir w.dirs }, [.mkdir dir true])
    else some ({ s with pc := .idle }, w, [.mkdir dir false, .returned none])
  | .createDataFile dir existed before =>
    let timestamp := UInt32.ofNat a.now
    let uuid := createDataFileUuid s.uuid
    some (⟨uuid, .fopen ⟨dir, existed, before, timestamp⟩ (dataFile dir timestamp uuid)⟩, w,
      [.readTime a.now])
  | .fopen call path =>
    if a.ok ∧ call.dir ∈ w.dirs then
      some ({ s with pc := .opened path }, w.truncate path,
        [.fopen call path, .returned (some path)])
    else some ({ s with pc := .idle }, w, [.returned none])
  | .opened path =>
    some ({ s with pc := .idle }, w.write path a.bytes, [.write path a.bytes])

/-- The recording machine of one process over the shared store. -/
def recorder (env : Env) : Machine Store Recorder Input Event where
  step := Recorder.step env

/-- Everything a recording step can do, by program point and outcome. -/
inductive Recorder.Does (env : Env) (w : Store) (a : Input) :
    Recorder → Recorder → Store → List Event → Prop where
  | call (u : UInt32) : Does env w a ⟨u, .idle⟩ ⟨u, .accessConf⟩ w []
  | conf (u : UInt32) (h : a.ok = true) : Does env w a ⟨u, .accessConf⟩ ⟨u, .getDirName⟩ w []
  | noConf (u : UInt32) (h : a.ok = false) :
      Does env w a ⟨u, .accessConf⟩ ⟨u, .idle⟩ w [.returned none]
  | date (u : UInt32) :
      Does env w a ⟨u, .getDirName⟩ ⟨u, .accessDir (env.dayDir a.now)⟩ w [.readDate a.now]
  | present (u : UInt32) (dir : CString) (h : dir ∈ w.dirs) :
      Does env w a ⟨u, .accessDir dir⟩
        ⟨createDataDirUuid true u, .createDataFile dir true u⟩ w [.access dir true]
  | missing (u : UInt32) (dir : CString) (h : dir ∉ w.dirs) :
      Does env w a ⟨u, .accessDir dir⟩ ⟨u, .mkdir dir⟩ w [.access dir false]
  | made (u : UInt32) (dir : CString) (hok : a.ok = true) (h : dir ∉ w.dirs) :
      Does env w a ⟨u, .mkdir dir⟩ ⟨createDataDirUuid false u, .createDataFile dir false u⟩
        { w with dirs := insert dir w.dirs } [.mkdir dir true]
  | notMade (u : UInt32) (dir : CString) (h : a.ok = false ∨ dir ∈ w.dirs) :
      Does env w a ⟨u, .mkdir dir⟩ ⟨u, .idle⟩ w [.mkdir dir false, .returned none]
  | name (u : UInt32) (dir : CString) (existed : Bool) (before : UInt32) :
      Does env w a ⟨u, .createDataFile dir existed before⟩
        ⟨createDataFileUuid u, .fopen ⟨dir, existed, before, UInt32.ofNat a.now⟩
          (dataFile dir (UInt32.ofNat a.now) (createDataFileUuid u))⟩ w [.readTime a.now]
  | opens (u : UInt32) (call : Call) (path : CString) (hok : a.ok = true)
      (h : call.dir ∈ w.dirs) :
      Does env w a ⟨u, .fopen call path⟩ ⟨u, .opened path⟩ (w.truncate path)
        [.fopen call path, .returned (some path)]
  | notOpened (u : UInt32) (call : Call) (path : CString)
      (h : a.ok = false ∨ call.dir ∉ w.dirs) :
      Does env w a ⟨u, .fopen call path⟩ ⟨u, .idle⟩ w [.returned none]
  | writes (u : UInt32) (path : CString) :
      Does env w a ⟨u, .opened path⟩ ⟨u, .idle⟩ (w.write path a.bytes) [.write path a.bytes]

/-- The step function does nothing else. -/
theorem Recorder.does_of_step {env : Env} {w w' : Store} {s s' : Recorder} {a : Input}
    {es : List Event} (h : s.step env w a = some (s', w', es)) :
    Recorder.Does env w a s s' w' es := by
  obtain ⟨u, pc⟩ := s
  cases pc with
  | idle =>
    simp only [Recorder.step, Option.some.injEq, Prod.mk.injEq] at h
    obtain ⟨rfl, rfl, rfl⟩ := h
    exact .call u
  | accessConf =>
    simp only [Recorder.step] at h
    split at h <;> next hok =>
      simp only [Option.some.injEq, Prod.mk.injEq] at h
      obtain ⟨rfl, rfl, rfl⟩ := h
      first
      | exact .conf u hok
      | exact .noConf u (by simpa using hok)
  | getDirName =>
    simp only [Recorder.step, Option.some.injEq, Prod.mk.injEq] at h
    obtain ⟨rfl, rfl, rfl⟩ := h
    exact .date u
  | accessDir dir =>
    simp only [Recorder.step] at h
    split at h <;> next hd =>
      simp only [Option.some.injEq, Prod.mk.injEq] at h
      obtain ⟨rfl, rfl, rfl⟩ := h
      first
      | exact .present u dir hd
      | exact .missing u dir hd
  | mkdir dir =>
    simp only [Recorder.step] at h
    split at h <;> next hd =>
      simp only [Option.some.injEq, Prod.mk.injEq] at h
      obtain ⟨rfl, rfl, rfl⟩ := h
      first
      | exact .made u dir hd.1 hd.2
      | exact .notMade u dir (by cases ha : a.ok <;> simp_all)
  | createDataFile dir existed before =>
    simp only [Recorder.step, Option.some.injEq, Prod.mk.injEq] at h
    obtain ⟨rfl, rfl, rfl⟩ := h
    exact .name u dir existed before
  | fopen call path =>
    simp only [Recorder.step] at h
    split at h <;> next hd =>
      simp only [Option.some.injEq, Prod.mk.injEq] at h
      obtain ⟨rfl, rfl, rfl⟩ := h
      first
      | exact .opens u call path hd.1 hd.2
      | exact .notOpened u call path (by cases ha : a.ok <;> simp_all)
  | opened path =>
    simp only [Recorder.step, Option.some.injEq, Prod.mk.injEq] at h
    obtain ⟨rfl, rfl, rfl⟩ := h
    exact .writes u path

/-- A recording step is always possible. -/
theorem Recorder.step_isSome (env : Env) (w : Store) (s : Recorder) (a : Input) :
    (s.step env w a).isSome := by
  simp only [Recorder.step]
  split <;> first
  | rfl
  | (split <;> rfl)

/-! ### Names -/

/-- Directory, second and counter can be read back from a record's path. -/
theorem dataFile_inj {dir dir' : CString} {t t' u u' : UInt32}
    (h : dataFile dir t u = dataFile dir' t' u') : dir = dir' ∧ t = t' ∧ u = u' := by
  have hslash (t u : UInt32) : '/' ∉ printD 0 t.toInt32 ++
      '_' :: (printD 3 u.toInt32 ++ ['.', 'd', 'a', 't', 'a']) := by
    have h0 : '/' ∉ printD 0 t.toInt32 := notMem_printD (by decide) (by decide)
    have h3 : '/' ∉ printD 3 u.toInt32 := notMem_printD (by decide) (by decide)
    simp [h0, h3]
  obtain ⟨hd, hf⟩ := split_last (hslash t u) (hslash t' u') h
  obtain ⟨ht, hu⟩ := split_first (notMem_printD (by decide) (by decide))
    (notMem_printD (by decide) (by decide)) hf
  have hu := List.append_cancel_right hu
  have hinj {x y : UInt32} (hxy : x.toInt32 = y.toInt32) : x = y := by
    simpa using congrArg Int32.toUInt32 hxy
  exact ⟨hd, hinj (printD_inj ht), hinj (printD_inj hu)⟩

/-- The path a call opens, from what it started from and read. -/
def Call.path (c : Call) : CString := dataFile c.dir c.timestamp (nextUuid c.uuid c.existed)

end DupDistribute.Record

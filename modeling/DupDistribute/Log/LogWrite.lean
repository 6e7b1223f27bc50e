import DupDistribute.Base.Machine
import DupDistribute.Config.File
import DupDistribute.Log.Printf

/-!
# Writing to the log

`LogWrite` (`log.c:192-219`) reads `engine.conf` again for every message. `ReadLogConfig`
(`log.c:41-72`) builds the name of the log file from `log-path` and the date in a local array and
copies it to `logsetting.filepath`, without a terminator, if it differs from the string there;
`InitLog` opens the file of that name. Calls take turns by `log_mutex`, so a call of one process
is a machine of three steps; files, clock and environment may change between any two of them.
-/

namespace DupDistribute.Log

open DupDistribute.Base DupDistribute.Config

/-! ### State and surroundings -/

/-- `MAXFILEPATH`, `log.h:13`. -/
def MAXFILEPATH : Nat := 512

/-- `LOGSET`, `log.h:34-38`, with the characters of its array. -/
structure LogSet where
  filepath : List Char
  maxfilelen : UInt32
  loglevel : UInt8
  size : filepath.length = MAXFILEPATH
  deriving DecidableEq

/-- The global `logsetting` of a new process. -/
def logsetting : LogSet := ⟨List.replicate MAXFILEPATH nul, 0, 0, List.length_replicate⟩

/-- Stores into `filepath`. -/
def LogSet.store (set : LogSet) (offset : Nat) (s : List Char) : LogSet :=
  { set with
    filepath := blit set.filepath offset s
    size := by rw [length_blit, set.size] }

theorem LogSet.filepath_store (set : LogSet) (offset : Nat) (s : List Char) :
    (set.store offset s).filepath = blit set.filepath offset s := rfl

/-- `strcat` to the string in `filepath`. -/
def LogSet.strcat (set : LogSet) (s : CString) : LogSet :=
  set.store (cstr set.filepath).length (s ++ [nul])

/-- What `GetDate` leaves: `strftime` is given eleven bytes. -/
structure Date where
  text : CString
  nul_notMem : nul ∉ text
  length_le : text.length ≤ 10

/-- `engine.conf` for `access` and `fopen`. -/
inductive ConfFile where
  | missing
  | unreadable
  | text (content : List Char)

/-- What a step of the logger finds: the configuration and the heap behind its entries, the
clock, `HOME`, and whether the log file can be opened. -/
structure Surroundings where
  conf : ConfFile
  behind : List Char
  date : Date
  tm_hour : Int32
  tm_min : Int32
  tm_sec : Int32
  home : Option CString
  opens : Bool

/-- Why a call does not return: the program exits, or does something that has no meaning in C. -/
inductive LogStop where
  | exit
  | nullLookup (key : CString)
  | valueOverrun
  | nullHome
  | filepathOverrun
  | noLevelText (loglevel : UInt8)
  | misread (arg : Misread)
  deriving DecidableEq, Repr

/-- One call of `ReadLogConfig` that returned: the setting and the date it found, and the string
in `logsetting.filepath` afterwards. -/
structure Reading where
  path : CString
  date : CString
  filepath : CString
  deriving DecidableEq, Repr

/-- What a logger does that can be seen. -/
inductive LogEvent where
  | configured (reading : Reading)
  | written (file text : CString)
  | returned (ok : Bool)
  | stopped (stop : LogStop)
  deriving DecidableEq, Repr

/-! ### The configuration, `log.c:16-93` -/

/-- `GetCode`. -/
def getCode (path : CString) : UInt8 :=
  if strcmp "INFO".toList path = 0 then 1
  else if strcmp "WARN".toList path = 0 then 3
  else if strcmp "ERROR".toList path = 0 then 4
  else if strcmp "NONE".toList path = 0 then 0
  else if strcmp "DEBUG".toList path = 0 then 2
  else 255

/-- The name of a log file: directory, slash, date and suffix. -/
def logName (path date : CString) : CString :=
  path ++ '/' :: (date ++ ".log".toList)

/-- `getInfo_ConfigFile` on the entries of `engine.conf`, as an argument of `strcpy`. -/
def lookUp (w : Surroundings) (content : List Char) (key : CString) : Except LogStop CString :=
  match setting w.behind content key with
  | none => .error (.nullLookup key)
  | some value => .ok value

/-- A string built in `value[512]`. -/
def inValue (s : CString) : Except LogStop CString :=
  if s.length < 512 then .ok s else .error .valueOverrun

/-- The name goes to `filepath` if it is not there, `log.c:60-62`. -/
def LogSet.rename (set : LogSet) (value : CString) : LogSet :=
  if strcmp value (cstr set.filepath) ≠ 0 then set.store 0 value else set

/-- `ReadLogConfig`. -/
def readLogConfig (w : Surroundings) (content : List Char) (set : LogSet) :
    Except LogStop (LogSet × Reading) := do
  let path ← lookUp w content "log-path".toList
  let value ← inValue (logName path w.date.text)
  let set := set.rename value
  let level ← lookUp w content "log-level".toList
  let level ← inValue level
  return ({ set with loglevel := getCode level }, ⟨path, w.date.text, cstr set.filepath⟩)

/-- What a lookup finds is passed on. -/
theorem lookUp_ok {w : Surroundings} {content : List Char} {key value : CString} :
    lookUp w content key = .ok value ↔ setting w.behind content key = some value := by
  rw [lookUp]
  split
  · next h => simp [h]
  · next h => simp [h]

theorem inValue_ok {s value : CString} : inValue s = .ok value ↔ s.length < 512 ∧ s = value := by
  rw [inValue]
  split
  · next h => simp [h]
  · next h => simp [h]

theorem length_logName (path date : CString) :
    (logName path date).length = path.length + date.length + 5 := by
  simp only [logName, List.length_append, List.length_cons]
  rfl

theorem nul_notMem_logName {path date : CString} (hpath : nul ∉ path) (hdate : nul ∉ date) :
    nul ∉ logName path date := by
  rw [logName, List.mem_append, List.mem_cons, List.mem_append]
  rintro (h | h | h | h)
  · exact hpath h
  · exact absurd h (by decide)
  · exact hdate h
  · exact absurd h (by decide)

theorem logName_ne_nil (path date : CString) : logName path date ≠ [] := by
  simp [logName]

/-- Both settings of the log are found, and fit in `value[512]` as they are used. -/
def LogKeys (w : Surroundings) (content : List Char) : Prop :=
  ∃ path level, setting w.behind content "log-path".toList = some path ∧
    setting w.behind content "log-level".toList = some level ∧
    (logName path w.date.text).length < 512 ∧ level.length < 512

/-- `ReadLogConfig` returns exactly if both settings are there; else it copies from null or
past its array. -/
theorem readLogConfig_returns_iff (w : Surroundings) (content : List Char) (set : LogSet) :
    (∃ result, readLogConfig w content set = .ok result) ↔ LogKeys w content := by
  simp only [readLogConfig, bind_eq_ok, lookUp_ok, inValue_ok]
  constructor
  · rintro ⟨_, path, hpath, _, ⟨hname, -⟩, level, hlevel, _, ⟨hshort, -⟩, -⟩
    exact ⟨path, level, hpath, hlevel, hname, hshort⟩
  · rintro ⟨path, level, hpath, hlevel, hname, hshort⟩
    exact ⟨_, path, hpath, _, ⟨hname, rfl⟩, level, hlevel, _, ⟨hshort, rfl⟩, rfl⟩

/-- `GetLogSet`, with the reading if there was one. -/
def getLogSet (w : Surroundings) (set : LogSet) : Except LogStop (LogSet × Option Reading) :=
  match w.conf with
  | .missing => .ok ({ set with loglevel := 1, maxfilelen := 4096 }, none)
  | .unreadable => .error .exit
  | .text content =>
    match readLogConfig w content set with
    | .error stop => .error stop
    | .ok (set, reading) => .ok (set, some reading)

/-! ### Opening the file, `log.c:95-101` and `log.c:153-190` -/

/-- `SetTime`. -/
def setTime (w : Surroundings) : CString :=
  printD 0 (w.tm_hour + 8) ++ ':' :: (printD 0 w.tm_min ++ ':' :: printD 0 w.tm_sec)

/-- `LogLevelText[loglevel-1]`. -/
def logLevelText (loglevel : UInt8) : Except LogStop CString :=
  if loglevel = 1 then .ok "INFO".toList
  else if loglevel = 2 then .ok "DEBUG".toList
  else if loglevel = 3 then .ok "WARN".toList
  else if loglevel = 4 then .ok "ERROR".toList
  else .error (.noLevelText loglevel)

/-- The path that `InitLog` makes up if there is none, `log.c:170-177`. -/
def homePath (w : Surroundings) (set : LogSet) : Except LogStop LogSet :=
  match w.home with
  | none => .error .nullHome
  | some path =>
    if MAXFILEPATH ≤ (logName path w.date.text).length then .error .filepathOverrun
    else .ok (((set.store 0 path).strcat ['/']).strcat (w.date.text ++ ".log".toList))

/-- The file is opened and the message begun, `log.c:178-189`; nothing if it cannot be opened. -/
def openLog (w : Surroundings) (set : LogSet) (loglevel : UInt8) :
    Except LogStop (Option (CString × CString)) :=
  if w.opens then
    match logLevelText loglevel with
    | .error stop => .error stop
    | .ok level =>
      .ok (some (cstr set.filepath, '[' :: (level ++ "] [".toList ++ setTime w ++ "] ".toList)))
  else .ok none

/-- `InitLog` after `GetLogSet`: nothing if it fails, else the file and what it writes first. -/
def initLog (w : Surroundings) (set : LogSet) (loglevel : UInt8) :
    Except LogStop (LogSet × Option (CString × CString)) :=
  if loglevel &&& set.loglevel ≠ loglevel then .ok (set, none)
  else do
    let set ← (if (cstr set.filepath).length = 0 then homePath w set else .ok set)
    let opened ← openLog w set loglevel
    return (set, opened)

/-! ### The logger -/

/-- The arguments of `LogWrite`. -/
structure LogCall where
  loglevel : UInt8
  format : CString
  args : List Arg

/-- Where the calls of a process are: between two of them, after `GetLogSet`, with the file open,
or no longer running. -/
inductive LogPc where
  | idle
  | configured (call : LogCall)
  | opened (call : LogCall) (file : CString)
  | stopped (stop : LogStop)

/-- A process as far as it logs. -/
structure Logger where
  set : LogSet
  pc : LogPc

/-- The process before its first message. -/
def Logger.start : Logger := ⟨logsetting, .idle⟩

/-- The process stops. -/
def Logger.stop (l : Logger) (stop : LogStop) : Logger × List LogEvent :=
  (⟨l.set, .stopped stop⟩, [.stopped stop])

/-- A step of `LogWrite`; the call is read when one begins. -/
def logWrite (w : Surroundings) (l : Logger) (call : LogCall) : Option (Logger × List LogEvent) :=
  match l.pc with
  | .idle =>
    match getLogSet w l.set with
    | .error stop => some (l.stop stop)
    | .ok (set, reading) => some (⟨set, .configured call⟩, (reading.map .configured).toList)
  | .configured call =>
    match initLog w l.set call.loglevel with
    | .error stop => some (l.stop stop)
    | .ok (set, none) => some (⟨set, .idle⟩, [.returned false])
    | .ok (set, some (file, text)) => some (⟨set, .opened call file⟩, [.written file text])
  | .opened call file =>
    match printfLog call.format call.args with
    | .error arg => some (l.stop (.misread arg))
    | .ok printed => some (⟨l.set, .idle⟩, [.written file printed.text, .returned true])
  | .stopped _ => none

/-- `LogWrite` called again and again by one process. -/
def logger : Machine Surroundings Logger LogCall LogEvent where
  step w l call := (logWrite w l call).map (fun r ↦ (r.1, w, r.2))

/-- What a step of `LogWrite` can do. -/
inductive LogDoes (w : Surroundings) (call : LogCall) : Logger → Logger → List LogEvent → Prop
  | unread (set : LogSet) (hconf : w.conf = .missing) :
    LogDoes w call ⟨set, .idle⟩
      ⟨{ set with loglevel := 1, maxfilelen := 4096 }, .configured call⟩ []
  | read (set set' : LogSet) (content : List Char) (reading : Reading)
    (hconf : w.conf = .text content) (hread : readLogConfig w content set = .ok (set', reading)) :
    LogDoes w call ⟨set, .idle⟩ ⟨set', .configured call⟩ [.configured reading]
  | refused (set set' : LogSet) (begun : LogCall)
    (hinit : initLog w set begun.loglevel = .ok (set', none)) :
    LogDoes w call ⟨set, .configured begun⟩ ⟨set', .idle⟩ [.returned false]
  | begins (set set' : LogSet) (begun : LogCall) (file text : CString)
    (hinit : initLog w set begun.loglevel = .ok (set', some (file, text))) :
    LogDoes w call ⟨set, .configured begun⟩ ⟨set', .opened begun file⟩ [.written file text]
  | prints (set : LogSet) (begun : LogCall) (file : CString) (printed : Printed)
    (hprint : printfLog begun.format begun.args = .ok printed) :
    LogDoes w call ⟨set, .opened begun file⟩ ⟨set, .idle⟩
      [.written file printed.text, .returned true]
  | stops (l : Logger) (stop : LogStop) (hstop : logWrite w l call = some (l.stop stop)) :
    LogDoes w call l ⟨l.set, .stopped stop⟩ [.stopped stop]

/-- Every step of `LogWrite` is one of these. -/
theorem logDoes_of_step {w : Surroundings} {l l' : Logger} {call : LogCall} {es : List LogEvent}
    (h : logWrite w l call = some (l', es)) : LogDoes w call l l' es := by
  have stops (stop : LogStop) (hstop : logWrite w l call = some (l.stop stop)) :
      LogDoes w call l l' es := by
    rw [hstop] at h
    cases h
    exact .stops l stop hstop
  obtain ⟨set, pc⟩ := l
  cases pc with
  | idle =>
    cases hconf : w.conf with
    | missing =>
      simp only [logWrite, getLogSet, hconf] at h
      cases h
      exact .unread set hconf
    | unreadable => exact stops .exit (by simp only [logWrite, getLogSet, hconf])
    | text content =>
      cases hread : readLogConfig w content set with
      | error stop => exact stops stop (by simp only [logWrite, getLogSet, hconf, hread])
      | ok r =>
        simp only [logWrite, getLogSet, hconf, hread] at h
        cases h
        exact .read set r.1 content r.2 hconf hread
  | configured begun =>
    cases hinit : initLog w set begun.loglevel with
    | error stop => exact stops stop (by simp only [logWrite, hinit])
    | ok r =>
      obtain ⟨set', out⟩ := r
      cases out with
      | none =>
        simp only [logWrite, hinit] at h
        cases h
        exact .refused set set' begun hinit
      | some opened =>
        simp only [logWrite, hinit] at h
        cases h
        exact .begins set set' begun opened.1 opened.2 hinit
  | opened begun file =>
    cases hprint : printfLog begun.format begun.args with
    | error arg => exact stops (.misread arg) (by simp only [logWrite, hprint])
    | ok printed =>
      simp only [logWrite, hprint] at h
      cases h
      exact .prints set begun file printed hprint
  | stopped stop => cases h

end DupDistribute.Log

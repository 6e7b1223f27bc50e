import DupDistribute.Base.Machine
import DupDistribute.Base.CString
import Mathlib.Data.Finset.Basic

/-!
# The replay loop

`scanAndSend`, `playback.c:26-114`. One iteration is a lock-file check followed by a
body; the two are separate steps, because other processes act between them. The index
is advanced only by a send that accepts bytes, so an iteration may come back to an entry
that it has freed: what the freed `d_name` reads as, and whether the second `free` of the entry
ends the process, is then up to the environment.
The clock is read as `unsigned int`, and the pacing test compares `unsigned` values.

`send` reports a broken link by its return value: `SIGPIPE`, which ends a process that does not
ignore it, is outside the model. Left out as well are addresses of more than 121 characters, with
which `shmFile` overruns its 128 bytes.
-/

namespace DupDistribute.Playback

open DupDistribute.Base

/-- The lock files that exist, by path. -/
abbrev Shm := Finset CString

/-- `shmFile` as built in `playback.c:45-47`, `playback.c:161-163` and `util.c:287-289`. -/
def shmFile (address : CString) : CString := ['.', '/', 's', 'h', 'm', '/'] ++ address

/-- Different addresses have different lock files. -/
theorem shmFile_inj {a b : CString} : shmFile a = shmFile b ↔ a = b := by
  simp [shmFile]

/-- `EXIT_SUCCESS_CODE` and `EXIT_FAIL_CODE`, `ConfigFile.h:15-16`. -/
inductive ExitCode where
  | success
  | fail
  deriving DecidableEq, Repr

/-- Outcome of `send`: the bytes accepted, or `-1` with `errno`. -/
inductive SendResult where
  | sent (res : Nat)
  | failed (errno : Nat)
  deriving DecidableEq, Repr

/-- `EINTR`, `EAGAIN` or `EWOULDBLOCK`: the link is still good, `playback.c:88`. -/
def transient (errno : Nat) : Bool := errno = 4 || errno = 11

/-- `EPIPE`: the peer has closed the link. No caller of `send` passes `MSG_NOSIGNAL`, so the
process gets `SIGPIPE` before it could see this value. -/
def EPIPE : Nat := 32

/-- Operations on the stream of a record file. -/
inductive StreamOp where
  | fseek
  | ftell
  | rewind
  | fread
  | fclose
  deriving DecidableEq, Repr

/-- What a replay step does. `usable` tells whether `fopen` gave the stream. -/
inductive ScanEvent where
  | scandir (entries : Option Nat)
  | access (present : Bool)
  | readName (entry : Nat)
  | freeEntry (entry : Nat)
  | fopen (path : CString) (content : Option (List UInt8))
  | stream (op : StreamOp) (usable : Bool)
  | send (fd : Int) (buffer : List UInt8) (res : SendResult)
  deriving DecidableEq

/-- Parameters of the replay, with the table entry `distributeTcpInfo[index]` it uses. -/
structure ScanArgs where
  path : CString
  starttime : CString
  speed : UInt32
  address : CString
  acceptfd : Int

/-- Where the loop is: the listing is read, then check and body alternate. -/
inductive ScanPc where
  | scandir
  | check
  | body
  | returned (code : ExitCode)
  | crashed
  deriving DecidableEq, Repr

/-- Locals of `scanAndSend`; `freed` tells which entries of `namelist` are gone. -/
structure Scan where
  pc : ScanPc := .scandir
  namelist : List CString := []
  i : Nat := 0
  playtime : UInt32 := 0
  freed : List Nat := []
  deriving DecidableEq

/-- Outcomes the environment chooses for a step: the listing of `scandir`, the clock, the
record file's content (`none` when `fopen` fails), what a freed entry's name reads as when
the path and when the time is taken from it, the outcome of `send`, and whether the C library
ends the process when an entry is freed a second time. -/
structure ScanInput where
  listing : Option (List CString) := some []
  now : Nat := 0
  content : Option (List UInt8) := some []
  stalePath : CString := []
  staleTime : CString := []
  send : SendResult := .sent 0
  freeAborts : Bool := false

/-- The pacing test `(atoi(fileTime) - atoi(starttime)) < speed * elapse`, `playback.c:79-85`.
The `int` difference is converted to `unsigned` because `speed` is. -/
def gateOpen (fileTime starttime : CString) (speed playtime now : UInt32) : Bool :=
  let elapse : Int32 := (now - playtime).toInt32
  (atoi fileTime - atoi starttime).toUInt32 < speed * elapse.toUInt32

/-- `scandir` and the first clock reading, `playback.c:34-42`; an error is only logged. -/
def Scan.scandir (s : Scan) (a : ScanInput) : Scan × List ScanEvent :=
  match a.listing with
  | none => ({ s with pc := .returned .success }, [.scandir none])
  | some names =>
    ({ s with pc := .check, namelist := names, i := 0, playtime := UInt32.ofNat a.now,
              freed := [] },
      [.scandir (some names.length)])

/-- The loop test and the lock-file check, `playback.c:43-51`. -/
def Scan.check (args : ScanArgs) (w : Shm) (s : Scan) : Scan × List ScanEvent :=
  if s.i < s.namelist.length then
    if shmFile args.address ∈ w then ({ s with pc := .body }, [.access true])
    else ({ s with pc := .returned .success }, [.access false])
  else ({ s with pc := .returned .success }, [])

/-- What `send` leads to, `playback.c:87-103`. -/
def Scan.afterSend (s : Scan) : SendResult → Scan
  | .sent res => { s with pc := .check, i := if 0 < res then s.i + 1 else s.i }
  | .failed errno => { s with pc := if transient errno then .check else .returned .fail }

/-- `free(namelist[i])` in `playback.c:57` ends the process: the entry was freed before, and the
C library notices. -/
def Scan.aborts (s : Scan) (a : ScanInput) : Bool := decide (s.i ∈ s.freed) && a.freeAborts

/-- The rest of an iteration, `playback.c:53-107`: the entry is freed before its name is
read for the time stamp, and the stream is used whether or not `fopen` gave one. -/
def Scan.body (args : ScanArgs) (s : Scan) (a : ScanInput) : Scan × List ScanEvent :=
  let name := if s.i ∈ s.freed then a.stalePath else s.namelist.getD s.i []
  let realPath := args.path ++ '/' :: name
  let freed := { s with freed := s.i :: s.freed }
  let opened : List ScanEvent := [.readName s.i, .freeEntry s.i, .fopen realPath a.content]
  if s.aborts a then ({ s with pc := .crashed }, [.readName s.i, .freeEntry s.i])
  else match a.content with
  | none =>
    -- `fseek` on a null stream ends the process.
    ({ freed with pc := .crashed }, opened ++ [.stream .fseek false])
  | some buffer =>
    let used : List ScanEvent := [.stream .fseek true, .stream .ftell true,
      .stream .rewind true, .stream .fread true, .stream .fclose true, .readName s.i]
    if gateOpen (strncpy a.staleTime 10) args.starttime args.speed s.playtime
        (UInt32.ofNat a.now) then
      (freed.afterSend a.send, opened ++ used ++ [.send args.acceptfd buffer a.send])
    else ({ freed with pc := .check }, opened ++ used)

/-- One step of the replay. -/
def Scan.step (args : ScanArgs) (w : Shm) (s : Scan) (a : ScanInput) :
    Option (Scan × List ScanEvent) :=
  match s.pc with
  | .scandir => some (s.scandir a)
  | .check => some (s.check args w)
  | .body => some (s.body args a)
  | .returned _ => none
  | .crashed => none

/-- Whole iterations of the loop, each with the lock files at its check and its outcomes;
they end when the function returns. -/
def Scan.iterations (args : ScanArgs) : Scan → List (Shm × ScanInput) → Scan × List ScanEvent
  | s, [] => (s, [])
  | s, (w, a) :: rest =>
    match s.pc with
    | .check =>
      let checked := s.check args w
      let worked := match checked.1.pc with
        | .body => checked.1.body args a
        | _ => (checked.1, [])
      let later := iterations args worked.1 rest
      (later.1, checked.2 ++ worked.2 ++ later.2)
    | _ => (s, [])

/-! ### Step lemmas -/

variable {args : ScanArgs} {w : Shm} {s : Scan} {a : ScanInput}

/-- A check inside the listing passes when the lock file is there. -/
theorem Scan.check_present (hi : s.i < s.namelist.length) (hl : shmFile args.address ∈ w) :
    s.check args w = ({ s with pc := .body }, [.access true]) := by
  simp only [Scan.check, hi, hl, ↓reduceIte]

/-- A check inside the listing ends the replay when the lock file is gone. -/
theorem Scan.check_absent (hi : s.i < s.namelist.length) (hl : shmFile args.address ∉ w) :
    s.check args w = ({ s with pc := .returned .success }, [.access false]) := by
  simp only [Scan.check, hi, hl, ↓reduceIte]

/-- An entry that is freed for the first time does no harm. -/
theorem Scan.aborts_of_notMem (a : ScanInput) (h : s.i ∉ s.freed) : s.aborts a = false := by
  simp [Scan.aborts, h]

/-- Nor does any, if the C library does not mind. -/
theorem Scan.aborts_of_freeAborts (s : Scan) (h : a.freeAborts = false) :
    s.aborts a = false := by
  simp [Scan.aborts, h]

/-- An aborted iteration ends in the `free`. -/
theorem Scan.body_aborted (args : ScanArgs) (ha : s.aborts a = true) :
    s.body args a = ({ s with pc := .crashed }, [.readName s.i, .freeEntry s.i]) := by
  simp only [Scan.body, ha, ↓reduceIte]

/-- The events of an iteration's body whose record file can be read: at most one send. -/
theorem Scan.body_events (args : ScanArgs) {buffer : List UInt8}
    (ha : s.aborts a = false) (hc : a.content = some buffer) :
    ∃ path rest, (s.body args a).2 =
      [.readName s.i, .freeEntry s.i, .fopen path (some buffer), .stream .fseek true,
        .stream .ftell true, .stream .rewind true, .stream .fread true, .stream .fclose true] ++
        .readName s.i :: rest ∧
      (rest = [] ∨ rest = [.send args.acceptfd buffer a.send]) := by
  simp only [Scan.body, ha, hc, Bool.false_eq_true, ↓reduceIte]
  split
  · exact ⟨_, _, rfl, Or.inr rfl⟩
  · exact ⟨_, _, rfl, Or.inl rfl⟩

/-- Everything a replay step can do, by program point and outcome. -/
inductive Scan.Does (args : ScanArgs) (w : Shm) (a : ScanInput) (s : Scan) :
    Scan → List ScanEvent → Prop where
  | unlisted (hp : s.pc = .scandir) (h : a.listing = none) :
      Does args w a s { s with pc := .returned .success } [.scandir none]
  | listed (names : List CString) (hp : s.pc = .scandir) (h : a.listing = some names) :
      Does args w a s
        { s with pc := .check, namelist := names, i := 0, playtime := UInt32.ofNat a.now,
                 freed := [] } [.scandir (some names.length)]
  | passed (hp : s.pc = .check) (hi : s.i < s.namelist.length) (hl : shmFile args.address ∈ w) :
      Does args w a s { s with pc := .body } [.access true]
  | stopped (hp : s.pc = .check) (hi : s.i < s.namelist.length)
      (hl : shmFile args.address ∉ w) :
      Does args w a s { s with pc := .returned .success } [.access false]
  | finished (hp : s.pc = .check) (hi : ¬ s.i < s.namelist.length) :
      Does args w a s { s with pc := .returned .success } []
  | aborted (hp : s.pc = .body) (ha : s.aborts a = true) :
      Does args w a s { s with pc := .crashed } [.readName s.i, .freeEntry s.i]
  | crashed (hp : s.pc = .body) (ha : s.aborts a = false) (h : a.content = none) :
      Does args w a s (s.body args a).1 (s.body args a).2
  | worked (buffer : List UInt8) (hp : s.pc = .body) (ha : s.aborts a = false)
      (h : a.content = some buffer) :
      Does args w a s (s.body args a).1 (s.body args a).2

/-- The step function does nothing else. -/
theorem Scan.does_of_step {s' : Scan} {es : List ScanEvent}
    (h : s.step args w a = some (s', es)) : Scan.Does args w a s s' es := by
  cases hp : s.pc with
  | scandir =>
    cases hl : a.listing with
    | none =>
      simp only [Scan.step, hp, Scan.scandir, hl, Option.some.injEq, Prod.mk.injEq] at h
      obtain ⟨rfl, rfl⟩ := h
      exact .unlisted hp hl
    | some names =>
      simp only [Scan.step, hp, Scan.scandir, hl, Option.some.injEq, Prod.mk.injEq] at h
      obtain ⟨rfl, rfl⟩ := h
      exact .listed names hp hl
  | check =>
    simp only [Scan.step, hp, Option.some.injEq] at h
    by_cases hi : s.i < s.namelist.length
    · by_cases hl : shmFile args.address ∈ w
      · rw [Scan.check_present hi hl, Prod.mk.injEq] at h
        obtain ⟨rfl, rfl⟩ := h
        exact .passed hp hi hl
      · rw [Scan.check_absent hi hl, Prod.mk.injEq] at h
        obtain ⟨rfl, rfl⟩ := h
        exact .stopped hp hi hl
    · simp only [Scan.check, hi, ↓reduceIte, Prod.mk.injEq] at h
      obtain ⟨rfl, rfl⟩ := h
      exact .finished hp hi
  | body =>
    simp only [Scan.step, hp, Option.some.injEq] at h
    cases ha : s.aborts a with
    | true =>
      rw [Scan.body_aborted args ha, Prod.mk.injEq] at h
      obtain ⟨rfl, rfl⟩ := h
      exact .aborted hp ha
    | false =>
      obtain rfl : (s.body args a).1 = s' := congrArg Prod.fst h
      obtain rfl : (s.body args a).2 = es := congrArg Prod.snd h
      cases hc : a.content with
      | none => exact .crashed hp ha hc
      | some buffer => exact .worked buffer hp ha hc
  | returned | crashed => simp [Scan.step, hp] at h

/-- Without the record file the process crashes in `fseek`. -/
theorem Scan.body_crashed (args : ScanArgs) (ha : s.aborts a = false) (hc : a.content = none) :
    (s.body args a).1.pc = .crashed ∧ ∃ path, (s.body args a).2 =
      [.readName s.i, .freeEntry s.i, .fopen path none, .stream .fseek false] := by
  simp only [Scan.body, ha, hc, Bool.false_eq_true, ↓reduceIte, true_and]
  exact ⟨_, rfl⟩

/-- With it the loop goes on, unless the link is bad. -/
theorem Scan.body_worked (args : ScanArgs) {buffer : List UInt8} (ha : s.aborts a = false)
    (hc : a.content = some buffer) :
    (s.body args a).1.pc = .check ∨ (s.body args a).1.pc = .returned .fail := by
  simp only [Scan.body, ha, hc, Bool.false_eq_true, ↓reduceIte]
  split
  · cases a.send with
    | sent => exact .inl rfl
    | failed errno =>
      simp only [Scan.afterSend]
      split
      · exact .inl rfl
      · exact .inr rfl
  · exact .inl rfl

/-- A replay step sends only what it has just read from a record file. -/
theorem Scan.step_send {s' : Scan} {es : List ScanEvent}
    (h : s.step args w a = some (s', es)) {fd : Int} {buffer : List UInt8} {res : SendResult}
    (hm : ScanEvent.send fd buffer res ∈ es) :
    ∃ path, ScanEvent.fopen path (some buffer) ∈ es := by
  cases Scan.does_of_step h with
  | unlisted | listed | passed | stopped | finished | aborted => simp at hm
  | crashed _ ha hc =>
    obtain ⟨path, he⟩ := (Scan.body_crashed args ha hc).2
    simp [he] at hm
  | worked content _ ha hc =>
    obtain ⟨path, rest, he, hr⟩ := Scan.body_events args ha hc
    rw [he] at hm ⊢
    obtain rfl : content = buffer := by
      rcases hr with rfl | rfl
      · simp at hm
      · simp only [List.cons_append, List.nil_append, List.mem_cons, reduceCtorEq,
          ScanEvent.send.injEq, List.not_mem_nil, or_false, false_or] at hm
        exact hm.2.1.symm
    exact ⟨path, by simp⟩

end DupDistribute.Playback

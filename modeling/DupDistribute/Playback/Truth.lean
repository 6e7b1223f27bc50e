import DupDistribute.Playback.Session

/-!
# What a successful replay means

`myscandirServe` (`playback.c:117-158`) looks for records in the directory of the present day
only, `scanAndSend` logs an error of `scandir` and reports success (`playback.c:34-37`,
`playback.c:113`), and a `send` that takes part of a record counts as a send of it. Here the
store of records is fixed and the environment answers from it: `scandir` fails or lists what
`filter_fn` selects, and `fopen` fails or gives the stored content.
-/

namespace DupDistribute.Playback

open DupDistribute.Base DupDistribute.Wire DupDistribute.Record

/-! ### Selection of records -/

/-- `filter_fn`, `playback.c:10-24`, for a file that is no directory. The ten characters fill
`realTime`, and the number is taken to end there. -/
def filterFn (d_name start stop : CString) : Bool :=
  let realTime := strncpy d_name 10
  decide (atoi start ≤ atoi realTime) && decide (atoi stop ≥ atoi realTime)

/-- `filter_fn` with the times of the request as `myscandirServe` prints them. -/
def selects (request : ReplayProtocol) (name : CString) : Bool :=
  filterFn name (printD 0 request.StartTime.toInt32) (printD 0 request.EndTime.toInt32)

/-- The name of a record in its directory. -/
def recordName (timestamp uuid : UInt32) : CString :=
  printD 0 timestamp.toInt32 ++ '_' :: (printD 3 uuid.toInt32 ++ ['.', 'd', 'a', 't', 'a'])

/-- The path of a record ends in its name. -/
theorem dataFile_eq (dir : CString) (timestamp uuid : UInt32) :
    dataFile dir timestamp uuid = dir ++ '/' :: recordName timestamp uuid := rfl

/-- A record's name consists of digits, a sign, and the characters around its numbers. -/
theorem notMem_recordName {c : Char} (hdigit : c.isDigit = false)
    (hother : c ∉ ['-', '_', '.', 'd', 'a', 't', 'a']) (timestamp uuid : UInt32) :
    c ∉ recordName timestamp uuid := by
  obtain ⟨hsign, hother⟩ := not_or.mp (List.mem_cons.not.mp hother)
  obtain ⟨hunderscore, hsuffix⟩ := not_or.mp (List.mem_cons.not.mp hother)
  rw [recordName, List.mem_append, List.mem_cons, List.mem_append]
  rintro (h | h | h | h)
  · exact notMem_printD hsign hdigit h
  · exact hunderscore h
  · exact notMem_printD hsign hdigit h
  · exact hsuffix h

/-- A record's name has no directory part. -/
theorem slash_notMem_recordName (timestamp uuid : UInt32) : '/' ∉ recordName timestamp uuid :=
  notMem_recordName (by decide) (by decide) timestamp uuid

/-- The time lies in the window of the request. -/
def InWindow (request : ReplayProtocol) (timestamp : UInt32) : Prop :=
  request.StartTime ≤ timestamp ∧ timestamp ≤ request.EndTime

private theorem take_toDigits {n : Nat} (k : Nat) (rest : CString)
    (h : (Nat.toDigits 10 n).length ≤ k) :
    (Nat.toDigits 10 n ++ '_' :: rest).take k =
      Nat.toDigits 10 n ++ ('_' :: rest).take (k - (Nat.toDigits 10 n).length) := by
  rw [List.take_append, List.take_of_length_le h]

private theorem head_take (k : Nat) (rest : CString) :
    ∀ c ∈ (('_' :: rest).take k).head?, c.isDigit = false := by
  cases k with
  | zero => simp
  | succ k => simp

/-- A time before 2038 is read from the name as it was printed. -/
theorem realTime_of_lt {timestamp : UInt32} (uuid : UInt32)
    (h : timestamp.toNat < 2147483648) :
    (atoi (strncpy (recordName timestamp uuid) 10)).toInt = timestamp.toNat := by
  have hx : timestamp.toInt32.toInt = timestamp.toNat := by rw [toInt_toInt32, if_pos h]
  have hmax : Int64.maxValue.toInt = 9223372036854775807 := by decide
  have hd (c : Char) (hc : c ∈ Nat.toDigits 10 timestamp.toNat) : c.isDigit = true :=
    Nat.isDigit_of_mem_toDigits (by decide) (by decide) hc
  have hlen : (Nat.toDigits 10 timestamp.toNat).length ≤ 10 :=
    (Nat.length_toDigits_le_iff (by decide) (by decide)).mpr (by omega)
  rw [atoi, strncpy, recordName, printD_of_nonneg (by omega), hx, Int.natAbs_natCast,
    take_toDigits 10 _ hlen, strtol_digits hd Nat.toDigits_ne_nil (head_take _ _),
    Nat.ofDigitChars_ten_toDigits, hmax, Int32.toInt_ofInt_of_le (by omega) (by omega)]
  omega

/-- Nine characters of a printed number that may have ten digits. -/
private theorem take_nine {n : Nat} (rest : CString) (hpos : 0 < n) (hlt : n < 10000000000) :
    ∃ m tail, (Nat.toDigits 10 n ++ '_' :: rest).take 9 = Nat.toDigits 10 m ++ tail ∧
      0 < m ∧ m ≤ n ∧ ∀ c ∈ tail.head?, c.isDigit = false := by
  by_cases hn : n < 1000000000
  · have hlen : (Nat.toDigits 10 n).length ≤ 9 :=
      (Nat.length_toDigits_le_iff (by decide) (by decide)).mpr (by omega)
    exact ⟨n, _, take_toDigits 9 rest hlen, hpos, le_refl n, head_take _ _⟩
  · have hle : (Nat.toDigits 10 (n / 10)).length ≤ 9 :=
      (Nat.length_toDigits_le_iff (by decide) (by decide)).mpr (by omega)
    have hge : ¬ (Nat.toDigits 10 (n / 10)).length ≤ 8 := by
      rw [Nat.length_toDigits_le_iff (by decide) (by decide)]
      omega
    have hlen : (Nat.toDigits 10 (n / 10)).length = 9 := by omega
    refine ⟨n / 10, [], ?_, by omega, by omega, by simp⟩
    rw [Nat.toDigits_eq_if (by decide), if_neg (by omega), List.append_assoc, List.append_nil,
      List.take_append, hlen, Nat.sub_self, List.take_zero, List.append_nil,
      List.take_of_length_le hle]

/-- A later time is printed as a negative number, and a negative number is read. -/
private theorem realTime_of_ge {timestamp : UInt32} (uuid : UInt32)
    (h : ¬ timestamp.toNat < 2147483648) :
    (atoi (strncpy (recordName timestamp uuid) 10)).toInt < 0 := by
  have hlt : timestamp.toNat < 4294967296 := timestamp.toNat_lt
  have hx : timestamp.toInt32.toInt = (timestamp.toNat : Int) - 4294967296 := by
    rw [toInt_toInt32, if_neg h]
  obtain ⟨m, tail, htake, hpos, hle, hr⟩ := take_nine
    (printD 3 uuid.toInt32 ++ ['.', 'd', 'a', 't', 'a'])
    (n := timestamp.toInt32.toInt.natAbs) (by omega) (by omega)
  have hd (c : Char) (hc : c ∈ Nat.toDigits 10 m) : c.isDigit = true :=
    Nat.isDigit_of_mem_toDigits (by decide) (by decide) hc
  have hmin : Int64.minValue.toInt = -9223372036854775808 := by decide
  rw [atoi, strncpy, recordName, printD_of_neg (by omega), List.cons_append,
    List.take_succ_cons, htake, strtol_minus hd hr, Nat.ofDigitChars_ten_toDigits, hmin,
    Int32.toInt_ofInt_of_le (by omega) (by omega)]
  omega

/-- For a window that ends before 2038, `filter_fn` selects the records in the window. -/
theorem selects_recordName {request : ReplayProtocol} {timestamp uuid : UInt32}
    (hse : request.StartTime ≤ request.EndTime) (hend : request.EndTime.toNat < 2147483648) :
    selects request (recordName timestamp uuid) = true ↔ InWindow request timestamp := by
  rw [UInt32.le_iff_toNat_le] at hse
  have hstart : request.StartTime.toInt32.toInt = request.StartTime.toNat := by
    rw [toInt_toInt32, if_pos (by omega)]
  have hstop : request.EndTime.toInt32.toInt = request.EndTime.toNat := by
    rw [toInt_toInt32, if_pos hend]
  simp only [selects, filterFn, InWindow, Bool.and_eq_true, decide_eq_true_eq, ge_iff_le,
    UInt32.le_iff_toNat_le, Int32.le_iff_toInt_le]
  rw [atoi_printD, atoi_printD, hstart, hstop]
  by_cases h : timestamp.toNat < 2147483648
  · rw [realTime_of_lt uuid h]
    omega
  · have hneg := realTime_of_ge uuid h
    constructor <;> intro hw <;> omega

/-! ### The store and its answers -/

/-- A record of the store: it is in the directory of some day, under the name that its time
and its counter give. -/
structure Stored (env : Env) (st : Store) (dir : CString) (timestamp uuid : UInt32)
    (bytes : List UInt8) : Prop where
  day : ∃ now, dir = env.dayDir now
  file : st.files (dataFile dir timestamp uuid) = some bytes

/-- The files of the store are records in day directories. -/
def OnlyRecords (env : Env) (st : Store) : Prop :=
  ∀ path bytes, st.files path = some bytes →
    ∃ dir timestamp uuid, path = dataFile dir timestamp uuid ∧
      Stored env st dir timestamp uuid bytes

/-- The names in a directory that `filter_fn` selects. -/
def Lists (st : Store) (request : ReplayProtocol) (dir : CString) (names : List CString) : Prop :=
  ∀ name, name ∈ names ↔
    '/' ∉ name ∧ (st.files (dir ++ '/' :: name)).isSome ∧ selects request name = true

/-- What the name of the current entry reads as, freed or not. -/
def Scan.entryName (s : Scan) (a : ScanInput) : CString :=
  if s.i ∈ s.freed then a.stalePath else s.namelist.getD s.i []

/-- `myscandirServe`, `playback.c:117-158`, with `scanAndSend` inside. Its run ends where the
session leaves the replay: in `.returned` after `EXIT_SUCCESS_CODE`, in `.removeFailed` after
`EXIT_FAIL_CODE`. -/
def myscandirServe (env : Env) (address : CString) (acceptfd : Int) :
    Machine Shm Session SessionInput PlaybackEvent where
  step w s a := if s.pc.replaying then s.step env address acceptfd w a else none

/-- The call of `myscandirServe` in the START branch. -/
def Session.serving (index : Nat) (request : ReplayProtocol) : Session where
  index := index
  request := request
  dir := []
  pc := .serve

/-- The environment answers from the store: the day directory is seen when it is there,
`scandir` fails or lists it, and `fopen` fails or gives the file's content. -/
def Answers (env : Env) (st : Store) (now : Nat) (_ : Shm) (s : Session) (a : SessionInput) :
    Prop :=
  match s.pc with
  | .serve => a.now = now ∧ (a.dayDir = true ↔ env.dayDir now ∈ st.dirs)
  | .scan sc =>
    (∀ names, sc.pc = .scandir → a.scan.listing = some names → Lists st s.request s.dir names) ∧
    ∀ bytes, sc.pc = .body → a.scan.content = some bytes →
      st.files (s.dir ++ '/' :: sc.entryName a.scan) = some bytes
  | _ => True

/-- Nothing fails but the link, and that without a signal: `scandir` lists, an entry that is freed
again does not end the process and its name still reads as it was listed, `fopen` gives the
record, and a `send` takes all of it or nothing and raises no `SIGPIPE`. -/
def Works (s : Session) (a : SessionInput) : Prop :=
  match s.pc with
  | .scan sc =>
    (sc.pc = .scandir → a.scan.listing ≠ none) ∧
    (sc.pc = .body → sc.aborts a.scan = false ∧
      sc.entryName a.scan = sc.namelist.getD sc.i [] ∧ a.scan.send ≠ .failed EPIPE ∧
      ∃ bytes, a.scan.content = some bytes ∧
        ∀ n, a.scan.send = .sent n → n = 0 ∨ n = bytes.length)
  | _ => True

/-- The record was read from its file and the client's socket took all of it. -/
def SentWhole (acceptfd : Int) (τ : List PlaybackEvent) (path : CString) (bytes : List UInt8) :
    Prop :=
  ∃ i, [PlaybackEvent.scan (.fopen path (some bytes)), .scan (.stream .fseek true),
    .scan (.stream .ftell true), .scan (.stream .rewind true), .scan (.stream .fread true),
    .scan (.stream .fclose true), .scan (.readName i),
    .scan (.send acceptfd bytes (.sent bytes.length))] <:+: τ

/-- All records in the window were sent. -/
def AllSent (env : Env) (st : Store) (request : ReplayProtocol) (acceptfd : Int)
    (τ : List PlaybackEvent) : Prop :=
  ∀ dir timestamp uuid bytes, Stored env st dir timestamp uuid bytes →
    InWindow request timestamp → SentWhole acceptfd τ (dataFile dir timestamp uuid) bytes

/-- Success is reported after all records in the window were sent or the lock file was seen
missing, and otherwise the replay does not end but by a failure that it reports. -/
structure Truthful (env : Env) (st : Store) (request : ReplayProtocol) (acceptfd : Int)
    (τ : List PlaybackEvent) (s : Session) : Prop where
  success : s.pc = .returned →
    AllSent env st request acceptfd τ ∨ PlaybackEvent.scan (.access false) ∈ τ
  noCrash : s.pc ≠ .crashed

/-! ### What the listing holds -/

section
variable {env : Env} {st : Store} {request : ReplayProtocol} {now : Nat} {address : CString}
  {acceptfd : Int} {dir : CString} {names : List CString}

/-- A listed name is the name of a stored record in the window. -/
private theorem Lists.stored (hl : Lists st request dir names) (hst : OnlyRecords env st)
    (hse : request.StartTime ≤ request.EndTime) (hend : request.EndTime.toNat < 2147483648)
    {name : CString} (hm : name ∈ names) :
    ∃ timestamp uuid bytes, Stored env st dir timestamp uuid bytes ∧
      InWindow request timestamp := by
  obtain ⟨hslash, hfile, hsel⟩ := (hl name).mp hm
  obtain ⟨bytes, hbytes⟩ := Option.isSome_iff_exists.mp hfile
  obtain ⟨dir', timestamp, uuid, hpath, hstored⟩ := hst _ _ hbytes
  rw [dataFile_eq] at hpath
  obtain ⟨rfl, rfl⟩ := split_last hslash (slash_notMem_recordName timestamp uuid) hpath
  exact ⟨timestamp, uuid, bytes, hstored, (selects_recordName hse hend).mp hsel⟩

/-- The listing has every stored record in the window. -/
private theorem Lists.mem (hl : Lists st request dir names)
    (hse : request.StartTime ≤ request.EndTime) (hend : request.EndTime.toNat < 2147483648)
    {timestamp uuid : UInt32} {bytes : List UInt8}
    (hs : Stored env st dir timestamp uuid bytes) (hw : InWindow request timestamp) :
    recordName timestamp uuid ∈ names := by
  apply (hl _).mpr
  refine ⟨slash_notMem_recordName timestamp uuid, ?_, (selects_recordName hse hend).mpr hw⟩
  rw [← dataFile_eq, hs.file]
  rfl

/-! ### One step -/

/-- Everything a step of `myscandirServe` can do. -/
inductive ServeDoes (env : Env) (address : CString) (acceptfd : Int) (w : Shm)
    (a : SessionInput) (s : Session) : Session → List PlaybackEvent → Prop where
  | served (hp : s.pc = .serve) (hok : a.dayDir = true) :
      ServeDoes env address acceptfd w a s
        { s with dir := env.dayDir a.now, pc := .scan {} } [.serve (env.dayDir a.now) true]
  | notServed (hp : s.pc = .serve) (hok : a.dayDir = false) :
      ServeDoes env address acceptfd w a s { s with pc := .removeFailed }
        [.serve (env.dayDir a.now) false]
  | scanned (sc sc' : Scan) (es : List ScanEvent) (hp : s.pc = .scan sc)
      (hs : Scan.Does (s.scanArgs address acceptfd) w a.scan sc sc' es) :
      ServeDoes env address acceptfd w a s { s with pc := .ofScan sc' } (es.map .scan)

/-- The machine does nothing else. -/
theorem serveDoes_of_step {w w' : Shm} {s s' : Session} {a : SessionInput}
    {es : List PlaybackEvent}
    (h : (myscandirServe env address acceptfd).step w s a = some (s', w', es)) :
    ServeDoes env address acceptfd w a s s' es := by
  simp only [myscandirServe, Option.ite_none_right_eq_some] at h
  obtain ⟨hrep, hs⟩ := h
  cases Session.does_of_step hs with
  | served hp hok => exact .served hp hok
  | notServed hp hok => exact .notServed hp hok
  | scanned sc sc' es' hp hsc => exact .scanned sc sc' es' hp (Scan.does_of_step hsc)
  | created hp | notCreated hp => rw [hp] at hrep; cases hrep
  | removed hp => rcases hp with hp | hp | hp <;> rw [hp] at hrep <;> cases hrep

/-- The events of an iteration whose send took some bytes. -/
private def sendEvents (acceptfd : Int) (i : Nat) (path : CString) (bytes : List UInt8)
    (n : Nat) : List ScanEvent :=
  [.readName i, .freeEntry i, .fopen path (some bytes), .stream .fseek true,
    .stream .ftell true, .stream .rewind true, .stream .fread true, .stream .fclose true,
    .readName i, .send acceptfd bytes (.sent n)]

/-- An iteration fails, comes back to the same entry, or has sent it and goes on. -/
private theorem Scan.body_ends (args : ScanArgs) {s : Scan} {a : ScanInput}
    {bytes : List UInt8} (ha : s.aborts a = false) (hc : a.content = some bytes) :
    (s.body args a).1.namelist = s.namelist ∧
    ((s.body args a).1.pc = .returned .fail ∨
      (s.body args a).1.pc = .check ∧ ((s.body args a).1.i = s.i ∨
        (s.body args a).1.i = s.i + 1 ∧ ∃ n, 0 < n ∧ a.send = .sent n ∧
          (s.body args a).2 = sendEvents args.acceptfd s.i
            (args.path ++ '/' :: s.entryName a) bytes n)) := by
  simp only [Scan.body, ha, hc, Bool.false_eq_true, ↓reduceIte]
  split
  · cases hs : a.send with
    | sent n =>
      refine ⟨rfl, .inr ⟨rfl, ?_⟩⟩
      simp only [Scan.afterSend]
      split
      · next hn => exact .inr ⟨rfl, n, hn, rfl, rfl⟩
      · exact .inl rfl
    | failed errno => cases ht : transient errno <;> simp [Scan.afterSend, ht]
  · exact ⟨rfl, .inr ⟨rfl, .inl rfl⟩⟩

/-! ### Nothing to send -/

/-- A replay that found no entry, or has not listed the directory yet. -/
private def Idle (request : ReplayProtocol) (s : Session) : Prop :=
  s.request = request ∧
  match s.pc with
  | .scan sc => sc.pc = .scandir ∨ sc.pc = .check ∧ sc.namelist = []
  | .crashed => False
  | _ => True

private theorem idle_step {w w' : Shm} {s s' : Session} {a : SessionInput}
    {es : List PlaybackEvent} (hst : OnlyRecords env st)
    (hse : request.StartTime ≤ request.EndTime) (hend : request.EndTime.toNat < 2147483648)
    (hnone : ∀ dir timestamp uuid bytes, Stored env st dir timestamp uuid bytes →
      ¬ InWindow request timestamp)
    (hi : Idle request s) (ha : Answers env st now w s a)
    (h : (myscandirServe env address acceptfd).step w s a = some (s', w', es)) :
    Idle request s' := by
  obtain ⟨hreq, hi⟩ := hi
  cases serveDoes_of_step h with
  | served => exact ⟨hreq, .inl rfl⟩
  | notServed => exact ⟨hreq, trivial⟩
  | scanned sc sc' es' hp hs =>
    refine ⟨hreq, ?_⟩
    simp only [hp] at hi
    simp only [Answers, hp] at ha
    cases hs with
    | unlisted | finished => trivial
    | listed names hsc hl =>
      refine .inr ⟨rfl, List.eq_nil_iff_forall_not_mem.mpr ?_⟩
      intro name hm
      have hls : Lists st request s.dir names := hreq ▸ ha.1 names hsc hl
      obtain ⟨timestamp, uuid, bytes, hstored, hw⟩ := hls.stored hst hse hend hm
      exact hnone _ _ _ _ hstored hw
    | passed hsc hlt | stopped hsc hlt =>
      rcases hi with hi | ⟨-, hi⟩
      · rw [hsc] at hi; cases hi
      · rw [hi] at hlt; cases hlt
    | aborted hsc | crashed hsc | worked _ hsc =>
      rw [hsc] at hi
      rcases hi with hi | ⟨hi, -⟩ <;> cases hi

/-! ### Everything sent -/

/-- The entries before `i` were sent. -/
private def Delivered (st : Store) (acceptfd : Int) (τ : List PlaybackEvent) (dir : CString)
    (names : List CString) (i : Nat) : Prop :=
  ∀ j, j < i → ∃ bytes, st.files (dir ++ '/' :: names.getD j []) = some bytes ∧
    SentWhole acceptfd τ (dir ++ '/' :: names.getD j []) bytes

private theorem SentWhole.mono {τ : List PlaybackEvent} {path : CString} {bytes : List UInt8}
    (h : SentWhole acceptfd τ path bytes) (es : List PlaybackEvent) :
    SentWhole acceptfd (τ ++ es) path bytes := by
  obtain ⟨i, hi⟩ := h
  exact ⟨i, hi.trans (List.prefix_append τ es).isInfix⟩

private theorem Delivered.mono {τ : List PlaybackEvent} {i : Nat}
    (h : Delivered st acceptfd τ dir names i) (es : List PlaybackEvent) :
    Delivered st acceptfd (τ ++ es) dir names i := by
  intro j hj
  obtain ⟨bytes, hf, hs⟩ := h j hj
  exact ⟨bytes, hf, hs.mono es⟩

/-- When no entry is left, all records of the directory were sent. -/
private theorem Delivered.allSent {τ : List PlaybackEvent} {i : Nat}
    (h : Delivered st acceptfd τ dir names i) (hi : ¬ i < names.length)
    (hl : Lists st request dir names)
    (hse : request.StartTime ≤ request.EndTime) (hend : request.EndTime.toNat < 2147483648)
    (htoday : ∀ dir' timestamp uuid bytes, Stored env st dir' timestamp uuid bytes →
      InWindow request timestamp → dir' = dir) :
    AllSent env st request acceptfd τ := by
  intro dir' timestamp uuid bytes hs hw
  obtain rfl := htoday dir' timestamp uuid bytes hs hw
  obtain ⟨j, hj, hname⟩ := List.getElem_of_mem (hl.mem hse hend hs hw)
  obtain ⟨bytes', hf, hsent⟩ := h j (by omega)
  rw [List.getD_eq_getElem?_getD, List.getElem?_eq_getElem hj, hname, Option.getD_some,
    ← dataFile_eq] at hf hsent
  obtain rfl : bytes' = bytes := Option.some.inj (hf.symm.trans hs.file)
  exact hsent

/-- How far a replay of today's records has come. -/
private def Progressed (env : Env) (st : Store) (request : ReplayProtocol) (acceptfd : Int)
    (now : Nat) (τ : List PlaybackEvent) (s : Session) : Prop :=
  s.request = request ∧
  match s.pc with
  | .scan sc => s.dir = env.dayDir now ∧ (sc.pc = .scandir ∨
      (sc.pc = .check ∨ sc.pc = .body) ∧ Lists st request s.dir sc.namelist ∧
        Delivered st acceptfd τ s.dir sc.namelist sc.i)
  | .returned => AllSent env st request acceptfd τ ∨ PlaybackEvent.scan (.access false) ∈ τ
  | .crashed => False
  | _ => True

private theorem progressed_step {w w' : Shm} {s s' : Session} {a : SessionInput}
    {τ es : List PlaybackEvent}
    (hse : request.StartTime ≤ request.EndTime) (hend : request.EndTime.toNat < 2147483648)
    (htoday : ∀ dir timestamp uuid bytes, Stored env st dir timestamp uuid bytes →
      InWindow request timestamp → dir = env.dayDir now)
    (hi : Progressed env st request acceptfd now τ s) (ha : Answers env st now w s a)
    (hw : Works s a)
    (h : (myscandirServe env address acceptfd).step w s a = some (s', w', es)) :
    Progressed env st request acceptfd now (τ ++ es) s' := by
  obtain ⟨hreq, hi⟩ := hi
  cases serveDoes_of_step h with
  | served hp =>
    simp only [Answers, hp] at ha
    exact ⟨hreq, by rw [ha.1], .inl rfl⟩
  | notServed => exact ⟨hreq, trivial⟩
  | scanned sc sc' es' hp hs =>
    refine ⟨hreq, ?_⟩
    simp only [hp] at hi
    simp only [Answers, hp] at ha
    simp only [Works, hp] at hw
    obtain ⟨hdir, hi⟩ := hi
    cases hs with
    | unlisted hsc hl => exact absurd hl (hw.1 hsc)
    | listed names hsc hl =>
      refine ⟨hdir, .inr ⟨.inl rfl, hreq ▸ ha.1 names hsc hl, ?_⟩⟩
      intro j hj
      cases hj
    | passed hsc hlt =>
      rcases hi with hi | ⟨-, hls, hdel⟩
      · rw [hsc] at hi; cases hi
      · exact ⟨hdir, .inr ⟨.inr rfl, hls, hdel.mono _⟩⟩
    | stopped => exact .inr (by simp)
    | finished hsc hlt =>
      rcases hi with hi | ⟨-, hls, hdel⟩
      · rw [hsc] at hi; cases hi
      · refine .inl ((hdel.mono _).allSent hlt hls hse hend ?_)
        rw [hdir]
        exact htoday
    | aborted hsc habort =>
      rw [(hw.2 hsc).1] at habort
      cases habort
    | crashed hsc habort hc =>
      obtain ⟨-, -, -, bytes, hb, -⟩ := hw.2 hsc
      rw [hc] at hb
      cases hb
    | worked buffer hsc habort hc =>
      rcases hi with hi | ⟨-, hls, hdel⟩
      · rw [hsc] at hi; cases hi
      obtain ⟨-, hname, -, bytes, hb, hall⟩ := hw.2 hsc
      obtain rfl : buffer = bytes := Option.some.inj (hc.symm.trans hb)
      have hfile := ha.2 buffer hsc hc
      obtain ⟨hnl, hf | ⟨hck, hsame | ⟨hnext, n, hn, hsend, hes⟩⟩⟩ :=
        Scan.body_ends (s.scanArgs address acceptfd) habort hc
      · simp only [SessionPc.ofScan, hf]
      · simp only [SessionPc.ofScan, hck, hnl, hsame]
        exact ⟨hdir, .inr ⟨.inl trivial, hls, hdel.mono _⟩⟩
      · simp only [SessionPc.ofScan, hck, hnl, hnext]
        refine ⟨hdir, .inr ⟨.inl trivial, hls, ?_⟩⟩
        intro j hj
        rcases Nat.lt_succ_iff_lt_or_eq.mp hj with hj | rfl
        · exact hdel.mono _ j hj
        · rw [hname] at hfile hes
          obtain rfl : n = buffer.length := (hall n hsend).resolve_left (by omega)
          refine ⟨buffer, hfile, sc.i, ?_⟩
          rw [hes]
          exact ⟨τ ++ [.scan (.readName sc.i), .scan (.freeEntry sc.i)], [], by
            simp [sendEvents, Session.scanArgs]⟩

/-! ### Whole replays -/

/-- When `scandir` fails, the replay ends in a success after two steps. -/
private theorem unlisted_run (request : ReplayProtocol) (address : CString) (acceptfd : Int)
    (index : Nat) (hdir : env.dayDir now ∈ st.dirs) :
    ∃ s, (myscandirServe env address acceptfd).RunIn (Answers env st now)
      (.serving index request)
      [.serve (env.dayDir now) true, .scan (.scandir none)] s ∧ s.pc = .returned := by
  let s₁ : Session := ⟨index, request, env.dayDir now, .scan {}⟩
  have hserve : (myscandirServe env address acceptfd).RunIn (Answers env st now)
      (.serving index request) [.serve (env.dayDir now) true] s₁ := by
    apply Machine.RunIn.single (w := ∅) (a := { now := now })
    · exact ⟨rfl, fun _ ↦ hdir, fun _ ↦ rfl⟩
    · rfl
  have hscan : (myscandirServe env address acceptfd).step ∅ s₁ { scan := { listing := none } } =
      some ({ s₁ with pc := .returned }, ∅, [.scan (.scandir none)]) := rfl
  refine ⟨_, hserve.snoc ⟨?_, ?_⟩ hscan, rfl⟩
  · intro names _ h
    cases h
  · intro bytes h
    cases h

private theorem serve_only_step {w w' : Shm} {s s' : Session} {a : SessionInput}
    {es : List PlaybackEvent} (hdir : env.dayDir now ∉ st.dirs)
    (hi : s.pc = .serve ∨ s.pc = .removeFailed) (ha : Answers env st now w s a)
    (h : (myscandirServe env address acceptfd).step w s a = some (s', w', es)) :
    s'.pc = .serve ∨ s'.pc = .removeFailed := by
  cases serveDoes_of_step h with
  | served hp hok =>
    simp only [Answers, hp] at ha
    exact absurd (ha.2.mp hok) hdir
  | notServed => exact .inr rfl
  | scanned sc sc' es' hp => rcases hi with hi | hi <;> rw [hi] at hp <;> cases hp

end

/-- Success is truthful whatever the environment does exactly when there is no directory of
today or no record in the window. When all records of the window are in today's directory,
it is truthful in every replay in which nothing fails but the link, and no signal and no second
`free` ends the process. -/
theorem truthful_iff_nothing_to_send {env : Env} {st : Store} {request : ReplayProtocol}
    (index : Nat) (now : Nat) (address : CString) (acceptfd : Int) (hst : OnlyRecords env st)
    (hse : request.StartTime ≤ request.EndTime) (hend : request.EndTime.toNat < 2147483648) :
    ((∀ τ s, (myscandirServe env address acceptfd).RunIn (Answers env st now)
        (.serving index request) τ s → Truthful env st request acceptfd τ s) ↔
      env.dayDir now ∉ st.dirs ∨ ∀ dir timestamp uuid bytes,
        Stored env st dir timestamp uuid bytes → ¬ InWindow request timestamp) ∧
    ((∀ dir timestamp uuid bytes, Stored env st dir timestamp uuid bytes →
        InWindow request timestamp → dir = env.dayDir now) →
      ∀ τ s, (myscandirServe env address acceptfd).RunIn
        (fun w s a ↦ Answers env st now w s a ∧ Works s a) (.serving index request) τ s →
        Truthful env st request acceptfd τ s) := by
  refine ⟨⟨fun hall ↦ ?_, ?_⟩, fun htoday τ s hrun ↦ ?_⟩
  · by_cases hdir : env.dayDir now ∈ st.dirs
    · right
      intro dir timestamp uuid bytes hs hw
      obtain ⟨s, hrun, hret⟩ := unlisted_run request address acceptfd index hdir
      rcases (hall _ s hrun).success hret with hsent | hlock
      · obtain ⟨i, hi⟩ := hsent dir timestamp uuid bytes hs hw
        have hm := hi.subset (List.mem_cons_self ..)
        simp at hm
      · simp at hlock
    · exact .inl hdir
  · rintro (hdir | hnone) τ s hrun
    · have hi := hrun.invariant (fun _ s ↦ s.pc = .serve ∨ s.pc = .removeFailed) (.inl rfl)
        (fun _ _ _ _ _ _ _ hi hc hs ↦ serve_only_step hdir hi hc hs)
      constructor
      · intro hret
        rcases hi with hi | hi <;> rw [hret] at hi <;> cases hi
      · intro hcr
        rcases hi with hi | hi <;> rw [hcr] at hi <;> cases hi
    · have hi := hrun.invariant (fun _ s ↦ Idle request s) ⟨rfl, trivial⟩
        (fun _ _ _ _ _ _ _ hi hc hs ↦ idle_step hst hse hend hnone hi hc hs)
      constructor
      · intro _
        left
        intro dir timestamp uuid bytes hs hw
        exact absurd hw (hnone _ _ _ _ hs)
      · intro hcr
        rw [Idle, hcr] at hi
        exact hi.2
  · have hi := hrun.invariant (Progressed env st request acceptfd now) ⟨rfl, trivial⟩
      (fun _ _ _ _ _ _ _ hi hc hs ↦ progressed_step hse hend htoday hi hc.1 hc.2 hs)
    constructor
    · intro hret
      rw [Progressed, hret] at hi
      exact hi.2
    · intro hcr
      rw [Progressed, hcr] at hi
      exact hi.2

/-! ### A store with one record -/

/-- Two day directories, and in one of them the record of second five. -/
def oneRecord (dir : CString) : Store where
  dirs := {['d', '/', '1'], ['d', '/', '2']}
  files path := if path = dataFile dir 5 0 then some [0xEB] else none

/-- Days of ten seconds. -/
def tenSeconds : Env := ⟨['d'], fun now ↦ if now < 10 then ['1'] else ['2']⟩

/-- A request for the seconds one to nine. -/
def firstDay : ReplayProtocol := ⟨0, 1, 1, 9, 1⟩

private theorem oneRecord_stored :
    Stored tenSeconds (oneRecord ['d', '/', '1']) ['d', '/', '1'] 5 0 [0xEB] :=
  ⟨⟨0, rfl⟩, by simp [oneRecord]⟩

private theorem oneRecord_only : OnlyRecords tenSeconds (oneRecord ['d', '/', '1']) := by
  intro path bytes h
  simp only [oneRecord, Option.ite_none_right_eq_some, Option.some.injEq] at h
  obtain ⟨rfl, rfl⟩ := h
  exact ⟨_, 5, 0, rfl, oneRecord_stored⟩

private theorem lists_oneRecord (dir : CString) :
    Lists (oneRecord dir) firstDay dir [recordName 5 0] := by
  intro name
  simp only [List.mem_singleton, oneRecord, dataFile_eq, List.append_cancel_left_eq,
    List.cons.injEq, true_and]
  constructor
  · rintro rfl
    exact ⟨slash_notMem_recordName 5 0, by simp, by decide⟩
  · rintro ⟨-, hf, -⟩
    by_contra hne
    simp [hne] at hf

private theorem lists_other {dir dir' : CString} (hne : dir' ≠ dir) :
    Lists (oneRecord dir) firstDay dir' [] := by
  intro name
  simp only [List.not_mem_nil, oneRecord, dataFile_eq, false_iff]
  rintro ⟨hslash, hf, -⟩
  by_cases he : dir' ++ '/' :: name = dir ++ '/' :: recordName 5 0
  · exact hne (split_last hslash (slash_notMem_recordName 5 0) he).1
  · simp [he] at hf

section
variable {env : Env} {st : Store} {now : Nat} {w : Shm} {s : Session} {a : SessionInput}
  {sc : Scan}

private theorem works_listing {names : List CString} (hp : s.pc = .scan sc)
    (hsc : sc.pc = .scandir) (hl : a.scan.listing = some names)
    (h : Lists st s.request s.dir names) : Answers env st now w s a ∧ Works s a := by
  simp only [Answers, Works, hp, hsc, hl]
  refine ⟨⟨?_, by simp⟩, by simp, by simp⟩
  intro names' _ he
  rw [← Option.some.inj he]
  exact h

private theorem works_check (hp : s.pc = .scan sc) (hsc : sc.pc = .check) :
    Answers env st now w s a ∧ Works s a := by
  simp [Answers, Works, hp, hsc]

private theorem works_body {bytes : List UInt8} (hp : s.pc = .scan sc) (hsc : sc.pc = .body)
    (ha : sc.aborts a.scan = false) (hc : a.scan.content = some bytes)
    (hn : sc.entryName a.scan = sc.namelist.getD sc.i [])
    (hf : st.files (s.dir ++ '/' :: sc.namelist.getD sc.i []) = some bytes)
    (hs : a.scan.send = .sent bytes.length) : Answers env st now w s a ∧ Works s a := by
  simp only [Answers, Works, hp, hsc, ha, hc, hn, hs]
  refine ⟨⟨by simp, ?_⟩, by simp, fun _ ↦ ⟨trivial, trivial, by simp, bytes, rfl, ?_⟩⟩
  · intro bytes' _ he
    rw [← Option.some.inj he]
    exact hf
  · intro n he
    exact .inr (SendResult.sent.inj he).symm

end

/-- On the next day the request ends in a success, and the record was not sent. -/
theorem other_day_reported_sent :
    ∃ τ s, (myscandirServe tenSeconds ['a'] 4).RunIn
        (fun w s a ↦ Answers tenSeconds (oneRecord ['d', '/', '1']) 20 w s a ∧ Works s a)
        (.serving 0 firstDay) τ s ∧ s.pc = .returned ∧
      OnlyRecords tenSeconds (oneRecord ['d', '/', '1']) ∧
      Stored tenSeconds (oneRecord ['d', '/', '1']) ['d', '/', '1'] 5 0 [0xEB] ∧
      InWindow firstDay 5 ∧
      ¬ Truthful tenSeconds (oneRecord ['d', '/', '1']) firstDay 4 τ s := by
  let M := myscandirServe tenSeconds ['a'] 4
  let C := fun w s a ↦ Answers tenSeconds (oneRecord ['d', '/', '1']) 20 w s a ∧ Works s a
  let s₁ : Session := ⟨0, firstDay, ['d', '/', '2'], .scan {}⟩
  let s₂ : Session := { s₁ with pc := .scan { pc := .check } }
  have hserve : M.RunIn C (.serving 0 firstDay) [.serve ['d', '/', '2'] true] s₁ := by
    apply Machine.RunIn.single (w := ∅) (a := { now := 20 })
    · exact ⟨⟨rfl, fun _ ↦ by decide, fun _ ↦ rfl⟩, trivial⟩
    · rfl
  have hscan : M.step ∅ s₁ {} = some (s₂, ∅, [.scan (.scandir (some 0))]) := rfl
  have hcheck : M.step ∅ s₂ {} = some ({ s₂ with pc := .returned }, ∅, []) := rfl
  have hother : Lists (oneRecord ['d', '/', '1']) firstDay ['d', '/', '2'] [] :=
    lists_other (by decide)
  have hrun := (hserve.snoc (works_listing rfl rfl rfl hother) hscan).snoc
    (works_check rfl rfl) hcheck
  refine ⟨_, _, hrun, rfl, oneRecord_only, oneRecord_stored, ⟨by decide, by decide⟩, ?_⟩
  intro ht
  rcases ht.success rfl with hsent | hlock
  · obtain ⟨i, hi⟩ := hsent _ 5 0 _ oneRecord_stored ⟨by decide, by decide⟩
    have hm := hi.subset (List.mem_cons_self ..)
    simp at hm
  · simp at hlock

/-- On its own day the record is sent, and the success that is reported is truthful. -/
theorem own_day_reported_sent :
    ∃ τ s, (myscandirServe tenSeconds ['a'] 4).RunIn
        (fun w s a ↦ Answers tenSeconds (oneRecord ['d', '/', '1']) 0 w s a ∧ Works s a)
        (.serving 0 firstDay) τ s ∧ s.pc = .returned ∧
      PlaybackEvent.scan (.send 4 [0xEB] (.sent 1)) ∈ τ ∧
      Truthful tenSeconds (oneRecord ['d', '/', '1']) firstDay 4 τ s := by
  let M := myscandirServe tenSeconds ['a'] 4
  let C := fun w s a ↦ Answers tenSeconds (oneRecord ['d', '/', '1']) 0 w s a ∧ Works s a
  let lock : Shm := {shmFile ['a']}
  let listing : ScanInput := { listing := some [recordName 5 0] }
  let sending : ScanInput :=
    { now := 10, content := some [0xEB], staleTime := ['5'], send := .sent 1 }
  let s₁ : Session := ⟨0, firstDay, ['d', '/', '1'], .scan {}⟩
  let s₂ : Session := { s₁ with pc := .scan { pc := .check, namelist := [recordName 5 0] } }
  let s₃ : Session := { s₁ with pc := .scan { pc := .body, namelist := [recordName 5 0] } }
  let s₄ : Session := { s₁ with
    pc := .scan { pc := .check, namelist := [recordName 5 0], i := 1, freed := [0] } }
  have hserve : M.RunIn C (.serving 0 firstDay) [.serve ['d', '/', '1'] true] s₁ := by
    apply Machine.RunIn.single (w := lock) (a := {})
    · exact ⟨⟨rfl, fun _ ↦ by decide, fun _ ↦ rfl⟩, trivial⟩
    · rfl
  have hscan : M.step lock s₁ { scan := listing } =
      some (s₂, lock, [.scan (.scandir (some 1))]) := rfl
  have hcheck : M.step lock s₂ {} = some (s₃, lock, [.scan (.access true)]) := rfl
  have hbody : M.step lock s₃ { scan := sending } = some (s₄, lock,
      (sendEvents 4 0 (['d', '/', '1'] ++ '/' :: recordName 5 0) [0xEB] 1).map .scan) := by
    decide +kernel
  have hend : M.step lock s₄ {} = some ({ s₄ with pc := .returned }, lock, []) := rfl
  have hlists : Lists (oneRecord ['d', '/', '1']) firstDay ['d', '/', '1'] [recordName 5 0] :=
    lists_oneRecord _
  have hsends := ((hserve.snoc (works_listing rfl rfl rfl hlists) hscan).snoc
    (works_check rfl rfl) hcheck).snoc
      (works_body rfl rfl rfl rfl rfl oneRecord_stored.file rfl) hbody
  have hrun := hsends.snoc (works_check rfl rfl) hend
  refine ⟨_, _, hrun, rfl, by simp [sendEvents], ?_⟩
  refine (truthful_iff_nothing_to_send 0 0 ['a'] 4 oneRecord_only (by decide) (by decide)).2
    ?_ _ _ hrun
  intro dir timestamp uuid bytes hs _
  have hf := hs.file
  simp only [oneRecord, Option.ite_none_right_eq_some] at hf
  exact (split_last (slash_notMem_recordName timestamp uuid) (slash_notMem_recordName 5 0)
    hf.1).1

end DupDistribute.Playback

import DupDistribute.Base.TextFile

/-!
# The configuration file

`ConfigFile.c`: the file is read twice with a buffer of `BUFFERSIZE` characters, once to count the
lines that hold a setting and once to store them; then each line is split at its first `=` into
the fields `key[64]` and `val[128]` of its `ConfigInfo`. The two `strncpy` calls take their length
from the line and not from the field, so the array of entries is modelled as the memory it is,
followed by whatever is behind it on the heap.
-/

namespace DupDistribute.Config

open DupDistribute.Base

/-- The buffers that `parseFile_distributeTcpInfo` fills, `util.c:339-368`. -/
inductive Buffer where
  | charValue
  | baseName
  | baseAddressName
  | basePortName
  | address
  deriving DecidableEq, Repr

/-- Why the configuration is not read to its end: the program exits with a message, or it does
something that has no meaning in C. -/
inductive Stop where
  | exit
  | emptySlot (index : Nat)
  | noSeparator (index : Nat)
  | nullLookup (key : CString)
  | nullTable
  | outsideTable (index : Nat)
  | overrun (buffer : Buffer)
  deriving DecidableEq, Repr

/-! ### Reading the lines, `ConfigFile.c:8-57` and `ConfigFile.c:105-113` -/

/-- `BUFFERSIZE`, `ConfigFile.h:11`. -/
def BUFFERSIZE : Nat := 1024

/-- `isValid_ConfigFile`. -/
def isValid (buf : CString) : Bool :=
  !(buf.head? = some '#' || buf.head? = some '\n' || strchr buf '=' = none)

theorem isValid_iff {buf : CString} : isValid buf = true ↔
    buf.head? ≠ some '#' ∧ buf.head? ≠ some '\n' ∧ '=' ∈ buf := by
  simp [isValid, strchr, and_assoc]

/-- The buffer as it is declared and as `memset` leaves it. -/
def cleared : List Char := List.replicate BUFFERSIZE nul

/-- `fgets` stores a piece of the file and a terminator in the buffer. -/
def fgets (buf piece : List Char) : List Char := blit buf 0 (piece ++ [nul])

/-- What `fgets` reads until the end of the file. -/
def filePieces (text : List Char) : List (List Char) := pieces (BUFFERSIZE - 2) text

/-- The loop body of `getLines_ConfigFile`, on the buffer and the count. -/
def countLine (st : List Char × Nat) (piece : List Char) : List Char × Nat :=
  let buf := fgets st.1 piece
  if isValid (cstr buf) then (cleared, st.2 + 1) else (buf, st.2)

/-- `getLines_ConfigFile`. -/
def getLines (text : List Char) : Nat :=
  ((filePieces text).foldl countLine (cleared, 0)).2

/-- Locals of `loadFile_ConfigFile`; a slot of `temp` is empty until it is stored to. -/
structure Loading where
  buf : List Char
  temp : List (Option CString)
  index : Nat

/-- The loop body of `loadFile_ConfigFile`. -/
def Loading.storeLine (l : Loading) (piece : List Char) : Loading :=
  let buf := fgets l.buf piece
  if isValid (cstr buf) then ⟨cleared, l.temp.set l.index (some (cstr buf)), l.index + 1⟩
  else { l with buf := buf }

/-- The locals of `loadFile_ConfigFile` before its loop. -/
def Loading.start (text : List Char) : Loading :=
  ⟨cleared, List.replicate (getLines text) none, 0⟩

/-- `loadFile_ConfigFile` of a file that can be opened: the slots of `fileData`. -/
def loadFile (text : List Char) : List (Option CString) :=
  ((filePieces text).foldl Loading.storeLine (Loading.start text)).temp

/-! ### Splitting the lines, `ConfigFile.c:58-93` -/

/-- `sizeof(struct ConfigInfo)`, `ConfigFile.h:18-21`: `key` at offset 0 and `val` at 64. -/
def configInfoSize : Nat := 192

/-- `flag` of `parseFile_ConfigFile`, `ConfigFile.c:67-70`. -/
def flag (line : CString) : Nat := if line.getLast? = some '\n' then 1 else 0

/-- The loop body of `parseFile_ConfigFile` for line `i`. No length is longer than its source, so
`strncpy` copies characters only. -/
def parseLine (myinfo : List Char) (i : Nat) (line : CString) : Except Stop (List Char) :=
  match strchr line '=' with
  | none => .error (.noSeparator i)
  | some pos =>
    let rest := line.drop (pos + 1)
    let myinfo := blit myinfo (configInfoSize * i) (strncpy line pos)
    .ok (blit myinfo (configInfoSize * i + 64) (strncpy rest (rest.length - flag line)))

/-- The loop of `parseFile_ConfigFile` from line `i` on. -/
def parseLines (myinfo : List Char) : Nat → List (Option CString) → Except Stop (List Char)
  | _, [] => .ok myinfo
  | i, none :: _ => .error (.emptySlot i)
  | i, some line :: fileData =>
    match parseLine myinfo i line with
    | .error stop => .error stop
    | .ok myinfo => parseLines myinfo (i + 1) fileData

/-- `parseFile_ConfigFile`: the memory from `info` on, which ends in what is `behind` the array. -/
def parseFile (behind : List Char) (fileData : List (Option CString)) :
    Except Stop (List Char) :=
  parseLines (List.replicate (configInfoSize * fileData.length) nul ++ behind) 0 fileData

/-- The loop of `getInfo_ConfigFile`, from entry `i` on with so many left. -/
def getInfoFrom (key : CString) (info : List Char) : Nat → Nat → Option CString
  | _, 0 => none
  | i, line + 1 =>
    if strcmp key (cstr (info.drop (configInfoSize * i))) = 0 then
      some (cstr (info.drop (configInfoSize * i + 64)))
    else getInfoFrom key info (i + 1) line

/-- `getInfo_ConfigFile`. -/
def getInfo (key : CString) (info : List Char) (line : Nat) : Option CString :=
  getInfoFrom key info 0 line

/-- The setting of a key as the program finds it, once the file is loaded and split. -/
def setting (behind text : List Char) (key : CString) : Option CString :=
  match parseFile behind (loadFile text) with
  | .error _ => none
  | .ok info => getInfo key info (getLines text)

private theorem nul_notMem_getInfoFrom {key value : CString} {info : List Char} {i line : Nat}
    (h : getInfoFrom key info i line = some value) : nul ∉ value := by
  induction line generalizing i with
  | zero => cases h
  | succ line ih =>
    rw [getInfoFrom] at h
    split_ifs at h
    · cases h
      exact nul_notMem_cstr _
    · exact ih h

/-- What is found is a string. -/
theorem nul_notMem_setting {behind text : List Char} {key value : CString}
    (h : setting behind text key = some value) : nul ∉ value := by
  rw [setting] at h
  split at h
  · cases h
  · exact nul_notMem_getInfoFrom h

/-! ### The two passes agree -/

/-- The lines that the program keeps. -/
def keptLines (text : List Char) : List CString := ((filePieces text).map cstr).filter isValid

private theorem cstr_fgets {buf piece : List Char} (hb : buf.length = BUFFERSIZE)
    (hp : piece.length ≤ BUFFERSIZE - 1) : cstr (fgets buf piece) = cstr piece := by
  apply cstr_blit
  simp only [BUFFERSIZE] at hb hp
  omega

private theorem length_fgets (buf piece : List Char) : (fgets buf piece).length = buf.length :=
  length_blit _ _ _

private theorem length_cleared : cleared.length = BUFFERSIZE := List.length_replicate

private theorem length_filePieces {text piece : List Char} (h : piece ∈ filePieces text) :
    piece.length ≤ BUFFERSIZE - 1 := length_of_mem_pieces h

private theorem foldl_countLine (ps : List (List Char)) (buf : List Char) (n : Nat)
    (hb : buf.length = BUFFERSIZE) (hp : ∀ p ∈ ps, p.length ≤ BUFFERSIZE - 1) :
    (ps.foldl countLine (buf, n)).2 = n + ((ps.map cstr).filter isValid).length := by
  induction ps generalizing buf n with
  | nil => simp
  | cons p ps ih =>
    obtain ⟨hfits, hp⟩ := List.forall_mem_cons.mp hp
    rw [List.foldl_cons, countLine, cstr_fgets hb hfits, List.map_cons]
    by_cases hv : isValid (cstr p) = true
    · rw [if_pos hv, ih _ _ length_cleared hp, List.filter_cons_of_pos hv, List.length_cons]
      omega
    · rw [if_neg hv, ih _ _ (by rw [length_fgets, hb]) hp, List.filter_cons_of_neg hv]

/-- The first pass counts the lines that are kept. -/
theorem getLines_eq (text : List Char) : getLines text = (keptLines text).length := by
  rw [getLines, foldl_countLine _ _ _ length_cleared (fun _ h ↦ length_filePieces h),
    Nat.zero_add, keptLines]

/-- The second pass with `done` stored fills the next slots and leaves `more` of them. -/
private theorem foldl_storeLine (ps : List (List Char)) (buf : List Char) (done : List CString)
    (more : Nat) (hb : buf.length = BUFFERSIZE) (hp : ∀ p ∈ ps, p.length ≤ BUFFERSIZE - 1) :
    let left := (ps.map cstr).filter isValid
    ∃ buf', buf'.length = BUFFERSIZE ∧
      ps.foldl Loading.storeLine
        ⟨buf, done.map some ++ List.replicate (left.length + more) none, done.length⟩ =
      ⟨buf', (done ++ left).map some ++ List.replicate more none, (done ++ left).length⟩ := by
  induction ps generalizing buf done with
  | nil => exact ⟨buf, hb, by simp⟩
  | cons p ps ih =>
    obtain ⟨hfits, hp⟩ := List.forall_mem_cons.mp hp
    intro left
    rw [List.foldl_cons, Loading.storeLine]
    simp only [cstr_fgets hb hfits]
    by_cases hv : isValid (cstr p) = true
    · have hleft : left = cstr p :: (ps.map cstr).filter isValid := by
        simp only [left, List.map_cons, List.filter_cons_of_pos hv]
      have hset : (done.map some ++ List.replicate (left.length + more) none).set done.length
          (some (cstr p)) = (done ++ [cstr p]).map some ++
            List.replicate (((ps.map cstr).filter isValid).length + more) none := by
        rw [hleft, List.length_cons, Nat.succ_add, List.replicate_succ]
        simp
      have hnext := ih cleared (done ++ [cstr p]) length_cleared hp
      rw [if_pos hv, hset, hleft]
      simpa using hnext
    · have hleft : left = (ps.map cstr).filter isValid := by
        simp only [left, List.map_cons, List.filter_cons_of_neg hv]
      rw [if_neg hv, hleft]
      exact ih _ done (by rw [length_fgets, hb]) hp

/-- The second pass up to a piece of the file. -/
theorem foldl_start {text : List Char} {before after : List (List Char)}
    (h : filePieces text = before ++ after) :
    ∃ buf, buf.length = BUFFERSIZE ∧
      before.foldl Loading.storeLine (Loading.start text) =
        ⟨buf, ((before.map cstr).filter isValid).map some ++
          List.replicate ((after.map cstr).filter isValid).length none,
          ((before.map cstr).filter isValid).length⟩ := by
  have hfits : ∀ p ∈ before, p.length ≤ BUFFERSIZE - 1 := by
    intro p hp
    exact length_filePieces (h ▸ List.mem_append_left after hp)
  have hcount : getLines text = ((before.map cstr).filter isValid).length +
      ((after.map cstr).filter isValid).length := by
    rw [getLines_eq, keptLines, h, List.map_append, List.filter_append, List.length_append]
  rw [Loading.start, hcount]
  exact foldl_storeLine before cleared [] _ length_cleared hfits

/-- The second pass stores the same lines, one in each slot. -/
theorem loadFile_eq (text : List Char) : loadFile text = (keptLines text).map some := by
  obtain ⟨buf, -, hfold⟩ := foldl_start (List.append_nil (filePieces text)).symm
  have htemp : loadFile text = _ := congrArg Loading.temp hfold
  rw [htemp, keptLines]
  simp

/-- What the passes over one text rely on. -/
structure PassesAgree (text : List Char) : Prop where
  /-- The second pass stores as many lines as the first one counts, -/
  count : ((filePieces text).foldl Loading.storeLine (Loading.start text)).index = getLines text
  /-- each at an index below the count, -/
  stores : ∀ before piece after, filePieces text = before ++ piece :: after →
    let loading := before.foldl Loading.storeLine (Loading.start text)
    isValid (cstr (fgets loading.buf piece)) = true → loading.index < getLines text
  /-- and fills every slot. -/
  filled : ∀ i < getLines text, ∃ line, (loadFile text)[i]? = some (some line)
  /-- A stored line has a first `=`, is not empty, and has a flag no longer than its value. -/
  split : ∀ line, some line ∈ loadFile text → 0 < line.length ∧
    ∃ pos, strchr line '=' = some pos ∧ flag line ≤ (line.drop (pos + 1)).length

/-- A newline at the end of a line stands behind the first `=`. -/
private theorem flag_le {line : CString} {pos : Nat} (h : strchr line '=' = some pos) :
    flag line ≤ (line.drop (pos + 1)).length := by
  obtain ⟨hm, rfl⟩ : '=' ∈ line ∧ line.idxOf '=' = pos := by simpa [strchr] using h
  have hlt := List.idxOf_lt_length_of_mem hm
  rw [flag, List.length_drop]
  split_ifs with hnewline
  · by_contra hshort
    have hpos : line.length - 1 = line.idxOf '=' := by omega
    rw [List.getLast?_eq_getElem?, hpos, List.getElem?_eq_getElem hlt, List.getElem_idxOf]
      at hnewline
    revert hnewline
    decide
  · omega

/-- For every text, the two passes agree and the third gets what it relies on. -/
theorem passesAgree (text : List Char) : PassesAgree text where
  count := by
    obtain ⟨buf, -, hfold⟩ := foldl_start (List.append_nil (filePieces text)).symm
    rw [hfold, getLines_eq, keptLines]
  stores := by
    intro before piece after hsplit loading hvalid
    obtain ⟨buf, hbuf, hfold⟩ := foldl_start hsplit
    have hfits : piece.length ≤ BUFFERSIZE - 1 := length_filePieces (by rw [hsplit]; simp)
    simp only [loading, hfold] at hvalid ⊢
    rw [cstr_fgets hbuf hfits] at hvalid
    rw [getLines_eq, keptLines, hsplit, List.map_append, List.map_cons, List.filter_append,
      List.filter_cons_of_pos hvalid, List.length_append, List.length_cons]
    omega
  filled := by
    intro i hi
    rw [getLines_eq] at hi
    exact ⟨(keptLines text)[i], by rw [loadFile_eq]; simp [hi]⟩
  split := by
    intro line hline
    have hkept : line ∈ keptLines text := by simpa [loadFile_eq] using hline
    have heq := (isValid_iff.mp (List.mem_filter.mp hkept).2).2.2
    refine ⟨List.length_pos_of_mem heq, _, by rw [strchr, if_pos heq], ?_⟩
    exact flag_le (by rw [strchr, if_pos heq])

private theorem parseLine_ok {line : CString} (h : '=' ∈ line) (myinfo : List Char) (i : Nat) :
    ∃ myinfo', parseLine myinfo i line = .ok myinfo' := by
  simp only [parseLine, strchr, h, ↓reduceIte]
  exact ⟨_, rfl⟩

private theorem parseLines_ok {lines : List CString} (h : ∀ line ∈ lines, '=' ∈ line)
    (myinfo : List Char) (i : Nat) :
    ∃ info, parseLines myinfo i (lines.map some) = .ok info := by
  induction lines generalizing myinfo i with
  | nil => exact ⟨myinfo, rfl⟩
  | cons line lines ih =>
    obtain ⟨hline, hlines⟩ := List.forall_mem_cons.mp h
    obtain ⟨myinfo', hok⟩ := parseLine_ok hline myinfo i
    obtain ⟨info, hinfo⟩ := ih hlines myinfo' (i + 1)
    exact ⟨info, by rw [List.map_cons, parseLines, hok]; exact hinfo⟩

/-- Both file calls get to their end, whatever the file holds. -/
theorem parseFile_loadFile_ok (behind text : List Char) :
    ∃ info, parseFile behind (loadFile text) = .ok info := by
  rw [parseFile, loadFile_eq]
  apply parseLines_ok
  intro line hm
  exact (isValid_iff.mp (List.mem_filter.mp hm).2).2.2

end DupDistribute.Config

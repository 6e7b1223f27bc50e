import DupDistribute.Config.Entries
import Mathlib.Data.List.Forall2

/-!
# What a configuration text says

The abstract view of a configuration: a text is a list of lines, each a setting `key=val` or a
line to be ignored, and the first line for a key counts. For texts whose lines fit in the buffer
of `fgets` and whose keys and values fit in the fields of `ConfigInfo`, the code of `ConfigFile.c`
finds exactly that.
-/

namespace DupDistribute.Config

open DupDistribute.Base

/-- A setting that fits in a `ConfigInfo`, with a terminator in each field. -/
structure Setting where
  key : CString
  val : CString
  keyPlain : '=' ∉ key ∧ '\n' ∉ key ∧ nul ∉ key
  keyStart : key.head? ≠ some '#'
  keyFits : key.length ≤ 63
  valPlain : '\n' ∉ val ∧ nul ∉ val
  valFits : val.length ≤ 127

/-- A line of a configuration: a setting, or a comment or a line without a separator. -/
inductive Line where
  | setting (s : Setting)
  | ignored (text : CString) (noSetting : text.head? = some '#' ∨ '=' ∉ text)
      (oneLine : '\n' ∉ text) (short : text.length ≤ 1022)

/-- The text of a setting. -/
def Setting.render (s : Setting) : CString := s.key ++ '=' :: s.val

/-- The text of a line, without a newline. -/
def Line.render : Line → CString
  | .setting s => s.render
  | .ignored text _ _ _ => text

/-- Lines joined by newlines. When the last line is empty, the text ends in a newline. -/
def configText : List Line → List Char
  | [] => []
  | [line] => line.render
  | line :: lines => line.render ++ '\n' :: configText lines

/-- The settings among the lines. -/
def settings (lines : List Line) : List Setting :=
  lines.filterMap (fun | .setting s => some s | .ignored .. => none)

/-- The first setting of a key. -/
def lookup (lines : List Line) (key : CString) : Option CString :=
  ((settings lines).find? (fun s ↦ s.key = key)).map Setting.val

/-! ### Lines as they are read -/

/-- A line as the program stores it: with its newline, if it has one. -/
private def Stores (line : CString) (s : Setting) : Prop :=
  line = s.render ∨ line = s.render ++ ['\n']

private theorem Setting.notMem_render (s : Setting) : '\n' ∉ s.render ∧ nul ∉ s.render := by
  have hnewline : '\n' ≠ '=' := by decide
  have hnul : nul ≠ '=' := by decide
  simp [Setting.render, s.keyPlain, s.valPlain, hnewline, hnul]

private theorem Line.newline_notMem (line : Line) : '\n' ∉ line.render := by
  cases line with
  | setting s => exact s.notMem_render.1
  | ignored text _ oneLine _ => exact oneLine

private theorem Line.length_render (line : Line) : line.render.length ≤ 1022 := by
  cases line with
  | setting s =>
    have hkey := s.keyFits
    have hval := s.valFits
    simp only [Line.render, Setting.render, List.length_append, List.length_cons]
    omega
  | ignored text _ _ short => exact short

/-- A setting is kept as it is, with or without its newline. -/
private theorem isValid_render (s : Setting) (ending : CString) (he : nul ∉ ending) :
    cstr (s.render ++ ending) = s.render ++ ending ∧ isValid (s.render ++ ending) = true := by
  constructor
  · apply cstr_of_notMem
    simp [s.notMem_render.2, he]
  · have hmem : '=' ∈ s.render ++ ending := by simp [Setting.render]
    have hhead : (s.render ++ ending).head? = some '=' ∨
        (s.render ++ ending).head? = s.key.head? := by
      cases hk : s.key with
      | nil => exact .inl (by simp [Setting.render, hk])
      | cons c k => exact .inr (by simp [Setting.render, hk])
    have hcomment : (s.render ++ ending).head? ≠ some '#' := by
      rcases hhead with h | h
      · rw [h]
        decide
      · rw [h]
        exact s.keyStart
    have hempty : (s.render ++ ending).head? ≠ some '\n' := by
      rcases hhead with h | h
      · rw [h]
        decide
      · rw [h]
        exact fun hm ↦ s.keyPlain.2.1 (List.mem_of_mem_head? hm)
    exact isValid_iff.mpr ⟨hcomment, hempty, hmem⟩

/-- Any other line is not. -/
private theorem not_isValid_ignored {text : CString} (h : text.head? = some '#' ∨ '=' ∉ text) :
    isValid (cstr (text ++ ['\n'])) = false ∧ isValid (cstr text) = false := by
  have hash {rest : CString} (hr : rest.head? = some '#') : isValid (cstr rest) = false := by
    obtain ⟨tail, rfl⟩ := List.head?_eq_some_iff.mp hr
    have hne : '#' ≠ nul := by decide
    simp [cstr, isValid, hne]
  have plain {rest : CString} (hr : '=' ∉ rest) : isValid (cstr rest) = false := by
    have hc : '=' ∉ cstr rest := fun hm ↦ hr (mem_of_mem_cstr hm)
    simp [isValid, strchr, hc]
  rcases h with h | h
  · exact ⟨hash (by simp [h]), hash h⟩
  · have hnewline : '=' ∉ text ++ ['\n'] := by
      have hne : '=' ≠ '\n' := by decide
      simp [h, hne]
    exact ⟨plain hnewline, plain h⟩

private theorem keptLines_newline (line : Line) (rest : List Char) :
    keptLines (line.render ++ '\n' :: rest) =
      [cstr (line.render ++ ['\n'])].filter isValid ++ keptLines rest := by
  have hp : filePieces (line.render ++ '\n' :: rest) =
      (line.render ++ ['\n']) :: filePieces rest :=
    pieces_newline rest line.newline_notMem line.length_render
  rw [keptLines, hp, List.map_cons, ← List.singleton_append, List.filter_append]
  rfl

private theorem keptLines_last (line : Line) :
    keptLines line.render = [cstr line.render].filter isValid := by
  have hp : filePieces line.render = if line.render = [] then [] else [line.render] :=
    pieces_last line.newline_notMem line.length_render
  rw [keptLines, hp]
  split
  · next h =>
    have hv : isValid (cstr []) = false := by decide
    rw [h, List.filter_cons_of_neg (by simp [hv])]
    rfl
  · rfl

/-- The program keeps the settings of the text. -/
private theorem stores_configText (lines : List Line) :
    List.Forall₂ Stores (keptLines (configText lines)) (settings lines) := by
  have hnewline : nul ∉ ['\n'] := by decide
  induction lines with
  | nil =>
    have hnil : keptLines [] = [] := by simp [keptLines, filePieces, pieces]
    rw [configText, hnil]
    exact .nil
  | cons line lines ih =>
    cases lines with
    | nil =>
      rw [configText, keptLines_last]
      cases line with
      | setting s =>
        have hv := isValid_render s [] (by simp)
        rw [List.append_nil] at hv
        rw [Line.render, hv.1, List.filter_cons_of_pos hv.2]
        exact .cons (.inl rfl) .nil
      | ignored text noSetting _ _ =>
        rw [Line.render, List.filter_cons_of_neg (by simp [not_isValid_ignored noSetting])]
        exact .nil
    | cons next lines =>
      rw [configText, keptLines_newline]
      · cases line with
        | setting s =>
          have hv := isValid_render s ['\n'] hnewline
          rw [Line.render, hv.1, List.filter_cons_of_pos hv.2]
          exact .cons (.inr rfl) ih
        | ignored text noSetting _ _ =>
          rw [Line.render, List.filter_cons_of_neg (by simp [not_isValid_ignored noSetting])]
          exact ih
      · simp

/-! ### Lines that fit in an entry -/

/-- A line that fits in an entry is a setting. -/
def FgetsLine.setting (line : FgetsLine) (h : line.FitsEntry) : Setting where
  key := line.key
  val := line.val
  keyPlain := by
    obtain ⟨ending, htext, hkey, -⟩ := line.split
    refine ⟨hkey, fun hm ↦ line.oneLine ?_, line.nul_notMem.1⟩
    rw [htext, List.dropLast_append_of_ne_nil (by simp)]
    exact List.mem_append_left _ hm
  keyStart := by
    obtain ⟨ending, htext, -, -⟩ := line.split
    intro hhead
    refine (isValid_iff.mp line.valid).1 ?_
    rw [htext, List.head?_append, hhead]
    rfl
  keyFits := h.1
  valPlain := ⟨fun hm ↦ by simpa using List.mem_takeWhile_imp hm, line.nul_notMem.2⟩
  valFits := h.2

private theorem stores_setting (line : FgetsLine) (h : line.FitsEntry) :
    Stores line.text (line.setting h) := by
  obtain ⟨ending, htext, -, hend⟩ := line.split
  rcases hend with ⟨rfl, -⟩ | rfl
  · left
    rwa [List.append_nil] at htext
  · right
    rw [htext, ← List.cons_append, ← List.append_assoc]
    rfl

/-- Lines that fit are stored as settings with their keys and values. -/
private theorem exists_stores {lines : List FgetsLine} (h : ∀ line ∈ lines, line.FitsEntry) :
    ∃ ss : List Setting, List.Forall₂ Stores (lines.map FgetsLine.text) ss ∧
      ss.map (fun s ↦ (s.key, s.val)) = lines.map (fun line ↦ (line.key, line.val)) := by
  induction lines with
  | nil => exact ⟨[], .nil, rfl⟩
  | cons line lines ih =>
    obtain ⟨hline, hlines⟩ := List.forall_mem_cons.mp h
    obtain ⟨ss, hstores, hsame⟩ := ih hlines
    refine ⟨line.setting hline :: ss, .cons (stores_setting line hline) hstores, ?_⟩
    rw [List.map_cons, List.map_cons, hsame]
    rfl

/-! ### The entries in memory -/

/-- The `ConfigInfo` of a setting. -/
private def Setting.entry (s : Setting) : List Char := pad 64 s.key ++ pad 128 s.val

private theorem Setting.length_entry (s : Setting) : s.entry.length = configInfoSize := by
  have hkey := s.keyFits
  have hval := s.valFits
  rw [Setting.entry, List.length_append, length_pad (by omega), length_pad (by omega)]
  rfl

private theorem strchr_render (s : Setting) (ending : CString) :
    strchr (s.render ++ ending) '=' = some s.key.length := by
  have hmem : '=' ∈ s.render ++ ending := by simp [Setting.render]
  rw [strchr, if_pos hmem, Setting.render, List.append_assoc,
    List.idxOf_append_of_notMem s.keyPlain.1, List.cons_append, List.idxOf_cons_self,
    Nat.add_zero]

/-- A stored line is split into its key and its value. -/
private theorem parseLine_stores {line : CString} {s : Setting} (h : Stores line s)
    (myinfo : List Char) (i : Nat) :
    parseLine myinfo i line = .ok
      (blit (blit myinfo (configInfoSize * i) s.key) (configInfoSize * i + 64) s.val) := by
  have hlast : s.render.getLast? ≠ some '\n' :=
    fun hm ↦ s.notMem_render.1 (List.mem_of_getLast? hm)
  have hdrop (ending : CString) :
      (s.render ++ ending).drop (s.key.length + 1) = s.val ++ ending := by
    simp [Setting.render]
  have htake (ending : CString) : strncpy (s.render ++ ending) s.key.length = s.key := by
    simp [strncpy, Setting.render]
  rcases h with rfl | rfl
  · have hpos := strchr_render s []
    have hd := hdrop []
    have ht := htake []
    rw [List.append_nil] at hpos hd ht
    rw [List.append_nil] at hd
    simp only [parseLine, flag, hpos, hd, ht, hlast, ↓reduceIte, Nat.sub_zero]
    simp [strncpy]
  · simp only [parseLine, flag, strchr_render, hdrop, htake]
    simp [strncpy]

/-- The entries are filled one after the other. -/
private theorem parseLines_stores {lines : List CString} {ss : List Setting}
    (h : List.Forall₂ Stores lines ss) (before behind : List Char) (i : Nat)
    (hbefore : before.length = configInfoSize * i) :
    parseLines (before ++ (List.replicate (configInfoSize * ss.length) nul ++ behind)) i
        (lines.map some) = .ok (before ++ (ss.flatMap Setting.entry ++ behind)) := by
  induction h generalizing before i with
  | nil => simp [parseLines]
  | @cons line s lines ss hline _ ih =>
    have hkey : s.key.length ≤ 64 := Nat.le_succ_of_le s.keyFits
    have hval : s.val.length ≤ 128 := Nat.le_succ_of_le s.valFits
    have hzero : List.replicate (configInfoSize * (s :: ss).length) nul =
        List.replicate 64 nul ++ (List.replicate 128 nul ++
          List.replicate (configInfoSize * ss.length) nul) := by
      rw [List.replicate_append_replicate, List.replicate_append_replicate, List.length_cons,
        Nat.mul_add]
      congr 1
      simp only [configInfoSize]
      omega
    have hlen : (before ++ pad 64 s.key).length = configInfoSize * i + 64 := by
      rw [List.length_append, hbefore, length_pad hkey]
    have hnext := ih (before ++ s.entry) (i + 1)
      (by rw [List.length_append, hbefore, s.length_entry, Nat.mul_succ])
    rw [List.map_cons, parseLines, parseLine_stores hline]
    simp only
    rw [hzero, ← hbefore, List.append_assoc, blit_pad before _ hkey, hbefore, ← hlen,
      ← List.append_assoc before, List.append_assoc (List.replicate 128 nul), blit_pad _ _ hval]
    simpa [Setting.entry] using hnext

/-- Each entry is read back from its place. -/
private theorem entry_at (s : Setting) (before after : List Char) {i : Nat}
    (hbefore : before.length = configInfoSize * i) :
    cstr ((before ++ (s.entry ++ after)).drop (configInfoSize * i)) = s.key ∧
      cstr ((before ++ (s.entry ++ after)).drop (configInfoSize * i + 64)) = s.val := by
  have hinfo : before ++ (s.entry ++ after) =
      before ++ (pad 64 s.key ++ (pad 128 s.val ++ after)) := by
    rw [Setting.entry, List.append_assoc]
  constructor
  · rw [hinfo, ← hbefore, List.drop_left, cstr_pad _ s.keyPlain.2.2 (Nat.lt_succ_of_le s.keyFits)]
  · have hlen : (before ++ pad 64 s.key).length = configInfoSize * i + 64 := by
      rw [List.length_append, hbefore, length_pad (Nat.le_succ_of_le s.keyFits)]
    rw [hinfo, ← List.append_assoc, ← hlen, List.drop_left,
      cstr_pad _ s.valPlain.2 (Nat.lt_succ_of_le s.valFits)]

/-- The first `line` entries of the array, from entry `i` on. -/
def entriesFrom (info : List Char) : Nat → Nat → List (CString × CString)
  | _, 0 => []
  | i, line + 1 =>
    (cstr (info.drop (configInfoSize * i)), cstr (info.drop (configInfoSize * i + 64))) ::
      entriesFrom info (i + 1) line

private theorem entriesFrom_entries (ss : List Setting) (before behind : List Char) (i : Nat)
    (hbefore : before.length = configInfoSize * i) :
    entriesFrom (before ++ (ss.flatMap Setting.entry ++ behind)) i ss.length =
      ss.map (fun s ↦ (s.key, s.val)) := by
  induction ss generalizing before i with
  | nil => rfl
  | cons s ss ih =>
    obtain ⟨hk, hv⟩ := entry_at s before (ss.flatMap Setting.entry ++ behind) hbefore
    have hnext := ih (before ++ s.entry) (i + 1)
      (by rw [List.length_append, hbefore, s.length_entry, Nat.mul_succ])
    rw [List.append_assoc] at hnext
    rw [List.length_cons, List.flatMap_cons, List.append_assoc, entriesFrom, hk, hv, hnext]
    rfl

/-- A lookup goes through the entries in order. -/
private theorem getInfoFrom_eq_find (key : CString) (info : List Char) (i line : Nat) :
    getInfoFrom key info i line =
      ((entriesFrom info i line).find? (fun entry ↦ strcmp key entry.1 = 0)).map Prod.snd := by
  induction line generalizing i with
  | zero => rfl
  | succ line ih =>
    rw [getInfoFrom, entriesFrom, ih]
    split_ifs with hkey
    · rw [List.find?_cons_of_pos (by simpa using hkey)]
      rfl
    · rw [List.find?_cons_of_neg (by simpa using hkey)]

private theorem getInfoFrom_entries {key : CString} (hkey : nul ∉ key) (ss : List Setting)
    (before behind : List Char) (i : Nat) (hbefore : before.length = configInfoSize * i) :
    getInfoFrom key (before ++ (ss.flatMap Setting.entry ++ behind)) i ss.length =
      (ss.find? (fun s ↦ s.key = key)).map Setting.val := by
  have hmatch (s : Setting) : strcmp key s.key = 0 ↔ s.key = key := by
    rw [strcmp_eq_zero_iff hkey s.keyPlain.2.2, eq_comm]
  rw [getInfoFrom_eq_find, entriesFrom_entries ss before behind i hbefore, List.find?_map,
    Option.map_map]
  simp only [Function.comp_def, hmatch]

/-- The memory of the entries of a text whose lines are stored as settings. -/
private theorem parseFile_stores (behind : List Char) {text : List Char} {ss : List Setting}
    (hstores : List.Forall₂ Stores (keptLines text) ss) :
    getLines text = ss.length ∧
      parseFile behind (loadFile text) = .ok (ss.flatMap Setting.entry ++ behind) := by
  have hlen : (keptLines text).length = ss.length := hstores.length_eq
  have hparse := parseLines_stores hstores [] behind 0 rfl
  rw [List.nil_append, List.nil_append] at hparse
  constructor
  · rw [getLines_eq, hlen]
  · rw [parseFile, loadFile_eq, List.length_map, hlen, hparse]

/-- On texts that fit, the code finds what the text says. -/
theorem setting_configText (behind : List Char) (lines : List Line) {key : CString}
    (hkey : nul ∉ key) : setting behind (configText lines) key = lookup lines key := by
  obtain ⟨hlines, hparse⟩ := parseFile_stores behind (stores_configText lines)
  rw [setting, hparse, hlines]
  exact getInfoFrom_entries hkey (settings lines) [] behind 0 rfl

/-- On texts whose lines fit in their entries, the code finds the first line for the key. -/
theorem setting_eq_stated (behind : List Char) {text : List Char} {key : CString}
    (h : ∀ line ∈ fgetsLines text, line.FitsEntry) (hkey : nul ∉ key) :
    setting behind text key = stated text key := by
  obtain ⟨ss, hstores, hsame⟩ := exists_stores h
  rw [map_text_fgetsLines] at hstores
  obtain ⟨hlines, hparse⟩ := parseFile_stores behind hstores
  have hfind := congrArg
    (fun l ↦ (l.find? (fun entry ↦ decide (entry.1 = key))).map Prod.snd) hsame
  simp only [List.find?_map, Option.map_map, Function.comp_def] at hfind
  rw [setting, hparse, hlines]
  exact (getInfoFrom_entries hkey ss [] behind 0 rfl).trans hfind

/-- A text is loaded and split into exactly its settings in order, and a lookup returns the
value of the first one with the key, or nothing. -/
theorem configText_round_trip (behind : List Char) (lines : List Line) :
    ∃ info, parseFile behind (loadFile (configText lines)) = .ok info ∧
      entriesFrom info 0 (getLines (configText lines)) =
        (settings lines).map (fun s ↦ (s.key, s.val)) ∧
      ∀ key, nul ∉ key → getInfo key info (getLines (configText lines)) =
        ((settings lines).find? (fun s ↦ s.key = key)).map Setting.val := by
  obtain ⟨hlines, hparse⟩ := parseFile_stores behind (stores_configText lines)
  refine ⟨_, hparse, ?_, ?_⟩
  · rw [hlines]
    exact entriesFrom_entries (settings lines) [] behind 0 rfl
  · intro key hkey
    rw [hlines]
    exact getInfoFrom_entries hkey (settings lines) [] behind 0 rfl

/-- A key set twice, with an empty value and one that has the separator in it, around a
comment, and a final newline. -/
private def sampleLines : List Line :=
  [.setting ⟨['a'], [], by decide, by decide, by decide, by decide, by decide⟩,
    .ignored ['#', 'a', '=', '2'] (by decide) (by decide) (by decide),
    .setting ⟨['a'], ['b', '=', 'c'], by decide, by decide, by decide, by decide, by decide⟩,
    .ignored [] (by decide) (by decide) (by decide)]

/-- The text `a=`, `#a=2`, `a=b=c`: two entries, of which the first counts. -/
theorem configText_round_trip_sample :
    ∃ info, parseFile ['x'] (loadFile "a=\n#a=2\na=b=c\n".toList) = .ok info ∧
      entriesFrom info 0 (getLines "a=\n#a=2\na=b=c\n".toList) =
        [(['a'], []), (['a'], ['b', '=', 'c'])] ∧
      getInfo ['a'] info (getLines "a=\n#a=2\na=b=c\n".toList) = some [] := by
  have htext : "a=\n#a=2\na=b=c\n".toList = configText sampleLines := by decide
  rw [htext]
  obtain ⟨info, hparse, hentries, hget⟩ := configText_round_trip ['x'] sampleLines
  exact ⟨info, hparse, hentries, hget ['a'] (by decide)⟩

end DupDistribute.Config

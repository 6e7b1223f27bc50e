import DupDistribute.Config.File

/-!
# Which memory a line is parsed into

`parseFile_ConfigFile` (ConfigFile.c:59-83) copies the key and the value of line `i` into the
fields of `myinfo[i]` with the lengths they have in the line. A line as `fgets` delivers it can
hold more than the fields: what is longer runs into the next field, the next entry or the memory
behind the array, and a field that is filled to its end has no terminator. The lines that are kept
of a text are such lines.
-/

namespace DupDistribute.Config

open DupDistribute.Base

/-- A valid line as `fgets` delivers it: a string that fits in the buffer, with no newline but
at its end. -/
structure FgetsLine where
  text : CString
  valid : isValid text = true
  plain : nul ∉ text
  oneLine : '\n' ∉ text.dropLast
  fits : text.length ≤ BUFFERSIZE - 1

/-- The text before the separator. -/
def FgetsLine.key (line : FgetsLine) : CString := line.text.takeWhile (· ≠ '=')

/-- The text behind the separator, without the newline. -/
def FgetsLine.val (line : FgetsLine) : CString :=
  ((line.text.dropWhile (· ≠ '=')).drop 1).takeWhile (· ≠ '\n')

/-- A line that is kept of a text. -/
def fgetsLine {text : List Char} {line : CString} (h : line ∈ keptLines text) : FgetsLine where
  text := line
  valid := (List.mem_filter.mp h).2
  plain := by
    obtain ⟨piece, -, rfl⟩ := List.mem_map.mp (List.mem_filter.mp h).1
    exact nul_notMem_cstr piece
  oneLine := by
    obtain ⟨piece, hp, rfl⟩ := List.mem_map.mp (List.mem_filter.mp h).1
    exact newline_notMem_cstr (newline_notMem_of_mem_pieces hp)
  fits := by
    obtain ⟨piece, hp, rfl⟩ := List.mem_map.mp (List.mem_filter.mp h).1
    exact Nat.le_trans (List.takeWhile_prefix _).length_le (length_of_mem_pieces hp)

/-- The lines that are kept of a text. -/
def fgetsLines (text : List Char) : List FgetsLine :=
  (keptLines text).attach.map (fun line ↦ fgetsLine line.2)

theorem map_text_fgetsLines (text : List Char) :
    (fgetsLines text).map FgetsLine.text = keptLines text := by
  rw [fgetsLines, List.map_map]
  exact List.attach_map_subtype_val (keptLines text)

/-- The first line of a text for a key. -/
def stated (text : List Char) (key : CString) : Option CString :=
  ((fgetsLines text).find? (fun line ↦ line.key = key)).map FgetsLine.val

/-- A field holds a string that ends inside it. -/
def FieldHolds (info : List Char) (offset size : Nat) (s : CString) : Prop :=
  nul ∈ (info.drop offset).take size ∧ cstr (info.drop offset) = s

/-- What parsing line `i` should do to the memory: both fields of its entry hold their texts and
everything outside the entry is as it was. -/
structure InPlace (before after : List Char) (i : Nat) (line : FgetsLine) : Prop where
  key : FieldHolds after (configInfoSize * i) 64 line.key
  val : FieldHolds after (configInfoSize * i + 64) 128 line.val
  frame : ∀ j, j < configInfoSize * i ∨ configInfoSize * (i + 1) ≤ j → after[j]? = before[j]?

/-- The slots of `fileData` for the lines. -/
def slots (lines : List FgetsLine) : List (Option CString) := lines.map (fun line ↦ some line.text)

/-- The memory from `myinfo` on when the loop begins. -/
def startInfo (behind : List Char) (n : Nat) : List Char :=
  List.replicate (configInfoSize * n) nul ++ behind

/-- Every iteration of the loop changes only its own entry. -/
def ParsesInPlace (behind : List Char) (lines : List FgetsLine) : Prop :=
  ∀ i line before after, lines[i]? = some line →
    parseLines (startInfo behind lines.length) 0 (slots (lines.take i)) = .ok before →
    parseLine before i line.text = .ok after → InPlace before after i line

/-! ### One iteration -/

private theorem takeWhile_ne {c : Char} {a : CString} (b : CString) (h : c ∉ a) :
    (a ++ c :: b).takeWhile (· ≠ c) = a ∧ (a ++ c :: b).dropWhile (· ≠ c) = c :: b := by
  have hall : ∀ x ∈ a, (decide (x ≠ c)) = true := by
    intro x hx
    simpa using fun he : x = c ↦ h (he ▸ hx)
  rw [List.takeWhile_append_of_pos hall, List.dropWhile_append_of_pos hall]
  simp

/-- What is behind the separator is the value, with a newline if the line has one. -/
private theorem value_ending {rest : CString} (h : '\n' ∉ rest.dropLast) :
    ∃ ending, rest = rest.takeWhile (· ≠ '\n') ++ ending ∧
      (ending = [] ∧ rest.getLast? ≠ some '\n' ∨ ending = ['\n']) := by
  by_cases hlast : rest.getLast? = some '\n'
  · obtain ⟨body, rfl⟩ := List.getLast?_eq_some_iff.mp hlast
    rw [List.dropLast_concat] at h
    exact ⟨['\n'], by rw [(takeWhile_ne [] h).1], .inr rfl⟩
  · have hmem : '\n' ∉ rest := by
      intro hm
      exact h (List.mem_dropLast_of_mem_of_ne_getLast? hm (fun he ↦ hlast he.symm))
    have hall : rest.takeWhile (· ≠ '\n') = rest := by
      apply List.takeWhile_eq_self_iff.mpr
      intro x hx
      simpa using fun he : x = '\n' ↦ hmem (he ▸ hx)
    exact ⟨[], by rw [hall, List.append_nil], .inl ⟨rfl, hlast⟩⟩

/-- The parts of a line, and its end. -/
theorem FgetsLine.split (line : FgetsLine) : ∃ ending,
    line.text = line.key ++ '=' :: (line.val ++ ending) ∧ '=' ∉ line.key ∧
      (ending = [] ∧ line.text.getLast? ≠ some '\n' ∨ ending = ['\n']) := by
  obtain ⟨key, rest, htext, hkey⟩ :=
    List.eq_append_cons_of_mem (isValid_iff.mp line.valid).2.2
  obtain ⟨htake, hdrop⟩ := takeWhile_ne rest hkey
  have hline := line.oneLine
  have hrest : '\n' ∉ rest.dropLast := by
    rw [htext, List.dropLast_append_of_ne_nil (by simp)] at hline
    cases rest with
    | nil => simp
    | cons c rest => exact fun hm ↦ hline (by simp [hm])
  obtain ⟨ending, hval, hend⟩ := value_ending hrest
  rw [FgetsLine.val, FgetsLine.key, htext, htake, hdrop, List.drop_one, List.tail_cons]
  refine ⟨ending, by rw [← hval], hkey, ?_⟩
  rcases hend with ⟨rfl, hlast⟩ | hend
  · refine .inl ⟨rfl, ?_⟩
    cases rest with
    | nil => simp
    | cons c rest => simpa using hlast
  · exact .inr hend

private theorem parseLine_fgets (line : FgetsLine) (myinfo : List Char) (i : Nat) :
    parseLine myinfo i line.text = .ok
      (blit (blit myinfo (configInfoSize * i) line.key) (configInfoSize * i + 64) line.val) := by
  obtain ⟨ending, htext, hkey, hend⟩ := line.split
  have hmem : '=' ∈ line.text := (isValid_iff.mp line.valid).2.2
  have hpos : strchr line.text '=' = some line.key.length := by
    rw [strchr, if_pos hmem, htext, List.idxOf_append_of_notMem hkey, List.idxOf_cons_self,
      Nat.add_zero]
  have hdrop : line.text.drop (line.key.length + 1) = line.val ++ ending := by
    nth_rewrite 1 [htext]
    simp
  have htake : strncpy line.text line.key.length = line.key := by
    rw [strncpy]
    nth_rewrite 1 [htext]
    simp
  simp only [parseLine, hpos, hdrop, htake]
  rcases hend with ⟨rfl, hlast⟩ | rfl
  · simp [flag, hlast, strncpy]
  · have hlast : line.text.getLast? = some '\n' := by
      rw [htext, ← List.cons_append, ← List.append_assoc, List.getLast?_concat]
    simp [flag, hlast, strncpy]

theorem FgetsLine.nul_notMem (line : FgetsLine) : nul ∉ line.key ∧ nul ∉ line.val := by
  obtain ⟨ending, htext, -, -⟩ := line.split
  have hplain := line.plain
  rw [htext] at hplain
  simp only [List.mem_append, List.mem_cons, not_or] at hplain
  exact ⟨hplain.1, hplain.2.2.1⟩

/-! ### Fields -/

private theorem fieldHolds_of_stored {info : List Char} {offset size : Nat} {s : CString}
    (hs : nul ∉ s) (hfits : s.length < size) (htext : ∀ k < s.length, info[offset + k]? = s[k]?)
    (hend : info[offset + s.length]? = some nul) : FieldHolds info offset size s := by
  have htake : (info.drop offset).take s.length = s := by
    apply List.ext_getElem?
    intro k
    by_cases hk : k < s.length
    · rw [List.getElem?_take_of_lt hk, List.getElem?_drop, htext k hk]
    · rw [List.getElem?_eq_none (by rw [List.length_take]; omega),
        List.getElem?_eq_none (by omega)]
  have hnul : (info.drop offset)[s.length]? = some nul := by rw [List.getElem?_drop, hend]
  constructor
  · apply List.mem_of_getElem? (i := s.length)
    rw [List.getElem?_take_of_lt hfits, hnul]
  · obtain ⟨hlt, hget⟩ := List.getElem?_eq_some_iff.mp hnul
    rw [← List.take_append_drop s.length (info.drop offset), htake,
      List.drop_eq_getElem_cons hlt, hget, cstr_append_nul, cstr_of_notMem hs]

/-- A field that a text fills holds nothing. -/
private theorem not_fieldHolds_of_filled {info : List Char} {offset size : Nat} {s t : CString}
    (hs : nul ∉ s) (htext : ∀ k < size, info[offset + k]? = s[k]?) :
    ¬FieldHolds info offset size t := by
  rintro ⟨hmem, -⟩
  obtain ⟨k, hk⟩ := List.mem_iff_getElem?.mp hmem
  by_cases hlt : k < size
  · rw [List.getElem?_take_of_lt hlt, List.getElem?_drop, htext k hlt] at hk
    exact hs (List.mem_of_getElem? hk)
  · rw [List.getElem?_eq_none (by rw [List.length_take]; omega)] at hk
    cases hk

/-! ### The memory after an iteration -/

/-- Both copies of an iteration. -/
private def stored (before : List Char) (i : Nat) (line : FgetsLine) : List Char :=
  blit (blit before (configInfoSize * i) line.key) (configInfoSize * i + 64) line.val

private theorem stored_key {before : List Char} {i k : Nat} {line : FgetsLine} (hk : k < 64)
    (hkey : k < line.key.length) (hlen : configInfoSize * (i + 1) ≤ before.length) :
    (stored before i line)[configInfoSize * i + k]? = line.key[k]? := by
  rw [configInfoSize] at hlen ⊢
  rw [stored, configInfoSize, getElem?_blit, if_neg (by omega), getElem?_blit, if_pos (by omega),
    Nat.add_sub_cancel_left]

private theorem stored_val {before : List Char} {i k : Nat} {line : FgetsLine} (hk : k < 128)
    (hval : k < line.val.length) (hlen : configInfoSize * (i + 1) ≤ before.length) :
    (stored before i line)[configInfoSize * i + 64 + k]? = line.val[k]? := by
  rw [configInfoSize] at hlen ⊢
  rw [stored, configInfoSize, getElem?_blit, if_pos (by rw [length_blit]; omega),
    Nat.add_sub_cancel_left]

/-- What the copies do not reach is as it was. -/
private theorem stored_frame {before : List Char} {i j : Nat} {line : FgetsLine}
    (hkey : j < configInfoSize * i ∨ configInfoSize * i + line.key.length ≤ j)
    (hval : j < configInfoSize * i + 64 ∨ configInfoSize * i + 64 + line.val.length ≤ j) :
    (stored before i line)[j]? = before[j]? := by
  rw [stored, getElem?_blit, if_neg (by omega), getElem?_blit, if_neg (by omega)]

/-- The line fits in the fields of an entry, with a terminator in each. -/
def FgetsLine.FitsEntry (line : FgetsLine) : Prop :=
  line.key.length ≤ 63 ∧ line.val.length ≤ 127

instance (line : FgetsLine) : Decidable line.FitsEntry := inferInstanceAs (Decidable (_ ∧ _))

/-- A line that fits is parsed in place, if its entry is still zero. -/
private theorem inPlace_of_fits {before : List Char} {i : Nat} {line : FgetsLine}
    (hfits : line.FitsEntry) (hlen : configInfoSize * (i + 1) ≤ before.length)
    (hzero : ∀ j, configInfoSize * i ≤ j → j < configInfoSize * (i + 1) →
      before[j]? = some nul) : InPlace before (stored before i line) i line := by
  obtain ⟨hkey, hval⟩ := hfits
  obtain ⟨hnk, hnv⟩ := line.nul_notMem
  have hsize : configInfoSize * (i + 1) = configInfoSize * i + 64 + 128 := rfl
  refine ⟨?_, ?_, ?_⟩
  · apply fieldHolds_of_stored hnk (by omega)
    · intro k hk
      exact stored_key (by omega) hk hlen
    · rw [stored_frame (.inr (Nat.le_refl _)) (.inl (by omega))]
      exact hzero _ (by omega) (by omega)
  · apply fieldHolds_of_stored hnv (by omega)
    · intro k hk
      exact stored_val (by omega) hk hlen
    · rw [stored_frame (.inr (by omega)) (.inr (Nat.le_refl _))]
      exact hzero _ (by omega) (by omega)
  · intro j hj
    exact stored_frame (by omega) (by omega)

private theorem fits_of_inPlace {before : List Char} {i : Nat} {line : FgetsLine}
    (hlen : configInfoSize * (i + 1) ≤ before.length)
    (h : InPlace before (stored before i line) i line) : line.FitsEntry := by
  obtain ⟨hnk, hnv⟩ := line.nul_notMem
  constructor
  · by_contra hlong
    exact not_fieldHolds_of_filled hnk (fun k hk ↦ stored_key hk (by omega) hlen) h.key
  · by_contra hlong
    exact not_fieldHolds_of_filled hnv (fun k hk ↦ stored_val hk (by omega) hlen) h.val

/-! ### The loop -/

private theorem parseLines_slot (line : FgetsLine) (lines : List FgetsLine) (info : List Char)
    (i : Nat) :
    parseLines info i (slots (line :: lines)) =
      parseLines (stored info i line) (i + 1) (slots lines) := by
  rw [slots, List.map_cons, parseLines, parseLine_fgets]
  rfl

private theorem length_stored (before : List Char) (i : Nat) (line : FgetsLine) :
    (stored before i line).length = before.length := by
  rw [stored, length_blit, length_blit]

/-- The loop gets through, and keeps the length of the memory. -/
private theorem parseLines_slots_ok (lines : List FgetsLine) (info : List Char) (i : Nat) :
    ∃ info', parseLines info i (slots lines) = .ok info' ∧ info'.length = info.length := by
  induction lines generalizing info i with
  | nil => exact ⟨info, rfl, rfl⟩
  | cons line lines ih =>
    obtain ⟨info', hok, hlen⟩ := ih (stored info i line) (i + 1)
    rw [parseLines_slot]
    exact ⟨info', hok, by rw [hlen, length_stored]⟩

/-- Lines that fit leave the entries behind theirs alone. -/
private theorem parseLines_ahead {lines : List FgetsLine} (hfits : ∀ line ∈ lines, line.FitsEntry)
    {info info' : List Char} {i : Nat} (h : parseLines info i (slots lines) = .ok info') {j : Nat}
    (hj : configInfoSize * (i + lines.length) ≤ j) : info'[j]? = info[j]? := by
  induction lines generalizing info i with
  | nil =>
    cases h
    rfl
  | cons line lines ih =>
    obtain ⟨⟨hkey, hval⟩, hrest⟩ := List.forall_mem_cons.mp hfits
    rw [parseLines_slot] at h
    rw [List.length_cons] at hj
    rw [configInfoSize] at hj
    rw [ih hrest h (by rw [configInfoSize]; omega),
      stored_frame (by rw [configInfoSize]; omega) (by rw [configInfoSize]; omega)]

private theorem length_startInfo {behind : List Char} {n i : Nat} (hi : i < n) :
    configInfoSize * (i + 1) ≤ (startInfo behind n).length := by
  rw [startInfo, List.length_append, List.length_replicate, configInfoSize]
  omega

private theorem getElem?_startInfo {behind : List Char} {n j : Nat} (hj : j < configInfoSize * n) :
    (startInfo behind n)[j]? = some nul := by
  rw [startInfo, List.getElem?_append_left (by rwa [List.length_replicate]),
    List.getElem?_replicate_of_lt hj]

/-- Every line changes only its own entry exactly if every line fits in one. -/
theorem parsesInPlace_iff (behind : List Char) (lines : List FgetsLine) :
    ParsesInPlace behind lines ↔ ∀ line ∈ lines, line.FitsEntry := by
  have reaches (i : Nat) := parseLines_slots_ok (lines.take i) (startInfo behind lines.length) 0
  constructor
  · intro h line hmem
    obtain ⟨i, hline⟩ := List.mem_iff_getElem?.mp hmem
    obtain ⟨hi, -⟩ := List.getElem?_eq_some_iff.mp hline
    obtain ⟨before, hbefore, hlen⟩ := reaches i
    exact fits_of_inPlace (hlen ▸ length_startInfo hi)
      (h i line before _ hline hbefore (parseLine_fgets line before i))
  · intro hfits i line before after hline hbefore hafter
    obtain ⟨hi, -⟩ := List.getElem?_eq_some_iff.mp hline
    obtain ⟨info, hok, hlen⟩ := reaches i
    obtain rfl : info = before := by
      rw [hbefore] at hok
      cases hok
      rfl
    rw [parseLine_fgets] at hafter
    cases hafter
    apply inPlace_of_fits (hfits line (List.mem_of_getElem? hline)) (hlen ▸ length_startInfo hi)
    -- The lines before have not reached the entry.
    intro j hlow hhigh
    have htake : (lines.take i).length = i := by
      rw [List.length_take]
      omega
    rw [parseLines_ahead (fun l hl ↦ hfits l (List.mem_of_mem_take hl)) hbefore
      (by rw [htake, Nat.zero_add]; exact hlow)]
    apply getElem?_startInfo
    rw [configInfoSize] at *
    omega

/-- A value that is three characters too long for its field and the terminator. -/
private def longValue : FgetsLine where
  text := ['a', '='] ++ List.replicate 131 'x' ++ ['\n']
  valid := by decide +kernel
  plain := by decide +kernel
  oneLine := by decide +kernel
  fits := by decide +kernel

private def shortLine : FgetsLine where
  text := ['b', '=', '1', '\n']
  valid := by decide
  plain := by decide
  oneLine := by decide
  fits := by decide

/-- The value runs into the key of the next entry, where `b` is stored over its first character
only: the setting of `b` is found under another name. -/
theorem longValue_hides_next :
    ¬ParsesInPlace [] [longValue, shortLine] ∧
    ∃ info, parseFile [] (slots [longValue, shortLine]) = .ok info ∧
      getInfo ['b'] info 2 = none ∧ getInfo ['b', 'x', 'x'] info 2 = some ['1'] := by
  constructor
  · intro h
    have hfits := fits_of_inPlace (by decide +kernel)
      (h 0 longValue _ _ rfl rfl (parseLine_fgets longValue _ 0))
    exact absurd hfits.2 (by decide +kernel)
  · refine ⟨_, (parseLines_slot _ _ _ _).trans (parseLines_slot _ _ _ _), ?_⟩
    decide +kernel

end DupDistribute.Config

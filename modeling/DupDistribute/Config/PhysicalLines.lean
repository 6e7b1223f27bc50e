import DupDistribute.Config.File

/-!
# Stored lines and physical lines

`loadFile_ConfigFile` judges every piece that `fgets` delivers as if it were a line of its own.
A physical line of at most `BUFFERSIZE - 1` characters is one piece; a longer one is judged
several times, and what is stored of it is never the line as a whole.
-/

namespace DupDistribute.Config

open DupDistribute.Base

/-- A line that holds a setting: not a comment, not empty and with a separator. -/
def IsSettingLine (line : CString) : Prop :=
  line.head? ≠ some '#' ∧ line ≠ [] ∧ line ≠ ['\n'] ∧ '=' ∈ line

instance (line : CString) : Decidable (IsSettingLine line) :=
  inferInstanceAs (Decidable (_ ∧ _ ∧ _ ∧ _))

/-- What is stored are the physical lines of the text that hold a setting, each as a whole. -/
def StoresPhysicalLines (text : List Char) : Prop :=
  loadFile text = ((physicalLines text).filter (fun line ↦ IsSettingLine line)).map some

/-- No piece of the line is taken for a setting: it has no separator, or it is a comment and the
separators in it are in pieces that begin like a comment again. -/
def Harmless (line : CString) : Prop :=
  '=' ∉ line ∨ line.head? = some '#' ∧
    ∀ k ≥ 1, '=' ∈ (line.drop ((BUFFERSIZE - 1) * k)).take (BUFFERSIZE - 1) →
      (line.drop ((BUFFERSIZE - 1) * k)).head? = some '#'

/-! ### What each line contributes -/

/-- What is stored of a physical line. -/
private def storedOf (line : CString) : List CString := (filePieces line).filter isValid

/-- What should be stored of it. -/
private def wantedOf (line : CString) : List CString :=
  [line].filter (fun line ↦ IsSettingLine line)

private theorem keptLines_eq {text : List Char} (hnul : nul ∉ text) :
    keptLines text = (physicalLines text).flatMap storedOf := by
  have hcstr : (filePieces text).map cstr = filePieces text := by
    nth_rewrite 2 [← List.map_id (filePieces text)]
    apply List.map_congr_left
    intro piece hpiece
    apply cstr_of_notMem
    intro hm
    apply hnul
    rw [← flatten_pieces (BUFFERSIZE - 2) text]
    exact List.mem_flatten.mpr ⟨piece, hpiece, hm⟩
  rw [keptLines, hcstr, filePieces, pieces_eq_flatMap, List.filter_flatMap]
  rfl

private theorem wanted_eq (text : List Char) :
    (physicalLines text).filter (fun line ↦ IsSettingLine line) =
      (physicalLines text).flatMap wantedOf := by
  induction physicalLines text with
  | nil => rfl
  | cons line lines ih =>
    rw [List.flatMap_cons, ← ih, wantedOf, ← List.filter_append, List.singleton_append]

private theorem mem_wantedOf {line : CString} : line ∈ wantedOf line ↔ IsSettingLine line := by
  simp [wantedOf]

private theorem wantedOf_eq_nil {line : CString} : wantedOf line = [] ↔ ¬IsSettingLine line := by
  simp [wantedOf]

private theorem isValid_iff_isSettingLine {line : CString} (hl : '\n' ∉ line.dropLast) :
    isValid line = true ↔ IsSettingLine line := by
  rw [isValid_iff]
  constructor
  · rintro ⟨hcomment, hempty, hmem⟩
    refine ⟨hcomment, List.ne_nil_of_mem hmem, ?_, hmem⟩
    rintro rfl
    exact hempty rfl
  · rintro ⟨hcomment, -, hline, hmem⟩
    exact ⟨hcomment, fun hh ↦ hline (eq_newline_of_head? hl hh), hmem⟩

/-- A line that fits in the buffer is judged as a whole. -/
private theorem storedOf_short {line : CString} (hne : line ≠ []) (hl : '\n' ∉ line.dropLast)
    (hshort : line.length ≤ BUFFERSIZE - 1) : storedOf line = wantedOf line := by
  have hpieces : filePieces line = [line] := by
    have htake : line.take (BUFFERSIZE - 2 + 1) = line := List.take_of_length_le hshort
    have hdrop : line.drop (BUFFERSIZE - 2 + 1) = [] := List.drop_eq_nil_of_le hshort
    rw [filePieces, pieces_line hne hl, htake, hdrop, pieces, dif_pos rfl]
  rw [storedOf, wantedOf, hpieces]
  apply List.filter_congr
  intro x hx
  obtain rfl := List.mem_singleton.mp hx
  rw [Bool.eq_iff_iff, isValid_iff_isSettingLine hl, decide_eq_true_eq]

/-- The pieces that a line is read in. -/
private theorem mem_filePieces {line piece : CString} (hl : '\n' ∉ line.dropLast) :
    piece ∈ filePieces line ↔ ∃ k, (BUFFERSIZE - 1) * k < line.length ∧
      piece = (line.drop ((BUFFERSIZE - 1) * k)).take (BUFFERSIZE - 1) :=
  mem_pieces_line hl

private theorem head?_piece (rest : CString) :
    (rest.take (BUFFERSIZE - 1)).head? = rest.head? := by
  rw [List.head?_take, if_neg (by decide)]

/-- Nothing is stored of a long line and nothing should be, exactly if it is harmless. -/
private theorem harmless_iff {line : CString} (hl : '\n' ∉ line.dropLast)
    (hlong : BUFFERSIZE - 1 < line.length) :
    Harmless line ↔ ¬IsSettingLine line ∧ storedOf line = [] := by
  rw [storedOf, List.filter_eq_nil_iff]
  constructor
  · rintro (hnone | ⟨hcomment, hlater⟩)
    · refine ⟨fun h ↦ hnone h.2.2.2, ?_⟩
      intro piece hpiece hvalid
      obtain ⟨k, -, rfl⟩ := (mem_filePieces hl).mp hpiece
      exact hnone (List.mem_of_mem_drop (List.mem_of_mem_take (isValid_iff.mp hvalid).2.2))
    · refine ⟨fun h ↦ h.1 hcomment, ?_⟩
      intro piece hpiece hvalid
      obtain ⟨k, -, rfl⟩ := (mem_filePieces hl).mp hpiece
      obtain ⟨hhash, -, hmem⟩ := isValid_iff.mp hvalid
      rw [head?_piece] at hhash
      cases k with
      | zero => exact hhash hcomment
      | succ k => exact hhash (hlater (k + 1) (by omega) hmem)
  · rintro ⟨hset, hnone⟩
    by_cases hmem : '=' ∈ line
    · right
      have hne : line ≠ ['\n'] := by
        rintro rfl
        simp at hmem
      constructor
      · by_contra hcomment
        exact hset ⟨hcomment, List.ne_nil_of_mem hmem, hne, hmem⟩
      · intro k _ hk
        have hlt : (BUFFERSIZE - 1) * k < line.length := by
          have hpos := List.length_pos_of_mem (List.mem_of_mem_take hk)
          rw [List.length_drop] at hpos
          omega
        have hinvalid := hnone _ ((mem_filePieces hl).mpr ⟨k, hlt, rfl⟩)
        rw [isValid_iff, head?_piece] at hinvalid
        by_contra hhash
        refine hinvalid ⟨hhash, fun hh ↦ ?_, hk⟩
        have hend := eq_newline_of_head? (dropLast_drop_notMem _ hl) hh
        rw [hend] at hk
        simp [BUFFERSIZE] at hk
    · exact .inl hmem

/-! ### The file as a whole -/

private theorem length_flatMap_le {α β : Type} {f g : α → List β} {xs : List α}
    (h : ∀ x ∈ xs, (g x).length ≤ (f x).length) :
    (xs.flatMap g).length ≤ (xs.flatMap f).length := by
  induction xs with
  | nil => simp
  | cons x xs ih =>
    obtain ⟨hx, hxs⟩ := List.forall_mem_cons.mp h
    have hrest := ih hxs
    simp only [List.flatMap_cons, List.length_append]
    omega

/-- Equal concatenations of parts that are nowhere longer have equal parts. -/
private theorem eq_of_flatMap_eq {α β : Type} {f g : α → List β} {xs : List α}
    (hle : ∀ x ∈ xs, (g x).length ≤ (f x).length) (h : xs.flatMap f = xs.flatMap g) :
    ∀ x ∈ xs, f x = g x := by
  induction xs with
  | nil => simp
  | cons x xs ih =>
    obtain ⟨hx, hxs⟩ := List.forall_mem_cons.mp hle
    rw [List.flatMap_cons, List.flatMap_cons] at h
    have hlen := length_flatMap_le hxs
    have hlens := congrArg List.length h
    rw [List.length_append, List.length_append] at hlens
    obtain ⟨hhead, htail⟩ := List.append_inj h (by omega)
    exact List.forall_mem_cons.mpr ⟨hhead, ih hxs htail⟩

/-- A line that does not fit in the buffer is never stored as a whole. -/
private theorem notMem_storedOf {line other : CString} (hlong : BUFFERSIZE - 1 < line.length) :
    line ∉ storedOf other := by
  intro hmem
  have hshort : line.length ≤ BUFFERSIZE - 2 + 1 :=
    length_of_mem_pieces (List.mem_filter.mp hmem).1
  simp only [BUFFERSIZE] at hshort hlong
  omega

/-- What is stored is the physical lines with a setting exactly if every line that does not fit
in the buffer is harmless. -/
theorem storesPhysicalLines_iff (text : List Char) (hnul : nul ∉ text) :
    StoresPhysicalLines text ↔
      ∀ line ∈ physicalLines text, BUFFERSIZE - 1 < line.length → Harmless line := by
  have hmap : Function.Injective (List.map (some : CString → Option CString)) :=
    List.map_injective_iff.mpr (fun _ _ h ↦ Option.some.inj h)
  rw [StoresPhysicalLines, loadFile_eq, hmap.eq_iff, keptLines_eq hnul, wanted_eq]
  constructor
  · intro h
    have hset : ∀ line ∈ physicalLines text, BUFFERSIZE - 1 < line.length →
        ¬IsSettingLine line := by
      intro line hline hlong hset
      have hwanted : line ∈ (physicalLines text).flatMap wantedOf :=
        List.mem_flatMap.mpr ⟨line, hline, mem_wantedOf.mpr hset⟩
      rw [← h] at hwanted
      obtain ⟨other, -, hm⟩ := List.mem_flatMap.mp hwanted
      exact notMem_storedOf hlong hm
    -- Nothing is wanted of a long line, and a short one is stored as wanted.
    have hparts := eq_of_flatMap_eq (f := storedOf) (g := wantedOf) ?_ h
    · intro line hline hlong
      have hnot := hset line hline hlong
      rw [harmless_iff (mem_physicalLines hline).2 hlong, hparts line hline]
      exact ⟨hnot, wantedOf_eq_nil.mpr hnot⟩
    · intro line hline
      obtain ⟨hne, hl⟩ := mem_physicalLines hline
      by_cases hlong : BUFFERSIZE - 1 < line.length
      · rw [wantedOf_eq_nil.mpr (hset line hline hlong)]
        exact Nat.zero_le _
      · rw [storedOf_short hne hl (by omega)]
  · intro h
    apply List.flatMap_congr
    intro line hline
    obtain ⟨hne, hl⟩ := mem_physicalLines hline
    by_cases hlong : BUFFERSIZE - 1 < line.length
    · obtain ⟨hset, hnone⟩ := (harmless_iff hl hlong).mp (h line hline hlong)
      rw [hnone, wantedOf_eq_nil.mpr hset]
    · exact storedOf_short hne hl (by omega)

/-- A text of two short lines. -/
theorem storesPhysicalLines_short :
    nul ∉ "a=1\n#b=2\n".toList ∧ StoresPhysicalLines "a=1\n#b=2\n".toList := by
  have hnul : nul ∉ "a=1\n#b=2\n".toList := by decide
  have hshort : ∀ line ∈ physicalLines "a=1\n#b=2\n".toList, ¬BUFFERSIZE - 1 < line.length := by
    decide
  exact ⟨hnul, (storesPhysicalLines_iff _ hnul).mpr
    (fun line hline hlong ↦ absurd hlong (hshort line hline))⟩

/-- A comment that fills the buffer, with `a=b` behind. -/
private def longComment : List Char := '#' :: List.replicate 1022 'x' ++ ['a', '=', 'b', '\n']

/-- The end of a long comment becomes a setting. -/
theorem longComment_sets_a :
    nul ∉ longComment ∧ physicalLines longComment = [longComment] ∧
      loadFile longComment = [some ['a', '=', 'b', '\n']] ∧ ¬StoresPhysicalLines longComment := by
  have hnul : nul ∉ longComment := by decide +kernel
  have hlines : physicalLines longComment = [longComment] := by decide +kernel
  have hload : loadFile longComment = [some ['a', '=', 'b', '\n']] := by
    rw [loadFile_eq]
    decide +kernel
  refine ⟨hnul, hlines, hload, ?_⟩
  rw [StoresPhysicalLines, hload, hlines]
  decide +kernel

end DupDistribute.Config

import DupDistribute.Base.CString
import Mathlib.Data.List.TakeWhile

/-!
# Text files and character buffers

Library support, independent of any program. `fgets` takes a line with its newline from a text, or
as much of it as fits; a program that calls it until the end sees the `pieces` of the text, which
are the pieces of its `physicalLines` one after the other. A buffer is the list of its characters,
a string in it ends before the first NUL, and characters stored beyond its end are lost.
-/

namespace DupDistribute.Base

/-! ### Buffers -/

/-- The string at the beginning of a buffer. -/
def cstr (buffer : List Char) : CString := buffer.takeWhile (· ≠ nul)

/-- Consecutive stores into a buffer. -/
def blit (buffer : List Char) (offset : Nat) : List Char → List Char
  | [] => buffer
  | c :: s => blit (buffer.set offset c) (offset + 1) s

/-- What follows the terminator is not part of the string. -/
theorem cstr_append_nul (s rest : List Char) : cstr (s ++ nul :: rest) = cstr s := by
  induction s with
  | nil => simp [cstr]
  | cons c s ih =>
    by_cases hc : c = nul
    · simp [cstr, hc]
    · simpa [cstr, hc] using ih

theorem cstr_of_notMem {s : List Char} (h : nul ∉ s) : cstr s = s := by
  apply List.takeWhile_eq_self_iff.mpr
  intro c hc
  simpa using fun he : c = nul ↦ h (he ▸ hc)

theorem mem_of_mem_cstr {buffer : List Char} {c : Char} (h : c ∈ cstr buffer) : c ∈ buffer :=
  (List.takeWhile_sublist _).mem h

theorem nul_notMem_cstr (buffer : List Char) : nul ∉ cstr buffer := by
  intro hm
  simpa using List.mem_takeWhile_imp hm

/-- A string has no newline but at its end if its buffer has none. -/
theorem newline_notMem_cstr {buffer : List Char} (h : '\n' ∉ buffer.dropLast) :
    '\n' ∉ (cstr buffer).dropLast := by
  obtain ⟨rest, hrest⟩ : cstr buffer <+: buffer := List.takeWhile_prefix _
  generalize cstr buffer = s at hrest ⊢
  subst hrest
  by_cases hnil : rest = []
  · rwa [hnil, List.append_nil] at h
  · rw [List.dropLast_append_of_ne_nil hnil] at h
    exact fun hm ↦ h (List.mem_append_left _ ((List.dropLast_sublist s).mem hm))

theorem length_blit (buffer : List Char) (offset : Nat) (s : List Char) :
    (blit buffer offset s).length = buffer.length := by
  induction s generalizing buffer offset with
  | nil => rfl
  | cons c s ih => rw [blit, ih, List.length_set]

/-- Stores replace as many characters as there are. -/
theorem blit_append {s : List Char} (before middle after : List Char)
    (hlen : middle.length = s.length) :
    blit (before ++ (middle ++ after)) before.length s = before ++ (s ++ after) := by
  induction s generalizing before middle with
  | nil => rw [List.eq_nil_of_length_eq_zero hlen, blit]
  | cons c s ih =>
    obtain ⟨d, middle, rfl⟩ := List.exists_cons_of_length_eq_add_one hlen
    have hset : (before ++ (d :: middle ++ after)).set before.length c =
        (before ++ [c]) ++ (middle ++ after) := by simp
    have hnext := ih (before ++ [c]) middle (by simpa using hlen)
    rw [blit, hset]
    simpa using hnext

/-- A character of a buffer after stores: a new one where they went, the old one elsewhere. -/
theorem getElem?_blit (buffer : List Char) (offset : Nat) (s : List Char) (j : Nat) :
    (blit buffer offset s)[j]? =
      if offset ≤ j ∧ j < offset + s.length ∧ j < buffer.length then s[j - offset]?
      else buffer[j]? := by
  induction s generalizing buffer offset with
  | nil =>
    rw [blit, List.length_nil, if_neg (by omega)]
  | cons c s ih =>
    rw [blit, ih, List.length_set, List.length_cons]
    rcases Nat.lt_trichotomy j offset with hlt | rfl | hgt
    · rw [if_neg (by omega), if_neg (by omega), List.getElem?_set_ne (by omega)]
    · rw [if_neg (by omega)]
      by_cases hj : j < buffer.length
      · rw [if_pos ⟨Nat.le_refl _, by omega, hj⟩, List.getElem?_set_self hj, Nat.sub_self]
        rfl
      · rw [if_neg (fun h ↦ hj h.2.2), List.getElem?_eq_none (by simpa using hj),
          List.getElem?_eq_none (by omega)]
    · by_cases hj : j < offset + 1 + s.length ∧ j < buffer.length
      · rw [if_pos ⟨hgt, hj⟩, if_pos ⟨by omega, by omega, hj.2⟩]
        have hidx : j - offset = j - (offset + 1) + 1 := by omega
        rw [hidx, List.getElem?_cons_succ]
      · rw [if_neg (fun h ↦ hj h.2), if_neg (by omega), List.getElem?_set_ne (by omega)]

/-- A string stored with its terminator at the beginning of a buffer is read back. -/
theorem cstr_blit {buffer : List Char} (s : List Char) (hfits : s.length < buffer.length) :
    cstr (blit buffer 0 (s ++ [nul])) = cstr s := by
  have hsplit : buffer.take (s.length + 1) ++ buffer.drop (s.length + 1) = buffer :=
    List.take_append_drop _ _
  have hb := blit_append (s := s ++ [nul]) [] (buffer.take (s.length + 1))
    (buffer.drop (s.length + 1)) (by simp; omega)
  rw [List.nil_append, hsplit, List.length_nil] at hb
  rw [hb, List.nil_append, List.append_assoc, List.singleton_append, cstr_append_nul]

/-! ### Fields -/

/-- A string in a field, filled up with zeros. -/
def pad (n : Nat) (s : CString) : List Char := s ++ List.replicate (n - s.length) nul

theorem length_pad {n : Nat} {s : CString} (h : s.length ≤ n) : (pad n s).length = n := by
  rw [pad, List.length_append, List.length_replicate]
  omega

/-- A string is read back from its field. -/
theorem cstr_pad {n : Nat} {s : CString} (rest : List Char) (hs : nul ∉ s)
    (h : s.length < n) : cstr (pad n s ++ rest) = s := by
  obtain ⟨k, hk⟩ : ∃ k, n - s.length = k + 1 := ⟨n - s.length - 1, by omega⟩
  rw [pad, hk, List.replicate_succ, List.append_assoc, List.cons_append, cstr_append_nul,
    cstr_of_notMem hs]

/-- Stores into a zeroed field. -/
theorem blit_pad {n : Nat} {s : CString} (before after : List Char) (h : s.length ≤ n) :
    blit (before ++ (List.replicate n nul ++ after)) before.length s =
      before ++ (pad n s ++ after) := by
  have hsplit : List.replicate n nul =
      List.replicate s.length nul ++ List.replicate (n - s.length) nul := by
    rw [List.replicate_append_replicate, Nat.add_sub_cancel' h]
  rw [hsplit, List.append_assoc, blit_append before _ _ List.length_replicate, pad,
    List.append_assoc]

/-- A string copied over another without its terminator: what it does not reach is kept. -/
def overlay (old new : CString) : CString := new ++ old.drop new.length

theorem overlay_self (s : CString) : overlay s s = s := by
  rw [overlay, List.drop_length, List.append_nil]

/-- The copy is the string alone exactly if it reaches the end of the old one. -/
theorem overlay_eq_iff {old new : CString} : overlay old new = new ↔ old.length ≤ new.length := by
  rw [overlay, List.append_right_eq_self, List.drop_eq_nil_iff]

theorem notMem_overlay {old new : CString} {c : Char} (hold : c ∉ old) (hnew : c ∉ new) :
    c ∉ overlay old new := by
  rw [overlay, List.mem_append, not_or]
  exact ⟨hnew, fun hm ↦ hold (List.mem_of_mem_drop hm)⟩

theorem length_overlay (old new : CString) :
    (overlay old new).length = max new.length old.length := by
  rw [overlay, List.length_append, List.length_drop]
  omega

/-- Stores without a terminator into a field that holds a string. -/
theorem blit_pad_overlay {n : Nat} {old new : CString} (hold : old.length ≤ n)
    (hnew : new.length ≤ n) : blit (pad n old) 0 new = pad n (overlay old new) := by
  have htake : ((pad n old).take new.length).length = new.length := by
    rw [List.length_take, length_pad hold, Nat.min_eq_left hnew]
  have hb := blit_append [] _ ((pad n old).drop new.length) htake
  rw [List.take_append_drop] at hb
  have hcount : n - old.length - (new.length - old.length) =
      n - max new.length old.length := by omega
  rw [List.nil_append, List.length_nil, List.nil_append] at hb
  rw [hb, pad, pad, length_overlay, List.drop_append, List.drop_replicate, hcount, overlay,
    List.append_assoc]

/-- A string stored with its terminator behind the string of a field. -/
theorem blit_pad_append {n : Nat} {s t : CString} (h : s.length + t.length < n) :
    blit (pad n s) s.length (t ++ [nul]) = pad n (s ++ t) := by
  have hlen : (t ++ [nul]).length ≤ n - s.length := by
    rw [List.length_append, List.length_singleton]
    omega
  have hb := blit_pad s [] hlen
  obtain ⟨k, hk⟩ : ∃ k, n - (s.length + t.length) = k + 1 :=
    ⟨n - (s.length + t.length) - 1, by omega⟩
  have hrest : n - s.length - (t.length + 1) = k := by omega
  rw [List.append_nil, List.append_nil] at hb
  rw [pad, hb, pad, pad, List.length_append, List.length_append, List.length_singleton, hrest, hk,
    List.replicate_succ, List.append_assoc, List.append_assoc, List.singleton_append]

/-! ### Reading a file -/

/-- At most `n` characters, up to a newline, and the rest of the text. -/
def readLine : Nat → List Char → List Char × List Char
  | 0, text => ([], text)
  | _ + 1, [] => ([], [])
  | n + 1, c :: text =>
    if c = '\n' then ([c], text)
    else ((c :: (readLine n text).1), (readLine n text).2)

theorem length_readLine (n : Nat) (text : List Char) : (readLine n text).1.length ≤ n := by
  fun_induction readLine n text with
  | case1 text => simp
  | case2 n => simp
  | case3 n text => simp
  | case4 n c text hc ih => simpa using ih

private theorem length_rest (n : Nat) (text : List Char) :
    (readLine n text).2.length ≤ text.length := by
  fun_induction readLine n text with
  | case1 text => exact Nat.le_refl _
  | case2 n => exact Nat.le_refl _
  | case3 n text => simp
  | case4 n c text hc ih => exact Nat.le_succ_of_le ih

private theorem rest_shorter (n : Nat) {text : List Char} (h : text ≠ []) :
    (readLine (n + 1) text).2.length < text.length := by
  cases text with
  | nil => exact absurd rfl h
  | cons c text =>
    rw [readLine]
    split
    · simp
    · exact Nat.lt_succ_of_le (length_rest n text)

/-- What successive calls of `fgets` read, each at most `n + 1` characters: the loop
`while (fgets(buf, n + 2, file) != NULL)` runs over it. -/
def pieces (n : Nat) (text : List Char) : List (List Char) :=
  if h : text = [] then []
  else (readLine (n + 1) text).1 :: pieces n (readLine (n + 1) text).2
termination_by text.length
decreasing_by exact rest_shorter n h

theorem length_of_mem_pieces {n : Nat} {text piece : List Char} (h : piece ∈ pieces n text) :
    piece.length ≤ n + 1 := by
  fun_induction pieces n text with
  | case1 => simp at h
  | case2 text _ ih =>
    rcases List.mem_cons.mp h with rfl | h
    · exact length_readLine _ _
    · exact ih h

private theorem newline_notMem_readLine (n : Nat) (text : List Char) :
    '\n' ∉ (readLine n text).1.dropLast := by
  fun_induction readLine n text with
  | case1 text => simp
  | case2 n => simp
  | case3 n text => simp
  | case4 n c text hc ih =>
    cases hr : (readLine n text).1 with
    | nil => simp
    | cons d rest =>
      rw [hr] at ih
      rw [List.dropLast_cons_cons, List.mem_cons, not_or]
      exact ⟨Ne.symm hc, ih⟩

/-- Only the end of a piece is a newline. -/
theorem newline_notMem_of_mem_pieces {n : Nat} {text piece : List Char}
    (h : piece ∈ pieces n text) : '\n' ∉ piece.dropLast := by
  fun_induction pieces n text with
  | case1 => simp at h
  | case2 text _ ih =>
    rcases List.mem_cons.mp h with rfl | h
    · exact newline_notMem_readLine _ _
    · exact ih h

private theorem readLine_append (n : Nat) (text : List Char) :
    (readLine n text).1 ++ (readLine n text).2 = text := by
  fun_induction readLine n text with
  | case1 text => rfl
  | case2 n => rfl
  | case3 n text => rfl
  | case4 n c text hc ih => rw [List.cons_append, ih]

/-- The pieces make up the text. -/
theorem flatten_pieces (n : Nat) (text : List Char) : (pieces n text).flatten = text := by
  fun_induction pieces n text with
  | case1 => rfl
  | case2 text _ ih => rw [List.flatten_cons, ih, readLine_append]

/-! ### Lines -/

theorem readLine_newline {n : Nat} {line : List Char} (rest : List Char) (hl : '\n' ∉ line)
    (hn : line.length ≤ n) : readLine (n + 1) (line ++ '\n' :: rest) = (line ++ ['\n'], rest) := by
  induction line generalizing n with
  | nil => simp [readLine]
  | cons c line ih =>
    obtain ⟨hc, hl⟩ : '\n' ≠ c ∧ '\n' ∉ line := by simpa using hl
    obtain ⟨m, rfl⟩ : ∃ m, n = m + 1 := ⟨n - 1, by rw [List.length_cons] at hn; omega⟩
    have hr := ih hl (by simpa using hn)
    rw [List.cons_append, readLine, if_neg (Ne.symm hc), hr]
    rfl

theorem readLine_last {n : Nat} {line : List Char} (hl : '\n' ∉ line) (hn : line.length ≤ n) :
    readLine n line = (line, []) := by
  induction line generalizing n with
  | nil => cases n <;> rfl
  | cons c line ih =>
    obtain ⟨hc, hl⟩ : '\n' ≠ c ∧ '\n' ∉ line := by simpa using hl
    obtain ⟨m, rfl⟩ : ∃ m, n = m + 1 := ⟨n - 1, by rw [List.length_cons] at hn; omega⟩
    rw [readLine, if_neg (Ne.symm hc), ih hl (by simpa using hn)]

/-- A short line ended by a newline is read as one piece. -/
theorem pieces_newline {n : Nat} {line : List Char} (rest : List Char) (hl : '\n' ∉ line)
    (hn : line.length ≤ n) :
    pieces n (line ++ '\n' :: rest) = (line ++ ['\n']) :: pieces n rest := by
  rw [pieces, dif_neg (by simp), readLine_newline rest hl hn]

/-- A short last line without a newline is one piece, if it is not empty. -/
theorem pieces_last {n : Nat} {line : List Char} (hl : '\n' ∉ line) (hn : line.length ≤ n) :
    pieces n line = if line = [] then [] else [line] := by
  by_cases h : line = []
  · rw [pieces, dif_pos h, if_pos h]
  · rw [pieces, dif_neg h, if_neg h, readLine_last hl (by omega), pieces, dif_pos rfl]

/-! ### Physical lines -/

/-- The lines of a text, each with the newline that ends it. -/
def physicalLines : List Char → List (List Char)
  | [] => []
  | c :: text =>
    if c = '\n' then [c] :: physicalLines text
    else
      match physicalLines text with
      | [] => [[c]]
      | line :: lines => (c :: line) :: lines

theorem physicalLines_newline {body : List Char} (rest : List Char) (hb : '\n' ∉ body) :
    physicalLines (body ++ '\n' :: rest) = (body ++ ['\n']) :: physicalLines rest := by
  induction body with
  | nil => simp [physicalLines]
  | cons c body ih =>
    obtain ⟨hc, hb⟩ : '\n' ≠ c ∧ '\n' ∉ body := by simpa using hb
    rw [List.cons_append, physicalLines, if_neg (Ne.symm hc), ih hb]
    rfl

theorem physicalLines_last {body : List Char} (hb : '\n' ∉ body) :
    physicalLines body = if body = [] then [] else [body] := by
  induction body with
  | nil => rfl
  | cons c body ih =>
    obtain ⟨hc, hb⟩ : '\n' ≠ c ∧ '\n' ∉ body := by simpa using hb
    rw [physicalLines, if_neg (Ne.symm hc), ih hb]
    cases body with
    | nil => rfl
    | cons d body => rfl

/-- A text is its first line before a text, or a last line without a newline. -/
theorem text_induction {P : List Char → Prop} (last : ∀ body, '\n' ∉ body → P body)
    (newline : ∀ body rest, '\n' ∉ body → P rest → P (body ++ '\n' :: rest)) (text : List Char) :
    P text := by
  induction hn : text.length using Nat.strong_induction_on generalizing text with
  | _ n ih =>
    by_cases h : '\n' ∈ text
    · obtain ⟨body, rest, rfl, hb⟩ := List.eq_append_cons_of_mem h
      rw [List.length_append, List.length_cons] at hn
      exact newline body rest hb (ih rest.length (by omega) rest rfl)
    · exact last text h

/-- Only an empty line begins with a newline. -/
theorem eq_newline_of_head? {line : List Char} (hl : '\n' ∉ line.dropLast)
    (hh : line.head? = some '\n') : line = ['\n'] := by
  obtain ⟨tail, rfl⟩ := List.head?_eq_some_iff.mp hh
  cases tail with
  | nil => rfl
  | cons c tail => simp at hl

/-- A line is not empty, and only its end is a newline. -/
theorem mem_physicalLines {text line : List Char} (h : line ∈ physicalLines text) :
    line ≠ [] ∧ '\n' ∉ line.dropLast := by
  induction text using text_induction with
  | last body hb =>
    rw [physicalLines_last hb] at h
    split at h
    · simp at h
    · next hne =>
      obtain rfl := List.mem_singleton.mp h
      exact ⟨hne, fun hm ↦ hb ((List.dropLast_sublist _).mem hm)⟩
  | newline body rest hb ih =>
    rw [physicalLines_newline rest hb] at h
    rcases List.mem_cons.mp h with rfl | h
    · exact ⟨by simp, by simpa using hb⟩
    · exact ih h

/-- From a line that is ended, or the last one, as many characters are read as there is
room for. -/
theorem readLine_line {line rest : List Char} (n : Nat) (hl : '\n' ∉ line.dropLast)
    (hend : rest = [] ∨ line.getLast? = some '\n') :
    readLine n (line ++ rest) = (line.take n, line.drop n ++ rest) := by
  induction line generalizing n with
  | nil =>
    obtain rfl : rest = [] := hend.resolve_right (by simp)
    cases n <;> rfl
  | cons c line ih =>
    cases n with
    | zero => rfl
    | succ n =>
      rw [List.cons_append, readLine]
      cases line with
      | nil =>
        by_cases hc : c = '\n'
        · simp [hc]
        · obtain rfl : rest = [] := hend.resolve_right (by simpa using hc)
          rw [if_neg hc]
          cases n <;> rfl
      | cons d line =>
        obtain ⟨hc, hl⟩ : '\n' ≠ c ∧ '\n' ∉ (d :: line).dropLast := by simpa using hl
        have hnext := ih n hl (by simpa using hend)
        rw [if_neg (Ne.symm hc), hnext]
        rfl

theorem dropLast_drop_notMem {line : List Char} (n : Nat) (hl : '\n' ∉ line.dropLast) :
    '\n' ∉ (line.drop n).dropLast := by
  by_cases hne : line.drop n = []
  · simp [hne]
  · have hsplit : (line.take n ++ line.drop n).dropLast = line.take n ++ (line.drop n).dropLast :=
      List.dropLast_append_of_ne_nil hne
    rw [List.take_append_drop] at hsplit
    rw [hsplit] at hl
    exact fun hm ↦ hl (List.mem_append_right _ hm)

/-- The pieces of a line: as much as fits, then the pieces of the rest. -/
theorem pieces_line {n : Nat} {line : List Char} (hne : line ≠ []) (hl : '\n' ∉ line.dropLast) :
    pieces n line = line.take (n + 1) :: pieces n (line.drop (n + 1)) := by
  have hr : readLine (n + 1) (line ++ []) = (line.take (n + 1), line.drop (n + 1) ++ []) :=
    readLine_line (n + 1) hl (.inl rfl)
  rw [List.append_nil, List.append_nil] at hr
  rw [pieces, dif_neg hne, hr]

/-- Where the pieces of a line begin. -/
theorem mem_pieces_line {n : Nat} {line piece : List Char} (hl : '\n' ∉ line.dropLast) :
    piece ∈ pieces n line ↔
      ∃ k, (n + 1) * k < line.length ∧ piece = (line.drop ((n + 1) * k)).take (n + 1) := by
  induction hlen : line.length using Nat.strong_induction_on generalizing line with
  | _ len ih =>
    by_cases hne : line = []
    · obtain rfl : len = 0 := by rw [← hlen, hne, List.length_nil]
      rw [hne, pieces, dif_pos rfl]
      simp
    · have hpos := List.length_pos_of_ne_nil hne
      have hrest := ih (line.drop (n + 1)).length (by rw [List.length_drop]; omega)
        (dropLast_drop_notMem _ hl) rfl
      rw [pieces_line hne hl, List.mem_cons, hrest]
      constructor
      · rintro (rfl | ⟨k, hk, rfl⟩)
        · exact ⟨0, by omega, by simp⟩
        · rw [List.length_drop] at hk
          refine ⟨k + 1, by rw [Nat.mul_succ]; omega, ?_⟩
          rw [List.drop_drop, Nat.mul_succ, Nat.add_comm (n + 1)]
      · rintro ⟨k, hk, rfl⟩
        cases k with
        | zero => exact .inl (by simp)
        | succ k =>
          rw [Nat.mul_succ] at hk
          refine .inr ⟨k, by rw [List.length_drop]; omega, ?_⟩
          rw [List.drop_drop, Nat.mul_succ, Nat.add_comm (n + 1)]

private theorem pieces_append_newline (n : Nat) {body : List Char} (rest : List Char)
    (hb : '\n' ∉ body) :
    pieces n (body ++ '\n' :: rest) = pieces n (body ++ ['\n']) ++ pieces n rest := by
  induction hlen : body.length using Nat.strong_induction_on generalizing body with
  | _ len ih =>
    by_cases hshort : body.length ≤ n
    · have hnil : pieces n [] = [] := by rw [pieces, dif_pos rfl]
      rw [pieces_newline rest hb hshort, pieces_newline [] hb hshort, hnil]
      rfl
    · have hline : '\n' ∉ (body ++ ['\n']).dropLast := by simpa using hb
      have hread := readLine_line (n + 1) hline (.inr (by simp) : rest = [] ∨ _)
      have hdrop : (body ++ ['\n']).drop (n + 1) = body.drop (n + 1) ++ ['\n'] :=
        List.drop_append_of_le_length (by omega)
      have hnext := ih (body.drop (n + 1)).length (by rw [List.length_drop]; omega)
        (fun hm ↦ hb (List.mem_of_mem_drop hm)) rfl
      rw [pieces_line (by simp) hline, hdrop, List.cons_append, ← hnext]
      rw [List.append_assoc, List.singleton_append, hdrop, List.append_assoc,
        List.singleton_append] at hread
      rw [pieces, dif_neg (by simp), hread]

/-- A text is read line by line, each line in its pieces. -/
theorem pieces_eq_flatMap (n : Nat) (text : List Char) :
    pieces n text = (physicalLines text).flatMap (pieces n) := by
  induction text using text_induction with
  | last body hb =>
    rw [physicalLines_last hb]
    split
    · next h => rw [h, pieces, dif_pos rfl, List.flatMap_nil]
    · rw [List.flatMap_singleton]
  | newline body rest hb ih =>
    rw [physicalLines_newline rest hb, List.flatMap_cons, ← ih, pieces_append_newline n rest hb]

end DupDistribute.Base

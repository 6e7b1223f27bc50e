import DupDistribute.Record.Sequence

/-!
# What the record files hold

`distribute_run` opens a record with `w+` and writes the chunk to it (`util.c:219-223`,
`recordData.c:62-89`). Between the two, other processes may open records of their own. As long as
no path is opened twice, a file that was written holds the bytes of its one write, whatever the
interleaving, and all other files are as they were.
-/

namespace DupDistribute.Record

open DupDistribute.Base

variable {ι : Type} {env : Env}

/-- The paths opened by all processes, in order. -/
def openedPaths (τ : List (ι × Event)) : List CString :=
  τ.filterMap (fun e ↦ e.2.openedPath)

/-- The path and the bytes that were written. -/
def Event.written : Event → Option (CString × List UInt8)
  | .write path bytes => some (path, bytes)
  | _ => none

/-- The messages written by all processes, each with the path of its record. -/
def messages (τ : List (ι × Event)) : List (CString × List UInt8) :=
  τ.filterMap (fun e ↦ e.2.written)

theorem mem_messages {τ : List (ι × Event)} {m : CString × List UInt8} :
    m ∈ messages τ ↔ ∃ p, (p, Event.write m.1 m.2) ∈ τ := by
  simp only [messages, List.mem_filterMap, Prod.exists]
  constructor
  · rintro ⟨p, e, hm, he⟩
    cases e with
    | write path bytes =>
      obtain rfl : (path, bytes) = m := by simpa [Event.written] using he
      exact ⟨p, hm⟩
    | _ => simp [Event.written] at he
  · rintro ⟨p, hm⟩
    exact ⟨p, _, hm, rfl⟩

@[simp] private theorem openedPaths_append (τ τ' : List (ι × Event)) :
    openedPaths (τ ++ τ') = openedPaths τ ++ openedPaths τ' := List.filterMap_append

private theorem messages_append (τ τ' : List (ι × Event)) :
    messages (τ ++ τ') = messages τ ++ messages τ' := List.filterMap_append

/-- Events that touch no file open none. -/
private theorem openedPaths_quiet {p : ι} {es : List Event} (hes : ∀ e ∈ es, e.touches = none) :
    openedPaths (es.map (fun e ↦ (p, e))) = [] := by
  rw [openedPaths, List.filterMap_map, List.filterMap_eq_nil_iff]
  intro e he
  have ht := hes e he
  cases e with
  | fopen c path => cases ht
  | _ => rfl

/-- Events that touch no file write none. -/
private theorem messages_quiet {p : ι} {es : List Event} (hes : ∀ e ∈ es, e.touches = none) :
    messages (es.map (fun e ↦ (p, e))) = [] := by
  rw [messages, List.filterMap_map, List.filterMap_eq_nil_iff]
  intro e he
  have ht := hes e he
  cases e with
  | write path bytes => cases ht
  | _ => rfl

/-! ### The store and the trace -/

/-- A process has the file open and has not written to it. -/
def Opening (S : Sys ι Store Recorder) (p : ι) (path : CString) : Prop :=
  (S.procs p).pc = .opened path

/-- The store in terms of the trace. -/
structure Holds (w₀ : Store) (τ : List (ι × Event)) (S : Sys ι Store Recorder) : Prop where
  untouched : ∀ path, path ∉ openedPaths τ → S.world.files path = w₀.files path
  written : ∀ p path bytes, (p, Event.write path bytes) ∈ τ → S.world.files path = some bytes
  fresh : ∀ p path, Opening S p path → S.world.files path = some [] ∧ path ∈ openedPaths τ
  single : ∀ p q path, Opening S p path → Opening S q path → p = q
  unwritten : ∀ p path, Opening S p path → ∀ q bytes, (q, Event.write path bytes) ∉ τ
  opened : ∀ p path bytes, (p, Event.write path bytes) ∈ τ → path ∈ openedPaths τ
  pending : ∀ p c path, (p, Event.fopen c path) ∈ τ →
    Opening S p path ∨ ∃ bytes, (p, Event.write path bytes) ∈ τ

/-! ### One step -/

variable [DecidableEq ι]

section
variable {w₀ : Store} {τ : List (ι × Event)} {S : Sys ι Store Recorder} {p : ι}

/-- After a step of `p`, another process has open what it had open. -/
private theorem opening_update {s : Recorder} {w : Store} {q : ι} {path : CString} :
    Opening ⟨Function.update S.procs p s, w⟩ q path ↔
      q = p ∧ s.pc = .opened path ∨ q ≠ p ∧ Opening S q path := by
  by_cases hq : q = p
  · subst hq
    simp [Opening]
  · simp [Opening, hq]

/-- A step before and after which the process has no file open. -/
private theorem opening_quiet {s : Recorder} {w : Store}
    (hbefore : ∀ path, (S.procs p).pc ≠ .opened path) (hafter : ∀ path, s.pc ≠ .opened path)
    (q : ι) (path : CString) :
    Opening ⟨Function.update S.procs p s, w⟩ q path ↔ Opening S q path := by
  rw [opening_update]
  constructor
  · rintro (⟨-, hp⟩ | ⟨-, hq⟩)
    · exact absurd hp (hafter path)
    · exact hq
  · intro hq
    refine .inr ⟨?_, hq⟩
    rintro rfl
    exact hbefore path hq

/-- A step that touches no file and has none open. -/
private theorem Holds.quiet (h : Holds w₀ τ S) {s : Recorder} {w : Store} {es : List Event}
    (hfiles : w.files = S.world.files) (hbefore : ∀ path, (S.procs p).pc ≠ .opened path)
    (hafter : ∀ path, s.pc ≠ .opened path) (hes : ∀ e ∈ es, e.touches = none) :
    Holds w₀ (τ ++ es.map (fun e ↦ (p, e))) ⟨Function.update S.procs p s, w⟩ := by
  have hopening := opening_quiet (w := w) hbefore hafter
  have hpaths : openedPaths (τ ++ es.map (fun e ↦ (p, e))) = openedPaths τ := by
    rw [openedPaths_append, openedPaths_quiet hes, List.append_nil]
  have hmem (q : ι) (e : Event) (he : e.touches ≠ none) :
      (q, e) ∈ τ ++ es.map (fun e ↦ (p, e)) ↔ (q, e) ∈ τ := by
    rw [List.mem_append, or_iff_left]
    intro hm
    obtain ⟨e', he', heq⟩ := List.mem_map.mp hm
    obtain ⟨-, rfl⟩ := Prod.mk.inj heq
    exact he (hes e' he')
  have hwrite (q : ι) (path : CString) (bytes : List UInt8) :=
    hmem q (.write path bytes) (by simp [Event.touches])
  have hfopen (q : ι) (c : Call) (path : CString) :=
    hmem q (.fopen c path) (by simp [Event.touches])
  constructor
  · simpa only [hpaths, hfiles] using h.untouched
  · simpa only [hwrite, hfiles] using h.written
  · simpa only [hopening, hpaths, hfiles] using h.fresh
  · simpa only [hopening] using h.single
  · simpa only [hopening, hwrite] using h.unwritten
  · simpa only [hwrite, hpaths] using h.opened
  · simpa only [hopening, hwrite, hfopen] using h.pending

/-- A process opens a record under a name that is new. -/
private theorem Holds.opens (h : Holds w₀ τ S) {u : UInt32} {call : Call} {path : CString}
    (hnew : path ∉ openedPaths τ) (hbefore : ∀ path, (S.procs p).pc ≠ .opened path) :
    Holds w₀ (τ ++ [(p, .fopen call path), (p, .returned (some path))])
      ⟨Function.update S.procs p ⟨u, .opened path⟩, S.world.truncate path⟩ := by
  have hpaths : openedPaths (τ ++ [(p, .fopen call path), (p, .returned (some path))]) =
      openedPaths τ ++ [path] := by
    rw [openedPaths_append]
    rfl
  have hwrite (q : ι) (path' : CString) (bytes : List UInt8) :
      (q, Event.write path' bytes) ∈ τ ++ [(p, .fopen call path), (p, .returned (some path))] ↔
        (q, Event.write path' bytes) ∈ τ := by simp
  have hother {path' : CString} (hne : path' ≠ path) :
      (S.world.truncate path).files path' = S.world.files path' := Function.update_of_ne hne _ _
  have hold {path' : CString} (hm : path' ∈ openedPaths τ) : path' ≠ path := by
    rintro rfl
    exact hnew hm
  constructor
  · intro path' hm
    rw [hpaths, List.mem_append, List.mem_singleton, not_or] at hm
    rw [← h.untouched path' hm.1]
    exact hother hm.2
  · intro q path' bytes hm
    rw [hwrite] at hm
    rw [← h.written q path' bytes hm]
    exact hother (hold (h.opened q path' bytes hm))
  · intro q path' hq
    rw [hpaths]
    rcases opening_update.mp hq with ⟨-, hp⟩ | ⟨-, hq⟩
    · obtain rfl : path = path' := by simpa using hp
      exact ⟨Function.update_self _ _ _, by simp⟩
    · obtain ⟨hfile, hm⟩ := h.fresh q path' hq
      refine ⟨?_, List.mem_append_left _ hm⟩
      rw [← hfile]
      exact hother (hold hm)
  · intro q r path' hq hr
    rw [opening_update] at hq hr
    rcases hq with ⟨rfl, hp⟩ | ⟨-, hq⟩ <;> rcases hr with ⟨rfl, hp'⟩ | ⟨-, hr⟩
    · rfl
    · obtain rfl : path = path' := by simpa using hp
      exact absurd (h.fresh r path hr).2 hnew
    · obtain rfl : path = path' := by simpa using hp'
      exact absurd (h.fresh q path hq).2 hnew
    · exact h.single q r path' hq hr
  · intro q path' hq r bytes hm
    rw [hwrite] at hm
    rcases opening_update.mp hq with ⟨-, hp⟩ | ⟨-, hq⟩
    · obtain rfl : path = path' := by simpa using hp
      exact hnew (h.opened r path bytes hm)
    · exact h.unwritten q path' hq r bytes hm
  · intro q path' bytes hm
    rw [hwrite] at hm
    rw [hpaths]
    exact List.mem_append_left _ (h.opened q path' bytes hm)
  · intro q c path' hm
    simp only [hwrite, opening_update]
    have hm : (q, Event.fopen c path') ∈ τ ∨ q = p ∧ c = call ∧ path' = path := by simpa using hm
    rcases hm with hm | ⟨rfl, -, rfl⟩
    · rcases h.pending q c path' hm with hq | hw
      · refine .inl (.inr ⟨?_, hq⟩)
        rintro rfl
        exact hbefore path' hq
      · exact .inr hw
    · exact .inl (.inl ⟨rfl, rfl⟩)

/-- A process writes the record that it has open. -/
private theorem Holds.writes (h : Holds w₀ τ S) {u : UInt32} {path : CString}
    (hp : Opening S p path) (bytes : List UInt8) :
    Holds w₀ (τ ++ [(p, .write path bytes)])
      ⟨Function.update S.procs p ⟨u, .idle⟩, S.world.write path bytes⟩ := by
  have hpaths : openedPaths (τ ++ [(p, .write path bytes)]) = openedPaths τ := by
    rw [openedPaths_append]
    exact List.append_nil _
  have hwrite (q : ι) (path' : CString) (bytes' : List UInt8) :
      (q, Event.write path' bytes') ∈ τ ++ [(p, .write path bytes)] ↔
        (q, Event.write path' bytes') ∈ τ ∨ q = p ∧ path' = path ∧ bytes' = bytes := by simp
  have hfile : (S.world.write path bytes).files path = some bytes := by
    simp [Store.write, (h.fresh p path hp).1]
  have hother {path' : CString} (hne : path' ≠ path) :
      (S.world.write path bytes).files path' = S.world.files path' := Function.update_of_ne hne _ _
  have hopening {q : ι} {path' : CString}
      (hq : Opening ⟨Function.update S.procs p ⟨u, .idle⟩, S.world.write path bytes⟩ q path') :
      Opening S q path' ∧ path' ≠ path := by
    rw [opening_update] at hq
    rcases hq with ⟨-, hp⟩ | ⟨hqp, hq⟩
    · cases hp
    · refine ⟨hq, ?_⟩
      rintro rfl
      exact hqp (h.single q p path' hq hp)
  constructor
  · intro path' hm
    rw [hpaths] at hm
    rw [← h.untouched path' hm]
    apply hother
    rintro rfl
    exact hm (h.fresh p path' hp).2
  · intro q path' bytes' hm
    rw [hwrite] at hm
    rcases hm with hm | ⟨-, rfl, rfl⟩
    · rw [← h.written q path' bytes' hm]
      apply hother
      rintro rfl
      exact h.unwritten p path' hp q bytes' hm
    · exact hfile
  · intro q path' hq
    obtain ⟨hq, hne⟩ := hopening hq
    rw [hpaths, hother hne]
    exact h.fresh q path' hq
  · intro q r path' hq hr
    exact h.single q r path' (hopening hq).1 (hopening hr).1
  · intro q path' hq r bytes' hm
    obtain ⟨hq, hne⟩ := hopening hq
    rw [hwrite] at hm
    rcases hm with hm | ⟨-, rfl, -⟩
    · exact h.unwritten q path' hq r bytes' hm
    · exact hne rfl
  · intro q path' bytes' hm
    rw [hwrite] at hm
    rw [hpaths]
    rcases hm with hm | ⟨-, rfl, -⟩
    · exact h.opened q path' bytes' hm
    · exact (h.fresh p path' hp).2
  · intro q c path' hm
    have hm : (q, Event.fopen c path') ∈ τ := by simpa using hm
    rcases h.pending q c path' hm with hq | ⟨bytes', hw⟩
    · by_cases hqp : q = p
      · subst hqp
        obtain rfl : path' = path := by
          have heq : Pc.opened path' = Pc.opened path := hq.symm.trans hp
          simpa using heq
        exact .inr ⟨bytes, by simp⟩
      · exact .inl (opening_update.mpr (.inr ⟨hqp, hq⟩))
    · exact .inr ⟨bytes', List.mem_append_left _ hw⟩

end

/-! ### Whole runs -/

/-- The store after any interleaved run in which no path is opened twice. -/
theorem holds_of_run {S₀ S : Sys ι Store Recorder} {τ : List (ι × Event)}
    (h₀ : ∀ p, (S₀.procs p).pc = .idle) (h : ((recorder env).interleave ι).Open S₀ τ S)
    (hnodup : (openedPaths τ).Nodup) : Holds S₀.world τ S := by
  refine h.invariant (fun τ S ↦ (openedPaths τ).Nodup → Holds S₀.world τ S) ?_ ?_ hnodup
  · intro _
    have hnone (p : ι) (path : CString) : ¬Opening S₀ p path := by simp [Opening, h₀ p]
    exact ⟨fun _ _ ↦ rfl, by simp, fun p path hp ↦ absurd hp (hnone p path),
      fun p _ path hp ↦ absurd hp (hnone p path), by simp, by simp, by simp⟩
  · rintro τ S _ ⟨p, a⟩ S' _ es hi _ hs hnodup
    obtain ⟨s', w', es', hstep, rfl, rfl⟩ := Machine.interleave_step hs
    rw [openedPaths_append] at hnodup
    have hholds := hi (List.nodup_append.mp hnodup).1
    generalize hsp : S.procs p = s at hstep
    cases Recorder.does_of_step hstep with
    | call u | conf u | noConf u | date u | present u dir | missing u dir | made u dir
    | notMade u dir | name u dir | notOpened u call path =>
      exact hholds.quiet rfl (by simp [hsp]) (by simp) (by simp [Event.touches])
    | opens u call path =>
      refine hholds.opens ?_ (by simp [hsp])
      intro hm
      exact (List.nodup_append.mp hnodup).2.2 path hm path (by simp [openedPaths, Event.openedPath])
        rfl
    | writes u path =>
      exact hholds.writes (by rw [Opening, hsp]) a.bytes

/-! ### One write for each opened file -/

/-- The paths opened are those written and those that the processes `waiting` have open. -/
structure Balanced (τ : List (ι × Event)) (S : Sys ι Store Recorder)
    (waiting : List (ι × CString)) : Prop where
  waits : ∀ p path, (p, path) ∈ waiting ↔ Opening S p path
  nodup : waiting.Nodup
  perm : (openedPaths τ).Perm ((messages τ).map Prod.fst ++ waiting.map Prod.snd)

section
variable {τ : List (ι × Event)} {S : Sys ι Store Recorder} {p : ι}
  {waiting : List (ι × CString)}

private theorem Balanced.quiet (h : Balanced τ S waiting) {s : Recorder} {w : Store}
    {es : List Event} (hbefore : ∀ path, (S.procs p).pc ≠ .opened path)
    (hafter : ∀ path, s.pc ≠ .opened path) (hes : ∀ e ∈ es, e.touches = none) :
    Balanced (τ ++ es.map (fun e ↦ (p, e))) ⟨Function.update S.procs p s, w⟩ waiting := by
  refine ⟨fun q path ↦ ?_, h.nodup, ?_⟩
  · rw [h.waits, opening_quiet hbefore hafter]
  · rw [openedPaths_append, messages_append, openedPaths_quiet hes,
      messages_quiet hes, List.append_nil, List.append_nil]
    exact h.perm

private theorem Balanced.opens (h : Balanced τ S waiting) {u : UInt32} {w : Store} {call : Call}
    {path : CString} (hbefore : ∀ path, (S.procs p).pc ≠ .opened path) :
    Balanced (τ ++ [(p, .fopen call path), (p, .returned (some path))])
      ⟨Function.update S.procs p ⟨u, .opened path⟩, w⟩ ((p, path) :: waiting) := by
  have hfree (path' : CString) : (p, path') ∉ waiting := by
    rw [h.waits]
    exact hbefore path'
  refine ⟨fun q path' ↦ ?_, List.nodup_cons.mpr ⟨hfree path, h.nodup⟩, ?_⟩
  · rw [opening_update, List.mem_cons, Prod.mk.injEq, ← h.waits, Pc.opened.injEq,
      eq_comm (a := path)]
    constructor
    · rintro (hnew | hold)
      · exact .inl hnew
      · refine .inr ⟨?_, hold⟩
        rintro rfl
        exact hfree path' hold
    · rintro (hnew | ⟨-, hold⟩)
      · exact .inl hnew
      · exact .inr hold
  · rw [openedPaths_append, messages_append, List.map_cons]
    change (openedPaths τ ++ [path]).Perm ((messages τ ++ []).map Prod.fst ++ _)
    rw [List.append_nil]
    exact (h.perm.append_right _).trans ((List.perm_append_singleton path _).trans
      List.perm_middle.symm)

private theorem Balanced.writes (h : Balanced τ S waiting) {u : UInt32}
    {w : Store} {path : CString} (hp : Opening S p path) (bytes : List UInt8) :
    Balanced (τ ++ [(p, .write path bytes)]) ⟨Function.update S.procs p ⟨u, .idle⟩, w⟩
      (waiting.erase (p, path)) := by
  refine ⟨fun q path' ↦ ?_, h.nodup.erase _, ?_⟩
  · rw [h.nodup.mem_erase_iff, h.waits, opening_update]
    constructor
    · rintro ⟨hne, hq⟩
      refine .inr ⟨?_, hq⟩
      rintro rfl
      have heq : Pc.opened path' = Pc.opened path := hq.symm.trans hp
      obtain rfl := Pc.opened.inj heq
      exact hne rfl
    · rintro (⟨-, hidle⟩ | ⟨hne, hq⟩)
      · cases hidle
      · exact ⟨fun heq ↦ hne (Prod.mk.inj heq).1, hq⟩
  · have hwaits : waiting.Perm ((p, path) :: waiting.erase (p, path)) :=
      List.perm_cons_erase ((h.waits p path).mpr hp)
    rw [openedPaths_append, messages_append]
    change (openedPaths τ ++ []).Perm ((messages τ ++ [(path, bytes)]).map Prod.fst ++ _)
    rw [List.append_nil, List.map_append, List.append_assoc]
    exact h.perm.trans ((hwaits.map Prod.snd).append_left _)

end

/-- In every interleaved run, each opened file is written once or is still open. -/
private theorem balanced_of_run {S₀ S : Sys ι Store Recorder} {τ : List (ι × Event)}
    (h₀ : ∀ p, (S₀.procs p).pc = .idle) (h : ((recorder env).interleave ι).Open S₀ τ S) :
    ∃ waiting, Balanced τ S waiting := by
  refine h.invariant (fun τ S ↦ ∃ waiting, Balanced τ S waiting) ?_ ?_
  · exact ⟨[], fun p path ↦ by simp [Opening, h₀ p], .nil, .nil⟩
  · rintro τ S _ ⟨p, a⟩ S' _ es ⟨waiting, hi⟩ _ hs
    obtain ⟨s', w', es', hstep, rfl, rfl⟩ := Machine.interleave_step hs
    generalize hsp : S.procs p = s at hstep
    cases Recorder.does_of_step hstep with
    | call u | conf u | noConf u | date u | present u dir | missing u dir | made u dir
    | notMade u dir | name u dir | notOpened u call path =>
      exact ⟨waiting, hi.quiet (by simp [hsp]) (by simp) (by simp [Event.touches])⟩
    | opens u call path => exact ⟨_, hi.opens (by simp [hsp])⟩
    | writes u path => exact ⟨_, hi.writes (by rw [Opening, hsp]) a.bytes⟩

omit [DecidableEq ι] in
/-- A path that was written twice would hold two different messages. -/
private theorem paths_nodup_of_kept {S : Sys ι Store Recorder} {ms : List (CString × List UInt8)}
    (hkept : ∀ m ∈ ms, S.world.files m.1 = some m.2) (hdiffer : (ms.map Prod.snd).Nodup) :
    (ms.map Prod.fst).Nodup := by
  refine List.pairwise_map.mpr ((List.pairwise_map.mp hdiffer).imp_of_mem ?_)
  intro m m' hm hm' hne heq
  have hsame := hkept m hm
  rw [heq, hkept m' hm'] at hsame
  exact hne (Option.some.inj hsame).symm

/-- For every interleaving of any number of processes that have all finished recording, with
messages that are pairwise different: every message can be read back from the file it was
written to exactly if no path was opened twice. -/
theorem messages_kept_iff_paths_nodup {S₀ S : Sys ι Store Recorder} {τ : List (ι × Event)}
    (h₀ : ∀ p, (S₀.procs p).pc = .idle) (h : ((recorder env).interleave ι).Open S₀ τ S)
    (hidle : ∀ p, (S.procs p).pc = .idle) (hdiffer : ((messages τ).map Prod.snd).Nodup) :
    (∀ m ∈ messages τ, S.world.files m.1 = some m.2) ↔ (openedPaths τ).Nodup := by
  constructor
  · intro hkept
    obtain ⟨waiting, hbalanced⟩ := balanced_of_run h₀ h
    have hnone : waiting = [] := by
      apply List.eq_nil_iff_forall_not_mem.mpr
      rintro ⟨p, path⟩ hm
      have hopen : (S.procs p).pc = .opened path := (hbalanced.waits p path).mp hm
      rw [hidle p] at hopen
      cases hopen
    have hperm := hbalanced.perm
    rw [hnone, List.map_nil, List.append_nil] at hperm
    rw [hperm.nodup_iff]
    exact paths_nodup_of_kept hkept hdiffer
  · intro hnodup m hm
    obtain ⟨p, hp⟩ := mem_messages.mp hm
    exact (holds_of_run h₀ h hnodup).written p m.1 m.2 hp

/-- Two processes with different counters, one message each in the same second: the second
opens its record before the first has written. -/
theorem messages_kept_two_processes :
    let env : Env := ⟨['d'], fun _ ↦ ['1']⟩
    let S₀ : Sys Bool Store Recorder :=
      ⟨fun p ↦ ⟨if p then 5 else 0, .idle⟩, ⟨{env.dayDir 0}, fun _ ↦ none⟩⟩
    ∃ τ S, ((recorder env).interleave Bool).Open S₀ τ S ∧
      (messages τ).map Prod.snd = [[0xEB], [0xEB, 1]] ∧
      ∀ m ∈ messages τ, S.world.files m.1 = some m.2 := by
  intro env S₀
  let acts : List (Unit × Bool × Input) :=
    List.replicate 6 ((), false, { bytes := [0xEB] }) ++
      List.replicate 6 ((), true, { bytes := [0xEB, 1] }) ++
      [((), false, { bytes := [0xEB] }), ((), true, { bytes := [0xEB, 1] })]
  obtain ⟨τ, S, hrun, hfalse, htrue, hbytes, hnodup⟩ :=
    Machine.exec_observe ((recorder env).interleave Bool) (fun _ _ _ ↦ true) S₀ acts
      (fun S τ ↦ (S.procs false).pc = .idle ∧ (S.procs true).pc = .idle ∧
        (messages τ).map Prod.snd = [[0xEB], [0xEB, 1]] ∧ (openedPaths τ).Nodup)
      (fun _ _ _ _ ↦ trivial) (by decide +kernel)
  refine ⟨τ, S, hrun, hbytes, ?_⟩
  refine (messages_kept_iff_paths_nodup (fun _ ↦ rfl) hrun ?_ (by rw [hbytes]; decide)).mpr hnodup
  intro p
  cases p with
  | false => exact hfalse
  | true => exact htrue

/-- The name of a message that was written has a counter below 1000. -/
private theorem counter_of_message {S₀ S : Sys ι Store Recorder} {τ : List (ι × Event)}
    (h₀ : ∀ p, (S₀.procs p).pc = .idle) (h : ((recorder env).interleave ι).Open S₀ τ S)
    {m : CString × List UInt8} (hm : m ∈ messages τ) {dir : CString} {timestamp uuid : UInt32}
    (hpath : m.1 = dataFile dir timestamp uuid) : uuid.toNat < 1000 := by
  obtain ⟨p, hp⟩ := mem_messages.mp hm
  have hnamed := named_of_open (h₀ p) (h.project p)
  obtain ⟨c, hc⟩ := hnamed.writes m.1 m.2 (Machine.mem_eventsOf.mpr hp)
  have heq : dataFile dir timestamp uuid = c.path := hpath.symm.trans (hnamed.opens c m.1 hc)
  obtain ⟨-, -, rfl⟩ := dataFile_inj heq
  have hle : (nextUuid c.uuid c.existed).toNat ≤ 999 := c.counter_le
  omega

/-- For every interleaving of any number of processes, with messages that are pairwise different:
of those recorded in one second under one directory, at most 1000 can be read back. -/
theorem kept_in_second_le {S₀ S : Sys ι Store Recorder} {τ : List (ι × Event)}
    (h₀ : ∀ p, (S₀.procs p).pc = .idle) (h : ((recorder env).interleave ι).Open S₀ τ S)
    (hdiffer : ((messages τ).map Prod.snd).Nodup) {kept : List (CString × List UInt8)}
    (hsub : kept.Sublist (messages τ)) (hkept : ∀ m ∈ kept, S.world.files m.1 = some m.2)
    (dir : CString) (timestamp : UInt32)
    (hsecond : ∀ m ∈ kept, ∃ uuid, m.1 = dataFile dir timestamp uuid) : kept.length ≤ 1000 := by
  have hnodup := paths_nodup_of_kept hkept (hdiffer.sublist (hsub.map Prod.snd))
  have hnames : kept.map Prod.fst ⊆
      (List.range 1000).map (fun k ↦ dataFile dir timestamp (UInt32.ofNat k)) := by
    intro path hpath
    obtain ⟨m, hm, rfl⟩ := List.mem_map.mp hpath
    obtain ⟨uuid, huuid⟩ := hsecond m hm
    have hlt := counter_of_message h₀ h (hsub.subset hm) huuid
    exact List.mem_map.mpr ⟨uuid.toNat, List.mem_range.mpr hlt, by rw [UInt32.ofNat_toNat, huuid]⟩
  have hlength := (List.subperm_of_subset hnodup hnames).length_le
  rwa [List.length_map, List.length_map, List.length_range] at hlength

/-- Two processes with equal counters that record in the same second: one of the messages is
left. -/
theorem kept_in_second_le_colliding :
    let env : Env := ⟨['d'], fun _ ↦ ['1']⟩
    let S₀ : Sys Bool Store Recorder := ⟨fun _ ↦ ⟨0, .idle⟩, ⟨{env.dayDir 0}, fun _ ↦ none⟩⟩
    ∃ τ S, ((recorder env).interleave Bool).Open S₀ τ S ∧
      (messages τ).map Prod.snd = [[0xEB], [0xEB, 1]] ∧
      let kept := (messages τ).filter (fun m ↦ S.world.files m.1 = some m.2)
      kept = [(dataFile (env.dayDir 0) 0 1, [0xEB, 1])] ∧ kept.length ≤ 1000 := by
  intro env S₀
  let acts : List (Unit × Bool × Input) :=
    List.replicate 7 ((), false, { bytes := [0xEB] }) ++
      List.replicate 7 ((), true, { bytes := [0xEB, 1] })
  obtain ⟨τ, S, hrun, hbytes, hkept⟩ :=
    Machine.exec_observe ((recorder env).interleave Bool) (fun _ _ _ ↦ true) S₀ acts
      (fun S τ ↦ (messages τ).map Prod.snd = [[0xEB], [0xEB, 1]] ∧
        (messages τ).filter (fun m ↦ S.world.files m.1 = some m.2) =
          [(dataFile (env.dayDir 0) 0 1, [0xEB, 1])])
      (fun _ _ _ _ ↦ trivial) (by decide +kernel)
  refine ⟨τ, S, hrun, hbytes, hkept, ?_⟩
  refine kept_in_second_le (fun _ ↦ rfl) hrun (by rw [hbytes]; decide) List.filter_sublist
    (fun m hm ↦ ?_) (env.dayDir 0) 0 (fun m hm ↦ ⟨1, ?_⟩)
  · simpa using (List.mem_filter.mp hm).2
  · rw [hkept] at hm
    rw [List.mem_singleton.mp hm]

end DupDistribute.Record

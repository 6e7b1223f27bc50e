import DupDistribute.Log.LogWrite
import Mathlib.Data.List.Chain

/-!
# Which file the log goes to

`ReadLogConfig` copies the name of the log file over the one before and copies no terminator
(`log.c:60-62`). A name that is shorter than the string in `logsetting.filepath` therefore keeps
the end of that string, and what the array holds depends on all names before. Without
`engine.conf` the name is made up once (`log.c:170-177`) and kept.
-/

namespace DupDistribute.Log

open DupDistribute.Base DupDistribute.Config

/-- The name that a reading asks for. -/
def Reading.name (r : Reading) : CString := logName r.path r.date

/-- The reading that an event reports. -/
def LogEvent.reading : LogEvent → Option Reading
  | .configured reading => some reading
  | _ => none

/-- The readings of a run, in their order. -/
def readings (τ : List LogEvent) : List Reading := τ.filterMap LogEvent.reading

private theorem readings_append (τ τ' : List LogEvent) :
    readings (τ ++ τ') = readings τ ++ readings τ' := List.filterMap_append

/-- The `log-path` that a reading would find. -/
def Surroundings.logPath (w : Surroundings) : Option CString :=
  match w.conf with
  | .text content => setting w.behind content "log-path".toList
  | _ => none

/-- `engine.conf` can be read and has a `log-path` that fits its field. -/
def LogPathPresent (w : Surroundings) : Prop := ∃ path ∈ w.logPath, path.length ≤ 127

instance (w : Surroundings) : Decidable (LogPathPresent w) :=
  inferInstanceAs (Decidable (∃ path ∈ w.logPath, path.length ≤ 127))

private theorem LogPathPresent.conf_eq {w : Surroundings} (h : LogPathPresent w) :
    ∃ content, w.conf = .text content := by
  obtain ⟨path, hpath, -⟩ := h
  cases hconf : w.conf with
  | text content => exact ⟨content, rfl⟩
  | missing => simp [Surroundings.logPath, hconf] at hpath
  | unreadable => simp [Surroundings.logPath, hconf] at hpath

/-! ### One reading -/

/-- The array holds a string and zeros behind it. -/
private structure LogSet.Holds (set : LogSet) (s : CString) : Prop where
  buffer : set.filepath = pad MAXFILEPATH s
  plain : nul ∉ s
  fits : s.length < MAXFILEPATH

private theorem LogSet.Holds.cstr_eq {set : LogSet} {s : CString} (h : set.Holds s) :
    cstr set.filepath = s := by
  have hpad := cstr_pad [] h.plain h.fits
  rwa [List.append_nil, ← h.buffer] at hpad

private theorem LogSet.Holds.store {set : LogSet} {s value : CString} (h : set.Holds s)
    (hplain : nul ∉ value) (hfits : value.length < MAXFILEPATH) :
    (set.store 0 value).Holds (overlay s value) where
  buffer := by
    rw [LogSet.filepath_store, h.buffer,
      blit_pad_overlay (Nat.le_of_lt h.fits) (Nat.le_of_lt hfits)]
  plain := notMem_overlay h.plain hplain
  fits := by
    rw [length_overlay]
    exact Nat.max_lt.mpr ⟨hfits, h.fits⟩

private theorem LogSet.Holds.rename {set : LogSet} {s value : CString} (h : set.Holds s)
    (hplain : nul ∉ value) (hfits : value.length < MAXFILEPATH) :
    (set.rename value).Holds (overlay s value) := by
  rw [LogSet.rename, h.cstr_eq]
  split_ifs with hcmp
  · exact h.store hplain hfits
  · -- The name is in force already.
    have hsame : value = s := (strcmp_eq_zero_iff hplain h.plain).mp (not_not.mp hcmp)
    rw [hsame, overlay_self]
    exact h

/-- A reading copies the name over the string before. -/
private theorem readLogConfig_ok {w : Surroundings} {content : List Char} {set set' : LogSet}
    {r : Reading} {s : CString} (hs : set.Holds s)
    (h : readLogConfig w content set = .ok (set', r)) :
    set'.Holds r.filepath ∧ r.filepath = overlay s r.name := by
  rw [readLogConfig] at h
  obtain ⟨path, hpath, h⟩ := bind_eq_ok.mp h
  obtain ⟨value, hvalue, h⟩ := bind_eq_ok.mp h
  obtain ⟨level, -, h⟩ := bind_eq_ok.mp h
  obtain ⟨code, -, h⟩ := bind_eq_ok.mp h
  obtain ⟨hfits, rfl⟩ := inValue_ok.mp hvalue
  cases h
  have hplain := nul_notMem_logName (nul_notMem_setting (lookUp_ok.mp hpath)) w.date.nul_notMem
  have hnext := hs.rename hplain hfits
  rw [hnext.cstr_eq]
  exact ⟨⟨hnext.buffer, hnext.plain, hnext.fits⟩, rfl⟩

/-! ### The rest of a call -/

/-- `InitLog` leaves a path that is not empty alone. -/
private theorem initLog_ok {w : Surroundings} {set set' : LogSet} {loglevel : UInt8}
    {out : Option (CString × CString)} (hne : cstr set.filepath ≠ [])
    (h : initLog w set loglevel = .ok (set', out)) : set' = set := by
  rw [initLog] at h
  by_cases hlevel : loglevel &&& set.loglevel ≠ loglevel
  · rw [if_pos hlevel] at h
    cases h
    rfl
  · have hlen : ¬(cstr set.filepath).length = 0 := by simpa using hne
    rw [if_neg hlevel, if_neg hlen] at h
    obtain ⟨same, hsame, h⟩ := bind_eq_ok.mp h
    obtain ⟨opened, -, h⟩ := bind_eq_ok.mp h
    cases hsame
    cases h
    rfl

/-! ### Whole runs -/

/-- Before the first reading. -/
private def Reading.initial : Reading := ⟨[], [], []⟩

private def lastReading (τ : List LogEvent) : Reading := (readings τ).getLastD .initial

/-- The second reading was copied over the first. -/
private def Reading.Over (a b : Reading) : Prop := b.filepath = overlay a.filepath b.name

/-- Every reading was copied over the one before, and the array holds the last. -/
private structure Tracked (τ : List LogEvent) (l : Logger) : Prop where
  chain : (Reading.initial :: readings τ).IsChain Reading.Over
  holds : l.set.Holds (lastReading τ).filepath
  named : ∀ call, l.pc = .configured call → (lastReading τ).filepath ≠ []

private theorem tracked_start : Tracked [] Logger.start where
  chain := List.isChain_singleton _
  holds := ⟨rfl, by simp [lastReading, readings, Reading.initial],
    by simp [lastReading, readings, Reading.initial, MAXFILEPATH]⟩
  named := by
    intro call hpc
    cases hpc

/-- A step without a reading and with the same array. -/
private theorem Tracked.frame {τ es : List LogEvent} {l l' : Logger} (h : Tracked τ l)
    (hes : readings es = []) (hset : l'.set = l.set)
    (hpc : ∀ call, l'.pc ≠ .configured call) : Tracked (τ ++ es) l' := by
  have hreadings : readings (τ ++ es) = readings τ := by
    rw [readings_append, hes, List.append_nil]
  have hlast : lastReading (τ ++ es) = lastReading τ := by rw [lastReading, hreadings, lastReading]
  refine ⟨by rw [hreadings]; exact h.chain, by rw [hset, hlast]; exact h.holds, ?_⟩
  intro call hcall
  exact absurd hcall (hpc call)

/-- A step with a reading. -/
private theorem Tracked.read {τ : List LogEvent} {l : Logger} {set : LogSet} {r : Reading}
    (pc : LogPc) (h : Tracked τ l) (hset : set.Holds r.filepath)
    (hr : r.filepath = overlay (lastReading τ).filepath r.name) :
    Tracked (τ ++ [.configured r]) ⟨set, pc⟩ := by
  have hreadings : readings (τ ++ [.configured r]) = readings τ ++ [r] := readings_append τ _
  have hlast : lastReading (τ ++ [.configured r]) = r := by
    rw [lastReading, hreadings, List.getLastD_concat]
  refine ⟨?_, by rw [hlast]; exact hset, ?_⟩
  · rw [hreadings, ← List.cons_append, List.isChain_append]
    refine ⟨h.chain, List.isChain_singleton r, ?_⟩
    intro a ha b hb
    rw [List.getLast?_cons, Option.mem_some_iff, ← List.getLastD_eq_getLast?] at ha
    rw [List.head?_singleton, Option.mem_some_iff] at hb
    rw [← ha, ← hb]
    exact hr
  · intro call _
    rw [hlast, hr, overlay, Reading.name, logName]
    simp

private theorem Tracked.step {τ es : List LogEvent} {l l' : Logger} {w w' : Surroundings}
    {call : LogCall} (h : Tracked τ l) (hw : LogPathPresent w)
    (hstep : logger.step w l call = some (l', w', es)) : Tracked (τ ++ es) l' := by
  obtain ⟨⟨next, events⟩, hnext, heq⟩ := Option.map_eq_some_iff.mp hstep
  cases heq
  rw [logWrite] at hnext
  have hstop (stop : LogStop) : Tracked (τ ++ (l.stop stop).2) (l.stop stop).1 := by
    refine h.frame rfl rfl ?_
    intro call hcall
    cases hcall
  cases hpc : l.pc with
  | idle =>
    obtain ⟨content, hconf⟩ := hw.conf_eq
    simp only [hpc, getLogSet, hconf] at hnext
    cases hread : readLogConfig w content l.set with
    | error stop =>
      rw [hread] at hnext
      cases hnext
      exact hstop stop
    | ok result =>
      rw [hread] at hnext
      cases hnext
      obtain ⟨hset, hr⟩ := readLogConfig_ok h.holds hread
      exact h.read _ hset hr
  | configured call =>
    have hne : cstr l.set.filepath ≠ [] := by
      rw [h.holds.cstr_eq]
      exact h.named call hpc
    simp only [hpc] at hnext
    cases hinit : initLog w l.set call.loglevel with
    | error stop =>
      rw [hinit] at hnext
      cases hnext
      exact hstop stop
    | ok result =>
      obtain ⟨set, out⟩ := result
      have hset := initLog_ok hne hinit
      rw [hinit] at hnext
      cases out with
      | none =>
        cases hnext
        exact h.frame rfl hset (fun _ hcall ↦ by cases hcall)
      | some opened =>
        cases hnext
        exact h.frame rfl hset (fun _ hcall ↦ by cases hcall)
  | opened call file =>
    simp only [hpc] at hnext
    cases hprint : printfLog call.format call.args with
    | error arg =>
      rw [hprint] at hnext
      cases hnext
      exact hstop (.misread arg)
    | ok printed =>
      rw [hprint] at hnext
      cases hnext
      exact h.frame rfl rfl (fun _ hcall ↦ by cases hcall)
  | stopped stop =>
    simp only [hpc] at hnext
    cases hnext

private theorem tracked_of_run {τ : List LogEvent} {l : Logger}
    (h : logger.RunIn (fun w _ _ ↦ LogPathPresent w) Logger.start τ l) : Tracked τ l := by
  apply h.invariant _ tracked_start
  intro τ l w call l' w' es hl hw hstep
  exact hl.step hw hstep

/-- Strings copied over each other are the names asked for exactly if none is shorter than the
string before it. -/
private theorem faithful_iff {a : Reading} {rs : List Reading}
    (h : (a :: rs).IsChain Reading.Over) :
    (∀ r ∈ rs, r.filepath = r.name) ↔
      (a.filepath.length :: rs.map (fun r ↦ r.name.length)).IsChain (· ≤ ·) := by
  induction rs generalizing a with
  | nil => simp
  | cons r rs ih =>
    obtain ⟨hover, hrest⟩ := List.isChain_cons_cons.mp h
    have hfirst : r.filepath = r.name ↔ a.filepath.length ≤ r.name.length := by
      rw [hover, overlay_eq_iff]
    rw [List.forall_mem_cons, List.map_cons, List.isChain_cons_cons, hfirst, ih hrest]
    apply and_congr_right
    intro hle
    rw [hfirst.mpr hle]

/-- For every sequence of calls that find a `log-path` of at most 127 characters, the array holds
the present path and date after each reading exactly if path and date together never get shorter
from one reading to the next. -/
theorem filepath_follows_iff {τ : List LogEvent} {l : Logger}
    (h : logger.RunIn (fun w _ _ ↦ LogPathPresent w) Logger.start τ l) :
    (∀ r ∈ readings τ, r.filepath = logName r.path r.date) ↔
      (readings τ).IsChain (fun a b ↦
        a.path.length + a.date.length ≤ b.path.length + b.date.length) := by
  have hlen (r : Reading) : r.name.length = r.path.length + r.date.length + 5 :=
    length_logName r.path r.date
  have hiff := faithful_iff (tracked_of_run h).chain
  -- Nothing is shorter than the empty string of a new process.
  have hzero (lengths : List Nat) : (0 :: lengths).IsChain (· ≤ ·) ↔ lengths.IsChain (· ≤ ·) := by
    simp [List.isChain_cons]
  rw [Reading.initial, List.length_nil, hzero, List.isChain_map] at hiff
  simp only [hlen, Nat.add_le_add_iff_right] at hiff
  exact hiff

/-- A message at level `INFO`. -/
private def upMessage : LogCall := ⟨1, "up".toList, []⟩

/-- What a message finds on one day with this `log-path`. -/
private def foundPath (path : String) : Surroundings where
  conf := .text ("log-path=".toList ++ path.toList ++ "\nlog-level=INFO\n".toList)
  behind := []
  date := ⟨"2022-11-05".toList, by decide, by decide⟩
  tm_hour := 1
  tm_min := 2
  tm_sec := 3
  home := none
  opens := true

/-- Two messages, each with its own `log-path`. -/
private def twoMessages (first second : String) : List (Surroundings × LogCall) :=
  List.replicate 3 (foundPath first, upMessage) ++ List.replicate 3 (foundPath second, upMessage)

/-- `log-path` goes from `./aa` to `.` between two messages: the name keeps the last three
characters of the one before, and the second message goes to a file of that name. -/
theorem filepath_keeps_old_end :
    ∃ τ l, logger.RunIn (fun w _ _ ↦ LogPathPresent w) Logger.start τ l ∧
      readings τ = [⟨"./aa".toList, "2022-11-05".toList, "./aa/2022-11-05.log".toList⟩,
        ⟨".".toList, "2022-11-05".toList, "./2022-11-05.loglog".toList⟩] ∧
      LogEvent.written "./2022-11-05.loglog".toList "up\n".toList ∈ τ ∧
      ¬∀ r ∈ readings τ, r.filepath = logName r.path r.date :=
  Machine.exec_observe logger (fun w _ _ ↦ decide (LogPathPresent w)) Logger.start
    (twoMessages "./aa" ".")
    (fun _ τ ↦ readings τ = [⟨"./aa".toList, "2022-11-05".toList, "./aa/2022-11-05.log".toList⟩,
        ⟨".".toList, "2022-11-05".toList, "./2022-11-05.loglog".toList⟩] ∧
      LogEvent.written "./2022-11-05.loglog".toList "up\n".toList ∈ τ ∧
      ¬∀ r ∈ readings τ, r.filepath = logName r.path r.date)
    (fun _ _ _ ↦ of_decide_eq_true) (by decide +kernel)

/-- The other way round the name of the file is right both times. -/
theorem filepath_follows_longer_path :
    ∃ τ l, logger.RunIn (fun w _ _ ↦ LogPathPresent w) Logger.start τ l ∧
      (readings τ).map Reading.path = [".".toList, "./aa".toList] ∧
      ∀ r ∈ readings τ, r.filepath = logName r.path r.date := by
  obtain ⟨τ, l, hrun, hpaths, hchain⟩ := Machine.exec_observe logger
    (fun w _ _ ↦ decide (LogPathPresent w)) Logger.start (twoMessages "." "./aa")
    (fun _ τ ↦ (readings τ).map Reading.path = [".".toList, "./aa".toList] ∧
      (readings τ).IsChain (fun a b ↦
        a.path.length + a.date.length ≤ b.path.length + b.date.length))
    (fun _ _ _ ↦ of_decide_eq_true) (by decide +kernel)
  exact ⟨τ, l, hrun, hpaths, (filepath_follows_iff hrun).mpr hchain⟩

/-! ### Without `engine.conf` -/

/-- There is no `engine.conf`, and `HOME` is a string if it is set. -/
structure Unconfigured (w : Surroundings) : Prop where
  missing : w.conf = .missing
  plain : ∀ path ∈ w.home, nul ∉ path

instance (w : Surroundings) : Decidable (Unconfigured w) :=
  match hconf : w.conf with
  | .missing =>
    decidable_of_iff (∀ path ∈ w.home, nul ∉ path) ⟨fun h ↦ ⟨hconf, h⟩, Unconfigured.plain⟩
  | .unreadable => .isFalse (fun h ↦ by simp [h.missing] at hconf)
  | .text _ => .isFalse (fun h ↦ by simp [h.missing] at hconf)

private theorem LogSet.Holds.strcat {set : LogSet} {s t : CString} (h : set.Holds s)
    (hplain : nul ∉ t) (hfits : s.length + t.length < MAXFILEPATH) :
    (set.strcat t).Holds (s ++ t) where
  buffer := by rw [LogSet.strcat, LogSet.filepath_store, h.cstr_eq, h.buffer, blit_pad_append hfits]
  plain := by
    rw [List.mem_append, not_or]
    exact ⟨h.plain, hplain⟩
  fits := by rwa [List.length_append]

/-- An empty array gets the name made of `HOME` and the date. -/
private theorem homePath_ok {w : Surroundings} {set set' : LogSet} (hs : set.Holds [])
    (hw : Unconfigured w) (h : homePath w set = .ok set') :
    ∃ path, w.home = some path ∧ set'.Holds (logName path w.date.text) := by
  rw [homePath] at h
  cases hhome : w.home with
  | none =>
    rw [hhome] at h
    cases h
  | some path =>
    rw [hhome] at h
    simp only at h
    split_ifs at h with hfits
    cases h
    rw [length_logName] at hfits
    have hdot : (w.date.text ++ ".log".toList).length = w.date.text.length + 4 := by
      rw [List.length_append]
      rfl
    have hdate : nul ∉ w.date.text ++ ".log".toList := by
      rw [List.mem_append, not_or]
      exact ⟨w.date.nul_notMem, by decide⟩
    have hpath := hs.store (hw.plain path hhome) (by omega)
    rw [overlay, List.drop_nil, List.append_nil] at hpath
    have hslash := hpath.strcat (t := ['/']) (by decide)
      (by rw [List.length_singleton]; omega)
    have hname := hslash.strcat hdate
      (by rw [List.length_append, List.length_singleton, hdot]; omega)
    rw [List.append_assoc, List.singleton_append] at hname
    exact ⟨path, rfl, hname⟩

/-- Of the levels that `INFO` admits only `INFO` has a text. -/
private theorem eq_info_of_text {loglevel : UInt8} {text : CString}
    (hadmits : loglevel &&& 1 = loglevel) (h : logLevelText loglevel = .ok text) :
    loglevel = 1 := by
  rw [logLevelText] at h
  split_ifs at h with hinfo hdebug hwarn herror
  · exact hinfo
  · subst hdebug
    exact absurd hadmits (by decide)
  · subst hwarn
    exact absurd hadmits (by decide)
  · subst herror
    exact absurd hadmits (by decide)

/-- A name is in force, or none yet if it is empty, and whatever is written goes to its file. -/
private structure Homed (name : CString) (τ : List LogEvent) (l : Logger) : Prop where
  holds : l.set.Holds name
  files : ∀ file text, LogEvent.written file text ∈ τ → file = name ∧ name ≠ []
  level : ∀ call, l.pc = .configured call → l.set.loglevel = 1
  opened : ∀ call file, l.pc = .opened call file →
    (file = name ∧ name ≠ []) ∧ call.loglevel = 1

/-- The name stays, or it was empty and is now made of `HOME` and the date. -/
private def Renamed (w : Surroundings) (name name' : CString) : Prop :=
  name' = name ∨ name = [] ∧ ∃ path, w.home = some path ∧ name' = logName path w.date.text

private theorem openLog_ok {w : Surroundings} {set : LogSet} {loglevel : UInt8}
    {file text : CString} (hadmits : loglevel &&& 1 = loglevel)
    (h : openLog w set loglevel = .ok (some (file, text))) :
    file = cstr set.filepath ∧ loglevel = 1 := by
  rw [openLog] at h
  by_cases hopens : w.opens
  case neg =>
    rw [if_neg hopens] at h
    cases h
  rw [if_pos hopens] at h
  cases htext : logLevelText loglevel with
  | error stop =>
    rw [htext] at h
    cases h
  | ok level =>
    rw [htext] at h
    cases h
    exact ⟨rfl, eq_info_of_text hadmits htext⟩

/-- `InitLog` with the level of a missing configuration. -/
private theorem initLog_homed {w : Surroundings} {set set' : LogSet} {loglevel : UInt8}
    {name : CString} {out : Option (CString × CString)} (hw : Unconfigured w)
    (hholds : set.Holds name) (hlevel : set.loglevel = 1)
    (h : initLog w set loglevel = .ok (set', out)) :
    ∃ name', set'.Holds name' ∧ Renamed w name name' ∧
      ∀ file text, out = some (file, text) → (file = name' ∧ name' ≠ []) ∧ loglevel = 1 := by
  rw [initLog, hlevel] at h
  by_cases hadmits : loglevel &&& 1 = loglevel
  · rw [if_neg (not_not.mpr hadmits)] at h
    obtain ⟨named, hnamed, h⟩ := bind_eq_ok.mp h
    obtain ⟨opened, hopened, h⟩ := bind_eq_ok.mp h
    cases h
    -- the array holds a name from here on, whether or not it was empty
    have hforce : ∃ name', set'.Holds name' ∧ Renamed w name name' ∧ name' ≠ [] := by
      rw [hholds.cstr_eq] at hnamed
      split_ifs at hnamed with hempty
      · obtain rfl := List.eq_nil_of_length_eq_zero hempty
        obtain ⟨path, hhome, hname⟩ := homePath_ok hholds hw hnamed
        exact ⟨_, hname, .inr ⟨rfl, path, hhome, rfl⟩, logName_ne_nil _ _⟩
      · cases hnamed
        exact ⟨name, hholds, .inl rfl, fun hnil ↦ hempty (by rw [hnil]; rfl)⟩
    obtain ⟨name', hname, hrenamed, hne⟩ := hforce
    refine ⟨name', hname, hrenamed, ?_⟩
    intro file text hout
    subst hout
    obtain ⟨hfile, hinfo⟩ := openLog_ok hadmits hopened
    rw [hname.cstr_eq] at hfile
    exact ⟨⟨hfile, hne⟩, hinfo⟩
  · rw [if_pos hadmits] at h
    cases h
    refine ⟨name, hholds, .inl rfl, ?_⟩
    intro file text hout
    cases hout

/-- A step that writes to no other file and leaves no call behind. -/
private theorem Homed.frame {name name' : CString} {τ es : List LogEvent} {l l' : Logger}
    {w : Surroundings} (h : Homed name τ l) (hrenamed : Renamed w name name')
    (hholds : l'.set.Holds name')
    (hfiles : ∀ file text, LogEvent.written file text ∈ es → file = name' ∧ name' ≠ [])
    (hlevel : ∀ call, l'.pc = .configured call → l'.set.loglevel = 1)
    (hopened : ∀ call file, l'.pc = .opened call file →
      (file = name' ∧ name' ≠ []) ∧ call.loglevel = 1) : Homed name' (τ ++ es) l' := by
  refine ⟨hholds, ?_, hlevel, hopened⟩
  intro file text hm
  rcases List.mem_append.mp hm with hm | hm
  · obtain ⟨hfile, hne⟩ := h.files file text hm
    rcases hrenamed with rfl | ⟨hnil, -⟩
    · exact ⟨hfile, hne⟩
    · exact absurd hnil hne
  · exact hfiles file text hm

private theorem Homed.step {name : CString} {τ es : List LogEvent} {l l' : Logger}
    {w w' : Surroundings} {call : LogCall} (h : Homed name τ l) (hw : Unconfigured w)
    (hstep : logger.step w l call = some (l', w', es)) :
    ∃ name', Homed name' (τ ++ es) l' ∧ Renamed w name name' := by
  obtain ⟨⟨l'', es'⟩, hnext, heq⟩ := Option.map_eq_some_iff.mp hstep
  cases heq
  cases logDoes_of_step hnext with
  | unread set hconf =>
    refine ⟨name, h.frame (w := w) (.inl rfl) ?_ (by simp) (fun _ _ ↦ rfl) ?_, .inl rfl⟩
    · exact ⟨h.holds.buffer, h.holds.plain, h.holds.fits⟩
    · intro call' file hcall
      cases hcall
  | read set set' content reading hconf =>
    rw [hw.missing] at hconf
    cases hconf
  | refused set set' begun hinit =>
    obtain ⟨name', hholds, hrenamed, -⟩ := initLog_homed hw h.holds (h.level begun rfl) hinit
    refine ⟨name', h.frame hrenamed hholds (by simp) ?_ ?_, hrenamed⟩
    · intro call' hcall
      cases hcall
    · intro call' file hcall
      cases hcall
  | begins set set' begun file text hinit =>
    obtain ⟨name', hholds, hrenamed, hout⟩ := initLog_homed hw h.holds (h.level begun rfl) hinit
    obtain ⟨hfile, hinfo⟩ := hout file text rfl
    refine ⟨name', h.frame hrenamed hholds ?_ ?_ ?_, hrenamed⟩
    · intro file' text' hm
      cases List.mem_singleton.mp hm
      exact hfile
    · intro call' hcall
      cases hcall
    · intro call' file' hcall
      cases hcall
      exact ⟨hfile, hinfo⟩
  | prints set begun file printed =>
    refine ⟨name, h.frame (w := w) (.inl rfl) h.holds ?_ ?_ ?_, .inl rfl⟩
    · intro file' text hm
      simp only [List.mem_cons, LogEvent.written.injEq, reduceCtorEq, List.not_mem_nil,
        or_false] at hm
      rw [hm.1]
      exact (h.opened begun file rfl).1
    · intro call' hcall
      cases hcall
    · intro call' file' hcall
      cases hcall
  | stops l stop =>
    refine ⟨name, h.frame (w := w) (.inl rfl) h.holds (by simp) ?_ ?_, .inl rfl⟩
    · intro call' hcall
      cases hcall
    · intro call' file hcall
      cases hcall

private theorem homed_start : Homed [] [] Logger.start where
  holds := ⟨rfl, by simp, by decide⟩
  files := by simp
  level := by
    intro call hpc
    cases hpc
  opened := by
    intro call file hpc
    cases hpc

/-- On one day, and with one `HOME`, the name is not there yet or is made of the two. -/
private theorem homed_of_run {home date : CString} {τ : List LogEvent} {l : Logger}
    (h : logger.RunIn (fun w _ _ ↦ Unconfigured w ∧ w.home = some home ∧ w.date.text = date)
      Logger.start τ l) :
    ∃ name, Homed name τ l ∧ (name = [] ∨ name = logName home date) := by
  refine h.invariant (fun τ l ↦ ∃ name, Homed name τ l ∧ (name = [] ∨ name = logName home date))
    ⟨[], homed_start, .inl rfl⟩ ?_
  rintro τ l w call l' w' es ⟨name, hname, hcase⟩ ⟨hw, hhome, hdate⟩ hstep
  obtain ⟨name', hname', hrenamed⟩ := hname.step hw hstep
  refine ⟨name', hname', ?_⟩
  rcases hrenamed with rfl | ⟨-, path, hpath, rfl⟩
  · exact hcase
  · rw [hhome] at hpath
    cases hpath
    exact .inr (by rw [hdate])

/-- A name that is there stays, whatever day it is. -/
private theorem Homed.run {name : CString} {τ τ' : List LogEvent} {l l' : Logger}
    (h : Homed name τ l) (hne : name ≠ [])
    (hrun : logger.RunIn (fun w _ _ ↦ Unconfigured w) l τ' l') : Homed name (τ ++ τ') l' := by
  refine hrun.invariant (fun τ' l' ↦ Homed name (τ ++ τ') l') (by rwa [List.append_nil]) ?_
  intro ρ s w call s' w' es hs hw hstep
  obtain ⟨name', hname', hrenamed⟩ := hs.step hw hstep
  rcases hrenamed with rfl | ⟨hnil, -⟩
  · rwa [List.append_assoc] at hname'
  · exact absurd hnil hne

/-- As long as there is no `engine.conf`, and `HOME` and the date do not change from the start to
the first message written: all messages of all later days go to the file of that day under that
`HOME`, and only messages at level `INFO` are written, so that no warning and no error is ever
logged. The name is kept from the first call on, also when its `fopen` failed, so that a first
message on a later day than the first call goes to the file of the day of that call. -/
theorem unconfigured_log_keeps_first_file {home date : CString} {τ τ' : List LogEvent}
    {l l' : Logger} {file₀ text₀ : CString}
    (h : logger.RunIn (fun w _ _ ↦ Unconfigured w ∧ w.home = some home ∧ w.date.text = date)
      Logger.start τ l)
    (hwritten : LogEvent.written file₀ text₀ ∈ τ)
    (h' : logger.RunIn (fun w _ _ ↦ Unconfigured w) l τ' l') :
    (∀ file text, LogEvent.written file text ∈ τ ++ τ' → file = logName home date) ∧
      ∀ call file, l'.pc = .opened call file → call.loglevel = 1 := by
  obtain ⟨name, hname, hcase⟩ := homed_of_run h
  have hne := (hname.files file₀ text₀ hwritten).2
  obtain rfl := hcase.resolve_left hne
  have hlater := hname.run hne h'
  exact ⟨fun file text hm ↦ (hlater.files file text hm).1,
    fun call file hpc ↦ (hlater.opened call file hpc).2⟩

/-- A message is being written. -/
private def LogPc.isOpened : LogPc → Bool
  | .opened _ _ => true
  | _ => false

private theorem LogPc.eq_opened {pc : LogPc} (h : pc.isOpened = true) :
    ∃ call file, pc = .opened call file := by
  cases pc with
  | opened call file => exact ⟨call, file, rfl⟩
  | idle | configured | stopped => cases h

/-- What a message finds on a day without `engine.conf`. -/
private def bareDay (home : String) (date : Date) : Surroundings :=
  { foundPath "" with conf := .missing, home := some home.toList, date := date }

/-- A message on one day, and one on the next with another `HOME`, which finds the file of the day
before open. -/
theorem unconfigured_log_keeps_first_file_next_day :
    ∃ τ l τ' l' call,
      logger.RunIn (fun w _ _ ↦ Unconfigured w ∧ w.home = some "/a".toList ∧
        w.date.text = "2022-11-05".toList) Logger.start τ l ∧
      logger.RunIn (fun w _ _ ↦ Unconfigured w) l τ' l' ∧
      (∃ file, l'.pc = .opened call file) ∧ call.loglevel = 1 ∧
      LogEvent.written "/a/2022-11-05.log".toList "[INFO] [9:2:3] ".toList ∈ τ' ∧
      ∀ file text, LogEvent.written file text ∈ τ ++ τ' →
        file = logName "/a".toList "2022-11-05".toList := by
  let first := bareDay "/a" ⟨"2022-11-05".toList, by decide, by decide⟩
  let second := bareDay "/b" ⟨"2022-11-06".toList, by decide, by decide⟩
  let file := "/a/2022-11-05.log".toList
  obtain ⟨τ, l, hrun, hwritten, ⟨l', τ'⟩, hexec, hpc, hlater⟩ := Machine.exec_observe logger
    (C := fun w _ _ ↦ Unconfigured w ∧ w.home = some "/a".toList ∧
      w.date.text = "2022-11-05".toList)
    (fun w _ _ ↦ decide (Unconfigured w ∧ w.home = some "/a".toList ∧
      w.date.text = "2022-11-05".toList)) Logger.start (List.replicate 3 (first, upMessage))
    (fun l τ ↦ LogEvent.written file "up\n".toList ∈ τ ∧
      ∃ r, r ∈ logger.exec (fun w _ _ ↦ decide (Unconfigured w)) l
        (List.replicate 2 (second, upMessage)) ∧
        r.1.pc.isOpened = true ∧ LogEvent.written file "[INFO] [9:2:3] ".toList ∈ r.2)
    (fun _ _ _ ↦ of_decide_eq_true) (by decide +kernel)
  have hrun' := Machine.exec_run (C := fun w _ _ ↦ Unconfigured w)
    (fun _ _ _ ↦ of_decide_eq_true) hexec
  obtain ⟨call, opened, hopened⟩ := LogPc.eq_opened hpc
  obtain ⟨hfiles, hinfo⟩ := unconfigured_log_keeps_first_file hrun hwritten hrun'
  exact ⟨τ, l, τ', l', call, hrun, hrun', ⟨opened, hopened⟩, hinfo call opened hopened, hlater,
    hfiles⟩

end DupDistribute.Log

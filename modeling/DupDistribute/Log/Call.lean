import DupDistribute.Log.LogWrite

/-!
# A call of LogWrite as a whole

`LogWrite` (`log.c:192-219`) as the code that calls it sees it, in a process in which nothing else
logs meanwhile: it returns, or the process does not go on. Since every call loads `engine.conf`
again, a call returns only if the file has `log-path` and `log-level`; what a lookup does not find
is copied from null (`log.c:54`, `log.c:66`).
-/

namespace DupDistribute.Log

open DupDistribute.Base DupDistribute.Config

/-- `LogWrite` from its beginning to its end, with what it finds when it reads the settings and
when it opens the file. -/
def logOnce (w : Surroundings × Surroundings) (set : LogSet) (call : LogCall) :
    Except LogStop LogSet := do
  let configured ← getLogSet w.1 set
  let begun ← initLog w.2 configured.1 call.loglevel
  match begun.2 with
  | none => .ok begun.1
  | some _ =>
    match printfLog call.format call.args with
    | .error arg => .error (.misread arg)
    | .ok _ => .ok begun.1

/-! ### The steps of the call -/

section
variable {w : Surroundings × Surroundings} {set set' : LogSet} (call : LogCall)

private theorem run_configured {reading : Option Reading}
    (h : getLogSet w.1 set = .ok (set', reading)) :
    logger.Open ⟨set, .idle⟩ (reading.map .configured).toList ⟨set', .configured call⟩ := by
  have hs : logger.step w.1 ⟨set, .idle⟩ call =
      some (⟨set', .configured call⟩, w.1, (reading.map .configured).toList) := by
    simp only [logger, logWrite, h, Option.map_some]
  exact .single trivial hs

private theorem run_stopped (l : Logger) (w : Surroundings) (stop : LogStop)
    (h : logWrite w l call = some (l.stop stop)) :
    logger.Open l [.stopped stop] ⟨l.set, .stopped stop⟩ := by
  have hs : logger.step w l call = some (⟨l.set, .stopped stop⟩, w, [.stopped stop]) := by
    simp only [logger, h, Option.map_some, Logger.stop]
  exact .single trivial hs

/-- The call makes the steps of the logger: it gets back to where it was called, or stops
there. -/
theorem logOnce_run (w : Surroundings × Surroundings) (set : LogSet) (call : LogCall) :
    ∃ l es, logger.Open ⟨set, .idle⟩ es l ∧
      match logOnce w set call with
      | .ok set' => l = ⟨set', .idle⟩
      | .error stop => l.pc = .stopped stop := by
  cases hget : getLogSet w.1 set with
  | error stop =>
    have hstop := run_stopped call ⟨set, .idle⟩ w.1 stop (by simp only [logWrite, hget])
    exact ⟨_, _, hstop, by simp [logOnce, hget, bind, Except.bind]⟩
  | ok configured =>
    have hfirst := run_configured call hget
    cases hinit : initLog w.2 configured.1 call.loglevel with
    | error stop =>
      have hstop := run_stopped call ⟨configured.1, .configured call⟩ w.2 stop
        (by simp only [logWrite, hinit])
      exact ⟨_, _, hfirst.trans hstop, by simp [logOnce, hget, hinit, bind, Except.bind]⟩
    | ok begun =>
      obtain ⟨set', opened⟩ := begun
      cases opened with
      | none =>
        have hs : logger.step w.2 ⟨configured.1, .configured call⟩ call =
            some (⟨set', .idle⟩, w.2, [.returned false]) := by
          simp only [logger, logWrite, hinit, Option.map_some]
        exact ⟨_, _, hfirst.trans (.single trivial hs), by
          simp [logOnce, hget, hinit, bind, Except.bind]⟩
      | some opened =>
        have hs : logger.step w.2 ⟨configured.1, .configured call⟩ call =
            some (⟨set', .opened call opened.1⟩, w.2, [.written opened.1 opened.2]) := by
          simp only [logger, logWrite, hinit, Option.map_some]
        have hbegun := hfirst.trans (.single trivial hs)
        cases hprint : printfLog call.format call.args with
        | error arg =>
          have hstop := run_stopped call ⟨set', .opened call opened.1⟩ w.2 (.misread arg)
            (by simp only [logWrite, hprint])
          exact ⟨_, _, hbegun.trans hstop, by
            simp [logOnce, hget, hinit, hprint, bind, Except.bind]⟩
        | ok printed =>
          have hs' : logger.step w.2 ⟨set', .opened call opened.1⟩ call =
              some (⟨set', .idle⟩, w.2, [.written opened.1 printed.text, .returned true]) := by
            simp only [logger, logWrite, hprint, Option.map_some]
          exact ⟨_, _, hbegun.trans (.single trivial hs'), by
            simp [logOnce, hget, hinit, hprint, bind, Except.bind]⟩

end

/-! ### When it returns -/

/-- The level has a name, and the arguments are those that the format asks for. -/
structure LogCall.Sound (call : LogCall) : Prop where
  level : ∃ text, logLevelText call.loglevel = .ok text
  args : ∃ printed, printfLog call.format call.args = .ok printed

/-- After a reading the path is not empty. -/
private theorem cstr_rename_ne_nil (set : LogSet) {value : CString} (hplain : nul ∉ value)
    (hne : value ≠ []) : cstr (set.rename value).filepath ≠ [] := by
  rw [LogSet.rename]
  split_ifs with hcmp
  · obtain ⟨c, rest, rfl⟩ := List.exists_cons_of_ne_nil hne
    have hsize : 0 < set.filepath.length := by
      rw [set.size]
      decide
    have hfirst : (blit set.filepath 0 (c :: rest))[0]? = some c := by
      rw [getElem?_blit, if_pos ⟨Nat.le_refl _, by simp, hsize⟩]
      rfl
    obtain ⟨more, hmore⟩ : ∃ more, blit set.filepath 0 (c :: rest) = c :: more := by
      rw [← List.head?_eq_getElem?] at hfirst
      exact List.head?_eq_some_iff.mp hfirst
    have hc : c ≠ nul := fun he ↦ hplain (by simp [he])
    rw [LogSet.filepath_store, hmore, cstr, List.takeWhile_cons_of_pos (by simpa using hc)]
    exact List.cons_ne_nil _ _
  · have hsame := (strcmp_eq_zero_iff hplain (nul_notMem_cstr _)).mp (not_not.mp hcmp)
    rwa [← hsame]

private theorem initLog_returns {w : Surroundings} {set : LogSet} {loglevel : UInt8}
    {text : CString} (hne : cstr set.filepath ≠ []) (hlevel : logLevelText loglevel = .ok text) :
    ∃ result, initLog w set loglevel = .ok result := by
  have hlen : ¬ (cstr set.filepath).length = 0 := by simpa using hne
  rw [initLog, if_neg hlen]
  split
  · exact ⟨_, rfl⟩
  · simp only [openLog, hlevel]
    split <;> exact ⟨_, rfl⟩

/-- With `engine.conf` there a sound call returns exactly if the settings of the log are. -/
theorem logOnce_returns_iff {w : Surroundings × Surroundings} {content : List Char}
    {call : LogCall} (set : LogSet) (hconf : w.1.conf = .text content) (hcall : call.Sound) :
    (∃ set', logOnce w set call = .ok set') ↔ LogKeys w.1 content := by
  rw [← readLogConfig_returns_iff w.1 content set]
  have hget : getLogSet w.1 set = (readLogConfig w.1 content set).map
      (fun r ↦ (r.1, some r.2)) := by
    simp only [getLogSet, hconf]
    cases hread : readLogConfig w.1 content set <;> rfl
  constructor
  · rintro ⟨set', h⟩
    obtain ⟨configured, hok, -⟩ := bind_eq_ok.mp h
    rw [hget] at hok
    cases hread : readLogConfig w.1 content set with
    | error stop => simp [hread, Except.map] at hok
    | ok result => exact ⟨result, rfl⟩
  · rintro ⟨result, hread⟩
    have hne : cstr result.1.filepath ≠ [] := by
      simp only [readLogConfig, bind_eq_ok, lookUp_ok, inValue_ok] at hread
      obtain ⟨path, hpath, _, ⟨-, rfl⟩, level, -, _, -, hresult⟩ := hread
      cases hresult
      exact cstr_rename_ne_nil set
        (nul_notMem_logName (nul_notMem_setting hpath) w.1.date.nul_notMem) (logName_ne_nil _ _)
    obtain ⟨text, hlevel⟩ := hcall.level
    obtain ⟨begun, hinit⟩ := initLog_returns (w := w.2) hne hlevel
    obtain ⟨printed, hprint⟩ := hcall.args
    refine ⟨begun.1, bind_eq_ok.mpr ⟨(result.1, some result.2), ?_, ?_⟩⟩
    · rw [hget, hread]
      rfl
    · refine bind_eq_ok.mpr ⟨begun, hinit, ?_⟩
      cases begun.2 with
      | none => rfl
      | some opened => simp only [hprint]

end DupDistribute.Log

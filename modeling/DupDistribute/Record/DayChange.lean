import DupDistribute.Record.Recorder

/-!
# Recording across a day change

`CreateDataDir` tests for the day directory and creates it in two steps. On a file system
that fails only when `mkdir` meets an existing directory, a call of `initDataRecord`
returns no file exactly when another process creates the directory between the two.
-/

namespace DupDistribute.Record

open DupDistribute.Base

variable {env : Env}

/-- The directory a call relies on is there: it was seen or made, and none is removed. -/
def Pc.Ready (dirs : Finset CString) : Pc → Prop
  | .createDataFile dir _ _ => dir ∈ dirs
  | .fopen call _ => call.dir ∈ dirs
  | _ => True

/-- A process about to call `mkdir` finds the directory still missing. -/
def Pc.Fresh (dirs : Finset CString) : Pc → Prop
  | .mkdir dir => dir ∉ dirs
  | _ => True

instance (dirs : Finset CString) : (pc : Pc) → Decidable (pc.Fresh dirs)
  | .mkdir dir => inferInstanceAs (Decidable (dir ∉ dirs))
  | .idle | .accessConf | .getDirName | .accessDir _ | .createDataFile _ _ _ | .fopen _ _
  | .opened _ => inferInstanceAs (Decidable True)

/-- Readiness survives new directories. -/
theorem Pc.Ready.mono {dirs dirs' : Finset CString} {pc : Pc} (hsub : dirs ⊆ dirs')
    (h : pc.Ready dirs) : pc.Ready dirs' := by
  cases pc with
  | createDataFile | fopen => exact hsub h
  | _ => trivial

/-- No recording step removes a directory. -/
theorem Recorder.step_dirs {w w' : Store} {s s' : Recorder} {a : Input} {es : List Event}
    (h : s.step env w a = some (s', w', es)) : w.dirs ⊆ w'.dirs := by
  cases Recorder.does_of_step h with
  | made => exact Finset.subset_insert _ _
  | _ => exact Finset.Subset.refl _

/-- On a working file system a step keeps the call ready and returns no failure, unless its
`mkdir` meets the directory. -/
theorem Recorder.step_ready {w w' : Store} {s s' : Recorder} {a : Input} {es : List Event}
    (hready : s.pc.Ready w.dirs) (hok : a.ok = true) (hfresh : s.pc.Fresh w.dirs)
    (h : s.step env w a = some (s', w', es)) :
    s'.pc.Ready w'.dirs ∧ Event.returned none ∉ es := by
  cases Recorder.does_of_step h with
  | call | conf | date | missing => exact ⟨trivial, by simp⟩
  | noConf u hno => simp [hok] at hno
  | present u dir hd => exact ⟨hd, by simp⟩
  | made => exact ⟨Finset.mem_insert_self _ _, by simp⟩
  | notMade u dir hno =>
    rcases hno with hno | hd
    · simp [hok] at hno
    · exact absurd hd hfresh
  | name => exact ⟨hready, by simp⟩
  | opens => exact ⟨trivial, by simp⟩
  | notOpened u call path hno =>
    rcases hno with hno | hd
    · simp [hok] at hno
    · exact absurd hready hd
  | writes => exact ⟨trivial, by simp⟩

/-- A `mkdir` that meets the directory makes the call return no file. -/
theorem Recorder.step_race {w w' : Store} {s s' : Recorder} {a : Input} {es : List Event}
    (hrace : ¬ s.pc.Fresh w.dirs) (h : s.step env w a = some (s', w', es)) :
    Event.returned none ∈ es := by
  cases Recorder.does_of_step h with
  | made u dir hok hd => exact absurd hd hrace
  | notMade => simp
  | _ => exact absurd trivial hrace

end DupDistribute.Record

import DupDistribute.Playback.Truth
import DupDistribute.Record.Names

/-!
# Under which day a record is filed

A call of `initDataRecord` reads the clock twice: `GetDirName` (recordData.c:9-12) for the
directory and `CreateDataFile` (recordData.c:50-51) for the name. `myscandirServe` derives the
directory of the present day a third time (playback.c:143-157) and looks nowhere else. A record
is filed under the day of its name, and found there, exactly if both readings of its call were
taken on one day.
-/

namespace DupDistribute.Playback

open DupDistribute.Base DupDistribute.Wire DupDistribute.Record

variable {ι : Type} [DecidableEq ι] {env : Env}

/-! ### The readings of a call -/

/-- The last clock reading for a directory. -/
def lastDate (ρ : List Record.Event) : Option Nat :=
  (ρ.filterMap (fun | .readDate now => some now | _ => none)).getLast?

/-- The last clock reading for a name. -/
def lastTime (ρ : List Record.Event) : Option Nat :=
  (ρ.filterMap (fun | .readTime now => some now | _ => none)).getLast?

/-- The directory and the time of the call are those of the last readings. -/
def ReadBy (env : Env) (ρ : List Record.Event) (call : Call) : Prop :=
  ∃ date time, lastDate ρ = some date ∧ lastTime ρ = some time ∧
    call.dir = env.dayDir date ∧ call.timestamp = UInt32.ofNat time

/-- What the program points promise about the readings. -/
def PcRead (env : Env) (ρ : List Record.Event) : Pc → Prop
  | .accessDir dir => ∃ date, lastDate ρ = some date ∧ dir = env.dayDir date
  | .mkdir dir => ∃ date, lastDate ρ = some date ∧ dir = env.dayDir date
  | .createDataFile dir _ _ => ∃ date, lastDate ρ = some date ∧ dir = env.dayDir date
  | .fopen call _ => ReadBy env ρ call
  | _ => True

/-- Every call that gets a file has read the clock for it. -/
def OpensRead (env : Env) (ρ : List Record.Event) : Prop :=
  Always (fun before e ↦ ∀ c path, e = .fopen c path → ReadBy env before c) ρ

private theorem read_step {ρ es : List Record.Event} {s s' : Recorder} {w w' : Store}
    {a : Record.Input} (hread : PcRead env ρ s.pc) (hopens : OpensRead env ρ)
    (hs : s.step env w a = some (s', w', es)) :
    PcRead env (ρ ++ es) s'.pc ∧ OpensRead env (ρ ++ es) := by
  have quiet {es : List Record.Event} (hnone : ∀ e ∈ es, ∀ c path, e ≠ .fopen c path) :
      OpensRead env (ρ ++ es) :=
    hopens.append (fun e he _ c path heq ↦ absurd heq (hnone e he c path))
  cases Recorder.does_of_step hs with
  | call | conf | noConf | notMade | notOpened | writes => exact ⟨trivial, quiet (by simp)⟩
  | date u => exact ⟨⟨a.now, by simp [lastDate], rfl⟩, quiet (by simp)⟩
  | present u dir | missing u dir | made u dir =>
    obtain ⟨date, hdate, hdir⟩ := hread
    exact ⟨⟨date, by simpa [lastDate] using hdate, hdir⟩, quiet (by simp)⟩
  | name u dir existed before =>
    obtain ⟨date, hdate, hdir⟩ := hread
    exact ⟨⟨date, a.now, by simpa [lastDate] using hdate, by simp [lastTime], hdir, rfl⟩,
      quiet (by simp)⟩
  | opens u call path =>
    refine ⟨trivial, ?_⟩
    have hfirst : OpensRead env (ρ ++ [.fopen call path]) := by
      refine always_concat.mpr ⟨hopens, ?_⟩
      intro c path' heq
      obtain ⟨rfl, -⟩ := Record.Event.fopen.inj heq
      exact hread
    have hboth : OpensRead env (ρ ++ [.fopen call path] ++ [.returned (some path)]) :=
      hfirst.append (by simp)
    rw [List.append_assoc] at hboth
    exact hboth

/-- In every environment, the readings of a call decide its directory and its time. -/
theorem opensRead_of_open {s₀ s : Recorder} {ρ : List Record.Event} (h₀ : s₀.pc = .idle)
    (h : (recorder env).Open s₀ ρ s) : OpensRead env ρ := by
  have hinv := h.invariant (fun ρ s ↦ PcRead env ρ s.pc ∧ OpensRead env ρ)
    ⟨by rw [h₀]; trivial, always_nil _⟩
    (fun ρ s w a s' w' es hi _ hs ↦ read_step hi.1 hi.2 hs)
  exact hinv.2

/-- The readings of a call that got a file, in any trace of its process. -/
theorem readBy_of_mem {ρ : List Record.Event} {c : Call} {path : CString}
    (h : OpensRead env ρ) (hm : Record.Event.fopen c path ∈ ρ) :
    ∃ before after, ρ = before ++ .fopen c path :: after ∧ ReadBy env before c := by
  obtain ⟨before, after, rfl⟩ := List.append_of_mem hm
  exact ⟨before, after, rfl, h before _ after rfl c path rfl⟩

/-! ### Files stay -/

private theorem step_files {s s' : Recorder} {w w' : Store} {a : Record.Input}
    {es : List Record.Event} {path : CString} (hs : s.step env w a = some (s', w', es))
    (h : (w.files path).isSome ∨ ∃ c, Record.Event.fopen c path ∈ es) :
    (w'.files path).isSome := by
  have stays {other : CString} {content : List UInt8} (h : (w.files path).isSome) :
      (Function.update w.files other (some content) path).isSome := by
    by_cases heq : path = other
    · rw [heq, Function.update_self]
      rfl
    · rwa [Function.update_of_ne heq]
  cases Recorder.does_of_step hs with
  | opens u call other =>
    rcases h with h | ⟨c, hc⟩
    · exact stays h
    · obtain ⟨-, rfl⟩ : c = call ∧ path = other := by simpa using hc
      simp [Store.truncate]
  | writes u other => exact stays (h.resolve_right (by simp))
  | _ => exact h.resolve_right (by simp)

/-- A file that was opened is there. -/
private theorem opened_files {S₀ S : Sys ι Store Recorder} {τ : List (ι × Record.Event)}
    (h : ((recorder env).interleave ι).Open S₀ τ S) {p : ι} {c : Call} {path : CString}
    (hm : (p, Record.Event.fopen c path) ∈ τ) : (S.world.files path).isSome := by
  refine h.invariant (fun τ S ↦ ∀ p c path, (p, Record.Event.fopen c path) ∈ τ →
    (S.world.files path).isSome) (by simp) ?_ p c path hm
  intro τ S _ x S' _ es hi _ hs p c path hm
  obtain ⟨s', w', es', hstep, rfl, rfl⟩ := Machine.interleave_step hs
  apply step_files hstep
  rcases List.mem_append.mp hm with hm | hm
  · exact .inl (hi p c path hm)
  · obtain ⟨e, he, heq⟩ := List.mem_map.mp hm
    obtain ⟨-, rfl⟩ := Prod.mk.inj heq
    exact .inr ⟨c, he⟩

/-! ### Filing -/

/-- Every record lies in the directory of the local date of its time, and a playback at any time
of that day, with a window before 2038 that has the time in it, finds it. -/
structure FiledByDay (env : Env) (τ : List (ι × Record.Event)) (st : Store) : Prop where
  filed : ∀ p c path dir timestamp uuid, (p, Record.Event.fopen c path) ∈ τ →
    path = dataFile dir timestamp uuid → dir = env.dayDir timestamp.toNat
  found : ∀ p c path dir timestamp uuid, (p, Record.Event.fopen c path) ∈ τ →
    path = dataFile dir timestamp uuid →
    ∀ now request names, env.localDate now = env.localDate timestamp.toNat →
      request.StartTime ≤ request.EndTime → request.EndTime.toNat < 2147483648 →
      InWindow request timestamp → Lists st request (env.dayDir now) names →
      recordName timestamp uuid ∈ names

/-- For every file that is opened, the clock was read for its directory and for its name, the
latter as an `unsigned int`, on the same local date. -/
def SameDay (env : Env) (ρ : List Record.Event) : Prop :=
  Always (fun before e ↦ ∀ c path, e = .fopen c path →
    ∀ date time, lastDate before = some date → lastTime before = some time →
      env.localDate date = env.localDate (UInt32.ofNat time).toNat) ρ

private theorem dayDir_inj {now now' : Nat} :
    env.dayDir now = env.dayDir now' ↔ env.localDate now = env.localDate now' := by
  simp [Env.dayDir]

/-- A record that is there and filed by day is found in the directory of its day. -/
private theorem found_of_filed {st : Store} {timestamp uuid : UInt32} {now : Nat}
    {request : ReplayProtocol} {names : List CString}
    (hthere : (st.files (dataFile (env.dayDir timestamp.toNat) timestamp uuid)).isSome)
    (hdate : env.localDate now = env.localDate timestamp.toNat)
    (hse : request.StartTime ≤ request.EndTime) (hend : request.EndTime.toNat < 2147483648)
    (hwindow : InWindow request timestamp) (hlists : Lists st request (env.dayDir now) names) :
    recordName timestamp uuid ∈ names := by
  rw [← dayDir_inj.mpr hdate, dataFile_eq] at hthere
  exact (hlists _).mpr ⟨slash_notMem_recordName _ _, hthere,
    (selects_recordName hse hend).mpr hwindow⟩

/-- In every run of any number of processes, the records are filed by day exactly if no call
reads the clock on two days. -/
theorem filedByDay_iff_sameDay {S₀ S : Sys ι Store Recorder} {τ : List (ι × Record.Event)}
    (h₀ : ∀ p, (S₀.procs p).pc = .idle)
    (h : ((recorder env).interleave ι).Open S₀ τ S) :
    FiledByDay env τ S.world ↔ ∀ p, SameDay env (Machine.eventsOf p τ) := by
  have opens (p : ι) : OpensRead env (Machine.eventsOf p τ) :=
    opensRead_of_open (h₀ p) (h.project p)
  have named {p : ι} {c : Call} {path : CString} (hm : (p, Record.Event.fopen c path) ∈ τ) :
      path = c.path :=
    (named_of_open (h₀ p) (h.project p)).opens c path (Machine.mem_eventsOf.mpr hm)
  constructor
  · rintro ⟨hfiled, -⟩ p before e after hτ c path rfl date time hdate htime
    have hm : (p, Record.Event.fopen c path) ∈ τ := Machine.mem_eventsOf.mp (by simp [hτ])
    obtain ⟨date', time', hdate', htime', hdir, htimestamp⟩ :=
      opens p before _ after hτ c path rfl
    obtain rfl : date = date' := Option.some.inj (hdate.symm.trans hdate')
    obtain rfl : time = time' := Option.some.inj (htime.symm.trans htime')
    have hday := hfiled p c path c.dir c.timestamp (nextUuid c.uuid c.existed) hm (named hm)
    rw [hdir, htimestamp] at hday
    exact dayDir_inj.mp hday
  · intro hsame
    have hfiled (p : ι) (c : Call) (path dir : CString) (timestamp uuid : UInt32)
        (hm : (p, Record.Event.fopen c path) ∈ τ) (hpath : path = dataFile dir timestamp uuid) :
        dir = env.dayDir timestamp.toNat := by
      obtain ⟨before, after, hτ, date, time, hdate, htime, hdir, htimestamp⟩ :=
        readBy_of_mem (opens p) (Machine.mem_eventsOf.mpr hm)
      have hday := hsame p before _ after hτ c path rfl date time hdate htime
      rw [named hm] at hpath
      obtain ⟨rfl, rfl, -⟩ := dataFile_inj hpath
      rw [hdir, htimestamp]
      exact dayDir_inj.mpr hday
    refine ⟨hfiled, ?_⟩
    intro p c path dir timestamp uuid hm hpath now request names hdate hse hend hwindow hlists
    have hthere := opened_files h hm
    rw [hpath, hfiled p c path dir timestamp uuid hm hpath] at hthere
    exact found_of_filed hthere hdate hse hend hwindow hlists

/-- One record, with the two readings a second apart and midnight between them: it is filed
under the day before its own. -/
theorem filed_under_yesterday :
    let env : Env := ⟨['d'], fun now ↦ if now < 10 then ['1'] else ['2']⟩
    let S₀ : Sys Unit Store Recorder := ⟨fun _ ↦ ⟨0, .idle⟩, ⟨{env.dayDir 9}, fun _ ↦ none⟩⟩
    ∃ τ S, ((recorder env).interleave Unit).Open S₀ τ S ∧
      (τ.filterMap (fun e ↦ e.2.reading)) = [9, 10] ∧
      ¬FiledByDay env τ S.world := by
  intro env S₀
  let call : Call := ⟨env.dayDir 9, true, 0, 10⟩
  obtain ⟨τ, S, hrun, hclock, hopen⟩ :=
    Machine.exec_observe ((recorder env).interleave Unit) (fun _ _ _ ↦ true) S₀
      (List.replicate 4 ((), (), { now := 9 }) ++ List.replicate 3 ((), (), { now := 10 }))
      (fun _ τ ↦ (τ.filterMap (fun e ↦ e.2.reading)) = [9, 10] ∧
        ((), Record.Event.fopen call call.path) ∈ τ)
      (fun _ _ _ _ ↦ trivial) (by decide +kernel)
  refine ⟨τ, S, hrun, hclock, fun hfiled ↦ ?_⟩
  have hday := hfiled.filed () call call.path call.dir call.timestamp 1 hopen rfl
  exact absurd hday (by decide +kernel)

/-- One record, with both readings on one day. -/
theorem filedByDay_same_day :
    let env : Env := ⟨['d'], fun now ↦ if now < 10 then ['1'] else ['2']⟩
    let S₀ : Sys Unit Store Recorder := ⟨fun _ ↦ ⟨0, .idle⟩, ⟨{env.dayDir 8}, fun _ ↦ none⟩⟩
    ∃ τ S, (∀ p, (S₀.procs p).pc = .idle) ∧ ((recorder env).interleave Unit).Open S₀ τ S ∧
      ((τ.filterMap (fun e ↦ e.2.reading)) = [8, 9] ∧ τ.any (fun e ↦ e.2.opens) = true) ∧
      FiledByDay env τ S.world := by
  intro env S₀
  obtain ⟨τ, S, hrun, hclock, hopens⟩ :=
    Machine.exec_observe ((recorder env).interleave Unit) (fun _ _ _ ↦ true) S₀
      (List.replicate 4 ((), (), { now := 8 }) ++ List.replicate 3 ((), (), { now := 9 }))
      (fun _ τ ↦ (τ.filterMap (fun e ↦ e.2.reading)) = [8, 9] ∧
        τ.any (fun e ↦ e.2.opens) = true)
      (fun _ _ _ _ ↦ trivial) (by decide +kernel)
  have hearly {p : Unit} {e : Record.Event} {now : Nat} (he : e ∈ Machine.eventsOf p τ)
      (hr : e.reading = some now) : now < 10 := by
    have hm : now ∈ τ.filterMap (fun e ↦ e.2.reading) :=
      List.mem_filterMap.mpr ⟨(p, e), Machine.mem_eventsOf.mp he, hr⟩
    rw [hclock] at hm
    simp only [List.mem_cons, List.not_mem_nil, or_false] at hm
    omega
  have hsame (p : Unit) : SameDay env (Machine.eventsOf p τ) := by
    intro before e after hsplit c path _ date time hdate htime
    obtain ⟨ed, hed, hd⟩ := List.mem_filterMap.mp (List.mem_of_getLast? hdate)
    obtain ⟨et, het, ht⟩ := List.mem_filterMap.mp (List.mem_of_getLast? htime)
    have hdate : date < 10 := hearly (p := p) (e := ed) (by simp [hsplit, hed])
      (by cases ed <;> simp_all [Record.Event.reading])
    have htime : time < 10 := hearly (p := p) (e := et) (by simp [hsplit, het])
      (by cases et <;> simp_all [Record.Event.reading])
    have hmod : (UInt32.ofNat time).toNat = time :=
      UInt32.toNat_ofNat_of_lt' (Nat.lt_trans htime (by decide))
    simp only [env, hmod, hdate, htime, if_true]
  exact ⟨τ, S, fun _ ↦ rfl, hrun, ⟨hclock, hopens⟩,
    (filedByDay_iff_sameDay (fun _ ↦ rfl) hrun).mpr hsame⟩

end DupDistribute.Playback

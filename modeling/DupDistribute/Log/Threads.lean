import DupDistribute.Log.LogWrite

/-!
# Threads that log

All threads of a process share `logsetting` and `loging` (`log.c:4-5`), and the stream of a
message is in `loging`. `LogWrite` takes `log_mutex` before it touches either of them and gives it
back on every way out (`log.c:196-217`). So the calls of all threads follow each other: together
they write what a single caller can write, call after call.
-/

namespace DupDistribute.Log

open DupDistribute.Base

variable {ι : Type} [DecidableEq ι]

/-! ### The threads -/

/-- Where a thread is in `LogWrite`: not there, at the lock, before and after `GetLogSet`, with
the stream open, or at the unlock. -/
inductive CallerPc where
  | outside
  | locking (call : LogCall)
  | entered (call : LogCall)
  | configured (call : LogCall)
  | opened (call : LogCall)
  | leaving

/-- The globals of `log.c` and the threads that log: `logfile` has the name of the file whose
stream is in `loging.logfile`, and `mutex` the holder of `log_mutex`. -/
structure Callers (ι : Type) where
  set : LogSet
  logfile : Option CString
  mutex : Option ι
  pcs : ι → CallerPc
  stopped : Bool

/-- What a thread does: something that a single caller does, or a call of `fprintf` without a
stream. -/
inductive CallerEvent where
  | log (e : LogEvent)
  | nullStream
  deriving DecidableEq, Repr

/-- A new process. -/
def Callers.start : Callers ι := ⟨logsetting, none, none, fun _ ↦ .outside, false⟩

/-- A thread moves on. -/
def Callers.move (T : Callers ι) (i : ι) (pc : CallerPc) : Callers ι :=
  { T with pcs := Function.update T.pcs i pc }

/-- The process stops, with all its threads. -/
def Callers.stop (T : Callers ι) (e : CallerEvent) : Callers ι × List CallerEvent :=
  ({ T with stopped := true }, [e])

/-- One step of thread `i` in `LogWrite`. -/
def Callers.logWrite (w : Surroundings) (T : Callers ι) (i : ι) (call : LogCall) :
    Option (Callers ι × List CallerEvent) :=
  if T.stopped then none
  else match T.pcs i with
    | .outside => some (T.move i (.locking call), [])
    | .locking call =>
      if T.mutex.isSome then none
      else some ({ T.move i (.entered call) with mutex := some i }, [])
    | .entered call =>
      match getLogSet w T.set with
      | .error stop => some (T.stop (.log (.stopped stop)))
      | .ok (set, reading) =>
        some ({ T.move i (.configured call) with set := set },
          (reading.map .configured).toList.map .log)
    | .configured call =>
      match initLog w T.set call.loglevel with
      | .error stop => some (T.stop (.log (.stopped stop)))
      | .ok (set, none) =>
        -- `loging` is cleared once the level has been admitted, `log.c:164-168`.
        let logfile := if call.loglevel &&& T.set.loglevel ≠ call.loglevel then T.logfile else none
        some ({ T.move i .leaving with set := set, logfile := logfile }, [.log (.returned false)])
      | .ok (set, some (file, text)) =>
        some ({ T.move i (.opened call) with set := set, logfile := some file },
          [.log (.written file text)])
    | .opened call =>
      match T.logfile with
      | none => some (T.stop .nullStream)
      | some file =>
        match printfLog call.format call.args with
        | .error arg => some (T.stop (.log (.stopped (.misread arg))))
        | .ok printed =>
          some ({ T.move i .leaving with logfile := none },
            [.log (.written file printed.text), .log (.returned true)])
    | .leaving => some ({ T.move i .outside with mutex := none }, [])

/-- The threads of a process that log, in any order. -/
def callers (ι : Type) [DecidableEq ι] :
    Machine Surroundings (Callers ι) (ι × LogCall) (ι × CallerEvent) where
  step w T a := (T.logWrite w a.1 a.2).map (fun r ↦ (r.1, w, r.2.map (fun e ↦ (a.1, e))))

/-! ### Calls one by one -/

/-- The events of a call that has returned: refused, or a head and a text for one file. -/
inductive IsCall : List LogEvent → Prop where
  | refused (reading : Option Reading) :
      IsCall ((reading.map .configured).toList ++ [.returned false])
  | printed (reading : Option Reading) (file head text : CString) :
      IsCall ((reading.map .configured).toList ++
        [.written file head, .written file text, .returned true])

/-- The events of one call, with the thread that made it. -/
def ofCall (c : ι × List LogEvent) : List (ι × CallerEvent) := c.2.map (fun e ↦ (c.1, .log e))

/-- The trace consists of calls, of which the last may not have returned, and a single caller
leaves the same events and the same `logsetting`. -/
def TakeTurns (τ : List (ι × CallerEvent)) (T : Callers ι) : Prop :=
  ∃ done present l, τ = (done ++ present).flatMap ofCall ∧ (∀ c ∈ done, IsCall c.2) ∧
    present.length ≤ 1 ∧ (T.mutex = none → present = []) ∧
    logger.Open Logger.start ((done ++ present).flatMap Prod.snd) l ∧ l.set = T.set

/-- The thread holds no lock. -/
def CallerPc.Without : CallerPc → Prop
  | .outside | .locking _ => True
  | _ => False

/-- Thread `i` holds `log_mutex` and is at `pc`; no other thread is past the lock. -/
structure Callers.HeldBy (T : Callers ι) (i : ι) (pc : CallerPc) : Prop where
  mutex : T.mutex = some i
  here : T.pcs i = pc
  others : ∀ j, j ≠ i → (T.pcs j).Without

/-- The call under way, if any, and where a single caller is. -/
inductive Turn (T : Callers ι) : List (ι × List LogEvent) → LogPc → Prop where
  | free (hm : T.mutex = none) (hout : ∀ j, (T.pcs j).Without) : Turn T [] .idle
  | entered (i : ι) (call : LogCall) (hi : T.HeldBy i (.entered call)) : Turn T [] .idle
  | configured (i : ι) (call : LogCall) (reading : Option Reading)
      (hi : T.HeldBy i (.configured call)) :
      Turn T [(i, (reading.map .configured).toList)] (.configured call)
  | opened (i : ι) (call : LogCall) (reading : Option Reading) (file head : CString)
      (hi : T.HeldBy i (.opened call)) (hf : T.logfile = some file) :
      Turn T [(i, (reading.map .configured).toList ++ [.written file head])] (.opened call file)
  | leaving (i : ι) (hi : T.HeldBy i .leaving) : Turn T [] .idle
  | stopped (i : ι) (σ : List LogEvent) (stop : LogStop) (hm : T.mutex = some i)
      (hs : T.stopped = true) : Turn T [(i, σ)] (.stopped stop)

variable {T T' : Callers ι} {i j : ι} {pc pc' : CallerPc} {w : Surroundings} {call call' : LogCall}
  {present : List (ι × List LogEvent)} {es : List CallerEvent} {l : Logger}

private theorem Callers.HeldBy.move (h : T.HeldBy i pc) (pc' : CallerPc) :
    (T.move i pc').HeldBy i pc' := by
  refine ⟨h.mutex, Function.update_self .., fun j hj ↦ ?_⟩
  simpa only [Callers.move, Function.update_of_ne hj] using h.others j hj

private theorem Callers.HeldBy.other (h : T.HeldBy i pc) (hne : j ≠ i) (hpc : pc'.Without) :
    (T.move j pc').HeldBy i pc := by
  refine ⟨h.mutex, ?_, fun k hk ↦ ?_⟩
  · simpa only [Callers.move, Function.update_of_ne hne.symm] using h.here
  · by_cases hkj : k = j
    · simpa only [Callers.move, hkj, Function.update_self] using hpc
    · simpa only [Callers.move, Function.update_of_ne hkj] using h.others k hk

/-- What a step does to the call under way. -/
inductive Turn.Next (w : Surroundings) (T' : Callers ι) (i : ι) (l : Logger)
    (present : List (ι × List LogEvent)) : List CallerEvent → Prop where
  | silent (hset : l.set = T'.set) (h : Turn T' present l.pc) : Next w T' i l present []
  | goesOn (σ es : List LogEvent) (l' : Logger) (call : LogCall)
      (hp : present.flatMap ofCall = ofCall (i, σ) ∧ present.flatMap Prod.snd = σ)
      (hs : logWrite w l call = some (l', es)) (hset : l'.set = T'.set)
      (h : Turn T' [(i, σ ++ es)] l'.pc) : Next w T' i l present (es.map .log)
  | ends (σ es : List LogEvent) (l' : Logger) (call : LogCall)
      (hp : present.flatMap ofCall = ofCall (i, σ) ∧ present.flatMap Prod.snd = σ)
      (hs : logWrite w l call = some (l', es)) (hset : l'.set = T'.set)
      (hcall : IsCall (σ ++ es)) (h : Turn T' [] l'.pc) : Next w T' i l present (es.map .log)

omit [DecidableEq ι] in
private theorem present_single (c : ι × List LogEvent) :
    [c].flatMap ofCall = ofCall (c.1, c.2) ∧ [c].flatMap Prod.snd = c.2 := by
  simp

private theorem next_of_entered {set : LogSet} (hi : T.HeldBy i (.entered call))
    (hrun : T.stopped = false) (hset : set = T.set)
    (hs : T.logWrite w i call' = some (T', es)) :
    Turn.Next w T' i ⟨set, .idle⟩ [] es := by
  subst hset
  simp only [Callers.logWrite, hrun, hi.here, Bool.false_eq_true, ↓reduceIte] at hs
  cases hget : getLogSet w T.set with
  | error stop =>
    simp only [hget, Callers.stop, Option.some.injEq, Prod.mk.injEq] at hs
    obtain ⟨rfl, rfl⟩ := hs
    exact .goesOn [] [.stopped stop] ⟨T.set, .stopped stop⟩ call ⟨rfl, rfl⟩
      (by simp only [logWrite, hget, Logger.stop]) rfl (.stopped i _ stop hi.mutex rfl)
  | ok r =>
    obtain ⟨set, reading⟩ := r
    simp only [hget, Option.some.injEq, Prod.mk.injEq] at hs
    obtain ⟨rfl, rfl⟩ := hs
    have hi' := hi.move (.configured call)
    exact .goesOn [] _ ⟨set, .configured call⟩ call ⟨rfl, rfl⟩
      (by simp only [logWrite, hget]) rfl
      (.configured i call reading ⟨hi'.mutex, hi'.here, hi'.others⟩)

private theorem next_of_configured {set : LogSet} {reading : Option Reading}
    (hi : T.HeldBy i (.configured call)) (hrun : T.stopped = false) (hset : set = T.set)
    (hs : T.logWrite w i call' = some (T', es)) :
    Turn.Next w T' i ⟨set, .configured call⟩ [(i, (reading.map .configured).toList)] es := by
  subst hset
  have hp := present_single (i, (reading.map LogEvent.configured).toList)
  simp only [Callers.logWrite, hrun, hi.here, Bool.false_eq_true, ↓reduceIte] at hs
  cases hinit : initLog w T.set call.loglevel with
  | error stop =>
    simp only [hinit, Callers.stop, Option.some.injEq, Prod.mk.injEq] at hs
    obtain ⟨rfl, rfl⟩ := hs
    exact .goesOn _ [.stopped stop] ⟨T.set, .stopped stop⟩ call hp
      (by simp only [logWrite, hinit, Logger.stop]) rfl (.stopped i _ stop hi.mutex rfl)
  | ok r =>
    obtain ⟨set, opened⟩ := r
    cases opened with
    | none =>
      simp only [hinit, Option.some.injEq, Prod.mk.injEq] at hs
      obtain ⟨rfl, rfl⟩ := hs
      have hi' := hi.move .leaving
      exact .ends _ [.returned false] ⟨set, .idle⟩ call hp (by simp only [logWrite, hinit]) rfl
        (.refused reading) (.leaving i ⟨hi'.mutex, hi'.here, hi'.others⟩)
    | some begun =>
      obtain ⟨file, head⟩ := begun
      simp only [hinit, Option.some.injEq, Prod.mk.injEq] at hs
      obtain ⟨rfl, rfl⟩ := hs
      have hi' := hi.move (.opened call)
      exact .goesOn _ [.written file head] ⟨set, .opened call file⟩ call hp
        (by simp only [logWrite, hinit]) rfl
        (.opened i call reading file head ⟨hi'.mutex, hi'.here, hi'.others⟩ rfl)

private theorem next_of_opened {set : LogSet} {reading : Option Reading} {file head : CString}
    (hi : T.HeldBy i (.opened call)) (hf : T.logfile = some file) (hrun : T.stopped = false)
    (hset : set = T.set) (hs : T.logWrite w i call' = some (T', es)) :
    Turn.Next w T' i ⟨set, .opened call file⟩
      [(i, (reading.map .configured).toList ++ [.written file head])] es := by
  subst hset
  have hp := present_single (i, (reading.map LogEvent.configured).toList ++ [.written file head])
  simp only [Callers.logWrite, hrun, hi.here, hf, Bool.false_eq_true, ↓reduceIte] at hs
  cases hprint : printfLog call.format call.args with
  | error arg =>
    simp only [hprint, Callers.stop, Option.some.injEq, Prod.mk.injEq] at hs
    obtain ⟨rfl, rfl⟩ := hs
    exact .goesOn _ [.stopped (.misread arg)] ⟨T.set, .stopped (.misread arg)⟩ call hp
      (by simp only [logWrite, hprint, Logger.stop]) rfl (.stopped i _ _ hi.mutex rfl)
  | ok printed =>
    simp only [hprint, Option.some.injEq, Prod.mk.injEq] at hs
    obtain ⟨rfl, rfl⟩ := hs
    have hi' := hi.move .leaving
    refine .ends _ [.written file printed.text, .returned true] ⟨T.set, .idle⟩ call hp
      (by simp only [logWrite, hprint]) rfl ?_ (.leaving i ⟨hi'.mutex, hi'.here, hi'.others⟩)
    rw [List.append_assoc]
    exact .printed reading file head printed.text

/-- A thread that is not past the lock gets to it, or takes it if it is free. -/
private theorem without_step (hi : (T.pcs i).Without) (hrun : T.stopped = false)
    (hs : T.logWrite w i call = some (T', es)) :
    (∃ c, T' = T.move i (.locking c) ∧ es = []) ∨
      T.mutex = none ∧ ∃ c, T' = { T.move i (.entered c) with mutex := some i } ∧ es = [] := by
  cases hpc : T.pcs i with
  | outside =>
    simp only [Callers.logWrite, hrun, hpc, Bool.false_eq_true, ↓reduceIte, Option.some.injEq,
      Prod.mk.injEq] at hs
    obtain ⟨rfl, rfl⟩ := hs
    exact .inl ⟨call, rfl, rfl⟩
  | locking c =>
    simp only [Callers.logWrite, hrun, hpc, Bool.false_eq_true, ↓reduceIte,
      Option.ite_none_left_eq_some, Option.some.injEq, Prod.mk.injEq, Option.not_isSome_iff_eq_none]
      at hs
    obtain ⟨hm, rfl, rfl⟩ := hs
    exact .inr ⟨hm, c, rfl, rfl⟩
  | _ => simp [hpc, CallerPc.Without] at hi

/-- While a thread holds the lock, the others get no further than to it. -/
private theorem Callers.HeldBy.other_step (hk : T.HeldBy j pc) (hne : i ≠ j)
    (hrun : T.stopped = false) (hs : T.logWrite w i call = some (T', es)) :
    es = [] ∧ T'.HeldBy j pc ∧ T'.set = T.set ∧ T'.logfile = T.logfile := by
  rcases without_step (hk.others i hne) hrun hs with ⟨c, rfl, rfl⟩ | ⟨hm, -⟩
  · exact ⟨rfl, hk.other hne trivial, rfl, rfl⟩
  · rw [hk.mutex] at hm
    cases hm

/-- Every step of a thread takes the call under way further, or is not seen. -/
theorem Turn.step (h : Turn T present l.pc) (hset : l.set = T.set)
    (hs : T.logWrite w i call = some (T', es)) : Turn.Next w T' i l present es := by
  have hrun : T.stopped = false := by
    cases hst : T.stopped with
    | false => rfl
    | true => simp [Callers.logWrite, hst] at hs
  obtain ⟨set, pc⟩ := l
  have hset : set = T.set := hset
  have h : Turn T present pc := h
  cases h with
  | free hm hout =>
    rcases without_step (hout i) hrun hs with ⟨c, rfl, rfl⟩ | ⟨-, c, rfl, rfl⟩
    · refine .silent hset (.free hm fun j ↦ ?_)
      by_cases hj : j = i
      · simp only [Callers.move, hj, Function.update_self, CallerPc.Without]
      · simpa only [Callers.move, Function.update_of_ne hj] using hout j
    · refine .silent hset (.entered i c ⟨rfl, Function.update_self .., fun j hj ↦ ?_⟩)
      simpa only [Callers.move, Function.update_of_ne hj] using hout j
  | entered k c hk =>
    by_cases hi : i = k
    · subst hi
      exact next_of_entered hk hrun hset hs
    · obtain ⟨rfl, hk', hset', -⟩ := hk.other_step hi hrun hs
      exact .silent (hset.trans hset'.symm) (.entered k c hk')
  | configured k c reading hk =>
    by_cases hi : i = k
    · subst hi
      exact next_of_configured hk hrun hset hs
    · obtain ⟨rfl, hk', hset', -⟩ := hk.other_step hi hrun hs
      exact .silent (hset.trans hset'.symm) (.configured k c reading hk')
  | opened k c reading file head hk hf =>
    by_cases hi : i = k
    · subst hi
      exact next_of_opened hk hf hrun hset hs
    · obtain ⟨rfl, hk', hset', hf'⟩ := hk.other_step hi hrun hs
      exact .silent (hset.trans hset'.symm) (.opened k c reading file head hk' (hf'.trans hf))
  | leaving k hk =>
    by_cases hi : i = k
    · subst hi
      simp only [Callers.logWrite, hrun, hk.here, Bool.false_eq_true, ↓reduceIte,
        Option.some.injEq, Prod.mk.injEq] at hs
      obtain ⟨rfl, rfl⟩ := hs
      refine .silent hset (.free rfl fun j ↦ ?_)
      by_cases hj : j = i
      · simp only [Callers.move, hj, Function.update_self, CallerPc.Without]
      · simpa only [Callers.move, Function.update_of_ne hj] using hk.others j hj
    · obtain ⟨rfl, hk', hset', -⟩ := hk.other_step hi hrun hs
      exact .silent (hset.trans hset'.symm) (.leaving k hk')
  | stopped k σ stop hm hst =>
    rw [hrun] at hst
    cases hst

omit [DecidableEq ι] in
private theorem Turn.length_le (h : Turn T present l.pc) : present.length ≤ 1 := by
  generalize l.pc = pc at h
  cases h <;> simp

omit [DecidableEq ι] in
private theorem Turn.eq_nil (h : Turn T present l.pc) (hm : T.mutex = none) : present = [] := by
  generalize l.pc = pc at h
  cases h with
  | free => rfl
  | entered | leaving => rfl
  | configured i call reading hi => exact absurd (hi.mutex.symm.trans hm) (by simp)
  | opened i call reading file head hi => exact absurd (hi.mutex.symm.trans hm) (by simp)
  | stopped i σ stop hi => exact absurd (hi.symm.trans hm) (by simp)

/-- For any number of threads of a process and every order of their steps, whatever the
configuration, the clock, `HOME` and the outcomes of `fopen` are: the calls of `LogWrite` follow
each other, each with its head and its text to one file and nothing between them, no thread ever
writes without a stream, and there is a run of a single caller that leaves the same events and
the same `logsetting`. -/
theorem calls_take_turns {τ : List (ι × CallerEvent)}
    (h : (callers ι).Open Callers.start τ T) : TakeTurns τ T := by
  have hinv := h.invariant (fun τ T ↦ ∃ done present l, τ = (done ++ present).flatMap ofCall ∧
      (∀ c ∈ done, IsCall c.2) ∧ Turn T present l.pc ∧
      logger.Open Logger.start ((done ++ present).flatMap Prod.snd) l ∧ l.set = T.set)
    ⟨[], [], Logger.start, rfl, by simp,
      Turn.free (T := Callers.start) rfl (fun _ ↦ trivial), .refl, rfl⟩ ?_
  · obtain ⟨done, present, l, hτ, hdone, hturn, hrun, hset⟩ := hinv
    exact ⟨done, present, l, hτ, hdone, hturn.length_le, hturn.eq_nil, hrun, hset⟩
  rintro τ T w ⟨i, call⟩ T' w' es ⟨done, present, l, rfl, hdone, hturn, hrun, hset⟩ - hs
  obtain ⟨⟨T'', es'⟩, hstep, he⟩ := Option.map_eq_some_iff.mp hs
  obtain ⟨rfl, -, rfl⟩ : T'' = T' ∧ w = w' ∧ es'.map (fun e ↦ (i, e)) = es := by simpa using he
  -- The single caller takes the same step, in the same surroundings.
  have follow {es : List LogEvent} {l' : Logger} {c : LogCall}
      (hl : logWrite w l c = some (l', es)) :
      logger.Open Logger.start ((done ++ present).flatMap Prod.snd ++ es) l' := by
    have hnext : logger.step w l c = some (l', w, es) := by
      simp only [logger, hl, Option.map_some]
    exact hrun.snoc trivial hnext
  cases hturn.step hset hstep with
  | silent hset' hturn' => exact ⟨done, present, l, by simp, hdone, hturn', hrun, hset'⟩
  | goesOn σ es l' c hp hl hset' hturn' =>
    refine ⟨done, [(i, σ ++ es)], l', ?_, hdone, hturn', ?_, hset'⟩
    · simp [hp.1, ofCall]
    · have := follow hl
      simpa [hp.2] using this
  | ends σ es l' c hp hl hset' hcall hturn' =>
    refine ⟨done ++ [(i, σ ++ es)], [], l', ?_, ?_, hturn', ?_, hset'⟩
    · simp [hp.1, ofCall]
    · intro b hb
      rcases List.mem_append.mp hb with hb | hb
      · exact hdone b hb
      · rw [List.mem_singleton.mp hb]
        exact hcall
    · have := follow hl
      simpa [hp.2] using this

/-- Two threads of which the second comes to the lock while the first one has it. -/
theorem calls_take_turns_two_threads :
    let head : CString := "[INFO] [8:0:0] ".toList
    ∃ τ T, (callers Bool).Open Callers.start τ T ∧
      τ = [(false, .log (.written (logName ['h'] ['1']) head)),
        (false, .log (.written (logName ['h'] ['1']) ['a', '\n'])), (false, .log (.returned true)),
        (true, .log (.written (logName ['h'] ['1']) head)),
        (true, .log (.written (logName ['h'] ['1']) ['b', '\n'])), (true, .log (.returned true))] ∧
      TakeTurns τ T := by
  intro head
  let w : Surroundings := ⟨.missing, [], ⟨['1'], by decide, by decide⟩, 0, 0, 0, some ['h'], true⟩
  let step (i : Bool) : Surroundings × Bool × LogCall := (w, i, ⟨1, [if i then 'b' else 'a'], []⟩)
  obtain ⟨τ, T, hrun, hτ⟩ := Machine.exec_observe (callers Bool) (fun _ _ _ ↦ true) Callers.start
    ([step false, step false, step true, step false, step false, step false, step false] ++
      List.replicate 4 (step true))
    (fun _ τ ↦ τ = [(false, .log (.written (logName ['h'] ['1']) head)),
        (false, .log (.written (logName ['h'] ['1']) ['a', '\n'])), (false, .log (.returned true)),
        (true, .log (.written (logName ['h'] ['1']) head)),
        (true, .log (.written (logName ['h'] ['1']) ['b', '\n'])), (true, .log (.returned true))])
    (fun _ _ _ _ ↦ trivial) (by decide +kernel)
  exact ⟨τ, T, hrun, hτ, calls_take_turns hrun⟩

end DupDistribute.Log

import DupDistribute.Distribute.Forward
import DupDistribute.Distribute.Requests

/-!
# Coming back to `recv`

From every stage in which no thread is missing, `distribute_run` can be brought to its end
without a failure on the way: the recording succeeds, every client is reached and none is
locked, and a replay under way is called off. This is what "can go on" means below, and it
shows that runs without a failure exist for every chunk.
-/

namespace DupDistribute.Distribute

open DupDistribute.Base DupDistribute.Wire DupDistribute.Record DupDistribute.Playback

/-- The record file could be opened, the client could be reached, and its lock file was
missing at the check. -/
def Event.benign : Event → Bool
  | .record (.returned none) => false
  | .client _ _ (.socket _ _ (.connected _)) => true
  | .client _ _ (.socket _ _ _) => false
  | .client _ _ (.access w path) => decide (path ∉ w)
  | _ => true

/-- Nothing is in the way, and nothing is received. -/
structure Clear (τ : List Event) : Prop where
  benign : ∀ e ∈ τ, e.benign = true
  received : τ.filterMap Event.received = []

/-- Nothing happened yet. -/
theorem Clear.nil : Clear [] := ⟨by simp, rfl⟩

/-- Traces with nothing in the way compose. -/
theorem Clear.append {τ τ' : List Event} (h : Clear τ) (h' : Clear τ') : Clear (τ ++ τ') := by
  refine ⟨fun e he ↦ ?_, ?_⟩
  · rcases List.mem_append.mp he with he | he
    · exact h.benign e he
    · exact h'.benign e he
  · rw [List.filterMap_append, h.received, h'.received, List.append_nil]

/-- The process can come back to `recv` with nothing in the way. -/
def Proc.Completes (env : Env) (p : Proc) : Prop :=
  ∃ τ p', (process env).RunIn (fun _ _ a ↦ a.Creates True) p τ p' ∧ p'.Waiting ∧ Clear τ

variable {env : Env} {p q : Proc}

/-- What can be completed later can be completed. -/
theorem Proc.Completes.of_run {τ : List Event}
    (hr : (process env).RunIn (fun _ _ a ↦ a.Creates True) p τ q) (hc : Clear τ)
    (h : q.Completes env) : p.Completes env := by
  obtain ⟨τ', p', hr', hw, hc'⟩ := h
  exact ⟨τ ++ τ', p', hr.trans hr', hw, hc.append hc'⟩

private theorem completes_of_step {w w' : World} {es : List Event}
    (hs : p.step env w (.main {}) = some (q, w', es)) (hc : Clear es) (h : q.Completes env) :
    p.Completes env := by
  have hs : (process env).step w p (.main {}) = some (q, w', es) := hs
  have hfirst := Machine.RunIn.single (C := fun _ _ (a : Act) ↦ a.Creates True)
    (a := .main {}) (fun _ ↦ rfl) hs
  exact .of_run hfirst hc h

private theorem completes_of_main {w w' : World}
    (hs : p.mainStep env w {} = some (q, w', [])) (h : q.Completes env) : p.Completes env :=
  completes_of_step hs .nil h

/-! ### A client thread comes to its end -/

/-- A place a thread can be in: no crash, and a session neither ended nor crashed. -/
def ClientPc.Live : ClientPc → Prop
  | .playback _ s => s.pc.Going ∧ s.pc ≠ .returned ∧ s.pc ≠ .crashed
  | .crashed => False
  | _ => True

/-- A step leads to such a place or to a crash. -/
theorem ClientDoes.live {param : ThreadParam} {w w' : Shm} {a : ClientInput} {t t' : Table}
    {pc pc' : ClientPc} {es : List ClientEvent}
    (h : ClientDoes env param w a t pc pc' t' w' es) (hc : pc' ≠ .crashed) : pc'.Live := by
  cases h with
  | enter fd => exact ⟨Session.enter_going _ _, Session.enter_ne _ _⟩
  | session fd s s' _ es' hs =>
    have hg := Session.does_going hs
    revert hc
    cases hp : s'.pc <;> simp_all [ClientPc.ofSession, ClientPc.Live]
  | _ => trivial

/-- Steps left to a session that is called off. -/
def sessionLeft : SessionPc → Nat
  | .creat => 1
  | .serve => 2
  | .scan s => if s.pc = .body then 3 else 2
  | .removeFailed | .removeEnd | .removeWrong => 1
  | .returned | .crashed => 0

/-- Steps left to a thread whose session is called off. -/
def exitLeft : ClientPc → Nat
  | .start => 9
  | .header _ => 8
  | .playback _ s => 4 + sessionLeft s.pc
  | .check _ => 4
  | .send _ => 3
  | .close _ => 2
  | .unlock => 1
  | _ => 0

/-- Outcomes that call a session off: no lock file, no directory and no listing. -/
def callOff : SessionInput := { creatOk := false, dayDir := false, scan := { listing := none } }

private theorem session_calledOff (env : Env) (address : CString) (acceptfd : Int) {s : Session}
    (hg : s.pc.Going) (hr : s.pc ≠ .returned) (hc : s.pc ≠ .crashed) :
    ∃ s' w' es, s.step env address acceptfd ∅ callOff = some (s', w', es) ∧
      s'.pc ≠ .crashed ∧ sessionLeft s'.pc < sessionLeft s.pc := by
  cases hp : s.pc with
  | scan sc =>
    rw [hp] at hg
    rcases hg with hsc | hsc | hsc
    · simp [Session.step, hp, Scan.step, hsc, Scan.scandir, callOff, SessionPc.ofScan,
        sessionLeft]
    · by_cases hi : sc.i < sc.namelist.length <;>
        simp [Session.step, hp, Scan.step, hsc, Scan.check, hi, SessionPc.ofScan, sessionLeft]
    · have hcontent : callOff.scan.content = some [] := rfl
      have halive : sc.aborts callOff.scan = false := Scan.aborts_of_freeAborts sc rfl
      rcases Scan.body_worked (s.scanArgs address acceptfd) halive hcontent with hb | hb <;>
        simp [Session.step, hp, Scan.step, hsc, SessionPc.ofScan, hb, sessionLeft]
  | returned => exact absurd hp hr
  | crashed => exact absurd hp hc
  | _ => simp [Session.step, hp, callOff, removeLock, sessionLeft]

/-- A thread that has work left can do a step towards its end. -/
private theorem client_advances (env : Env) (param : ThreadParam) (t : Table) (m k : Nat)
    {pc : ClientPc} (hl : pc.Live) (ha : pc ≠ .absent) (hx : pc ≠ .exited) :
    ∃ pc' t' w' es, clientStep env param ∅ (pc, t) { session := callOff } =
        some ((pc', t'), w', es) ∧ pc' ≠ .crashed ∧ exitLeft pc' < exitLeft pc ∧
      Clear (es.map (.client m k)) := by
  have clear (es : List ClientEvent) (hb : ∀ e ∈ es, (Event.client m k e).benign = true) :
      Clear (es.map (.client m k)) := by
    refine ⟨by simpa using hb, ?_⟩
    simp [Event.received]
  cases pc with
  | absent => exact absurd rfl ha
  | exited => exact absurd rfl hx
  | crashed => exact absurd hl id
  | start =>
    refine ⟨_, _, _, _, rfl, by simp, by simp [exitLeft], clear _ ?_⟩
    simp [Event.benign]
  | header fd =>
    by_cases hc : (replayOf param.buf sizeofReplayProtocol).PacketHead = PLAYBACKHEADER ∧
        (t param.clientIndex).address = (t 0).acceptedAddress
    · refine ⟨_, _, _, _, by simp only [clientStep, if_pos hc]; rfl, by simp, ?_, clear _ ?_⟩
      · simp only [exitLeft, Session.enter]
        split
        · simp [sessionLeft]
        · split <;> simp [sessionLeft]
      · simp [Event.benign]
    · refine ⟨_, _, _, _, by simp only [clientStep, if_neg hc]; rfl, by simp, ?_, clear _ ?_⟩
      · simp [exitLeft]
      · simp [Event.benign]
  | playback fd s =>
    obtain ⟨hg, hr, hc⟩ := hl
    obtain ⟨s', w', es, hs, hc', hlt⟩ := session_calledOff env (t s.index).address
      (t s.index).acceptfd hg hr hc
    refine ⟨_, _, _, _, by simp only [clientStep, hs]; rfl, ?_, ?_, clear _ ?_⟩
    · simp only [ClientPc.ofSession]
      split <;> simp_all
    · have hpos : 0 < sessionLeft s.pc := by omega
      simp only [ClientPc.ofSession]
      split <;> simp_all [exitLeft]
    · simp [Event.benign]
  | check fd =>
    refine ⟨_, _, _, _, by simp only [clientStep, Finset.notMem_empty, if_false]; rfl, by simp,
      by simp [exitLeft], clear _ ?_⟩
    simp [Event.benign]
  | send fd | close fd | unlock =>
    refine ⟨_, _, _, _, rfl, by simp, by simp [exitLeft], clear _ ?_⟩
    simp [Event.benign]

/-- A thread that has work left can come to its end, where it unlocks `mute`. -/
theorem thread_exits (env : Env) {t₀ : Table} (p : Proc) (m : Nat) (hag : p.tcpInfo.Agrees t₀)
    (hl : (p.threads m).Live) (ha : p.threads m ≠ .absent) (hx : p.threads m ≠ .exited) :
    ∃ τ t', (process env).RunIn (fun _ _ a ↦ a.Creates True) p τ { p with
        tcpInfo := t', threads := Function.update p.threads m .exited, mute := false } ∧
      t'.Agrees t₀ ∧ Clear τ := by
  induction hn : exitLeft (p.threads m) using Nat.strongRecOn generalizing p with
  | ind n ih =>
    obtain ⟨pc', t', w', es, hs, hcr, hlt, hc⟩ :=
      client_advances env p.param p.tcpInfo m p.param.clientIndex hl ha hx
    let w : World := ⟨∅, ⟨∅, fun _ ↦ none⟩⟩
    have hdo := clientDoes_of_step hs
    have hag' : t'.Agrees t₀ := clientStep_agrees hag hs
    have hstep : (process env).step w p (.client m { session := callOff }) =
        some (p.afterClient m pc' t', ⟨w', w.store⟩, es.map (.client m p.param.clientIndex)) := by
      simp [process, Proc.step, w, hs]
    have hrun := Machine.RunIn.single (C := fun _ _ (a : Act) ↦ a.Creates True)
      (a := .client m { session := callOff }) trivial hstep
    rw [Proc.afterClient_of_ne hcr] at hrun
    by_cases he : pc' = .exited
    · subst he
      rw [if_pos (hdo.exited_iff.mp rfl)] at hrun
      exact ⟨_, t', hrun, hag', hc⟩
    · have hne : p.threads m ≠ .unlock := fun hu ↦ he (hdo.exited_iff.mpr hu)
      rw [if_neg hne] at hrun
      obtain ⟨τ, t'', hrun', hag'', hc'⟩ := ih _ (hn ▸ hlt)
        { p with tcpInfo := t', threads := Function.update p.threads m pc' } hag'
        (by simpa using hdo.live hcr) (by simpa using hdo.not_absent) (by simpa using he)
        (by simp)
      simp only [Function.update_idem] at hrun'
      exact ⟨_, t'', hrun.trans hrun', hag'', hc.append hc'⟩

/-! ### Main comes to its end -/

/-- Main has served the first `m` of `n` clients, and the next one has no thread yet. -/
structure Proc.AtClient (t₀ : Table) (m : Nat) (p : Proc) : Prop where
  tables : p.tcpInfo.Agrees t₀
  recorder : p.recorder.pc = .idle
  threads : OneByOne p.threads m .absent

variable {t₀ : Table} {m : Nat}

private theorem Proc.AtClient.clients (h : p.AtClient t₀ m) :
    (p.tcpInfo 0).clientNum = (t₀ 0).clientNum := (h.tables 0).2.2.2

private theorem Proc.AtClient.moved (h : p.AtClient t₀ m) {param : ThreadParam} {mute : Bool}
    {main : MainPc} : Proc.AtClient t₀ m { p with param := param, mute := mute, main := main } :=
  ⟨h.tables, h.recorder, h.threads⟩

/-- A world without lock files, in which the directory exists. -/
private def openWorld (dir : CString) : World := ⟨∅, ⟨{dir}, fun _ ↦ none⟩⟩

private theorem destroy_completes (h : p.AtClient t₀ m) (hm : p.main = .destroy) :
    p.Completes env := by
  have hs : p.mainStep env (openWorld []) {} =
      some ({ p with param := { p.param with buf := p.param.buf.memset MAX_BUFFER_SIZE },
                     main := .recv }, openWorld [], []) := by
    simp only [Proc.mainStep, hm]
  exact completes_of_main hs ⟨[], _, .refl, ⟨rfl, h.recorder, h.threads.resting⟩, .nil⟩

private theorem join_completes {k : Nat} (h : p.AtClient t₀ (t₀ 0).clientNum)
    (hm : p.main = .join k) (hk : k ≤ (t₀ 0).clientNum) : p.Completes env := by
  induction hd : (t₀ 0).clientNum - k generalizing p k with
  | zero =>
    have hge : ¬ k < (t₀ 0).clientNum := by omega
    have hs : p.mainStep env (openWorld []) {} =
        some ({ p with main := .destroy }, openWorld [], []) := by
      simp only [Proc.mainStep, hm, h.clients, hge, if_false]
    exact completes_of_main hs (destroy_completes h.moved rfl)
  | succ d ih =>
    have hlt : k < (t₀ 0).clientNum := by omega
    have hs : p.mainStep env (openWorld []) {} =
        some ({ p with main := .join (k + 1) }, openWorld [], []) := by
      simp only [Proc.mainStep, hm, h.clients, hlt, h.threads.before k hlt, true_or, if_true]
    exact completes_of_main hs (ih h.moved rfl hlt (by omega))

/-- Once the thread has come to its end, main goes on after it. -/
private theorem thread_completes {pc : ClientPc} (hag : p.tcpInfo.Agrees t₀)
    (hr : p.recorder.pc = .idle) (hth : OneByOne p.threads m pc) (hl : pc.Live)
    (ha : pc ≠ .absent) (hx : pc ≠ .exited)
    (next : ∀ q : Proc, q.AtClient t₀ (m + 1) → q.main = p.main → q.mute = false →
      q.Completes env) : p.Completes env := by
  obtain ⟨τ, t', hrun, hag', hc⟩ := thread_exits env p m hag (hth.here ▸ hl)
    (hth.here ▸ ha) (hth.here ▸ hx)
  exact .of_run hrun hc (next _ ⟨hag', hr, (hth.set .exited).next⟩ rfl rfl)

private theorem create_completes (h : p.AtClient t₀ m) (hm : p.main = .create m)
    (next : ∀ q : Proc, q.AtClient t₀ (m + 1) → q.main = .lock (m + 1) → q.mute = false →
      q.Completes env) : p.Completes env := by
  have hs : p.mainStep env (openWorld []) {} =
      some ({ p with threads := Function.update p.threads m .start, main := .lock (m + 1) },
        openWorld [], []) := by
    simp only [Proc.mainStep, hm, if_true]
  exact completes_of_main hs (thread_completes h.tables h.recorder (h.threads.set .start) trivial
    (by simp) (by simp) next)

private theorem setIndex_completes (h : p.AtClient t₀ m) (hm : p.main = .setIndex m)
    (next : ∀ q : Proc, q.AtClient t₀ (m + 1) → q.main = .lock (m + 1) → q.mute = false →
      q.Completes env) : p.Completes env := by
  have hs : p.mainStep env (openWorld []) {} =
      some ({ p with param := { p.param with clientIndex := m + 1 }, main := .create m },
        openWorld [], []) := by
    simp only [Proc.mainStep, hm]
  exact completes_of_main hs (create_completes h.moved rfl next)

private theorem lock_completes (h : p.AtClient t₀ m) (hm : p.main = .lock m)
    (hu : p.mute = false) (hle : m ≤ (t₀ 0).clientNum) : p.Completes env := by
  induction hd : (t₀ 0).clientNum - m generalizing p m with
  | zero =>
    obtain rfl : m = (t₀ 0).clientNum := by omega
    have hs : p.mainStep env (openWorld []) {} =
        some ({ p with main := .join 0 }, openWorld [], []) := by
      simp only [Proc.mainStep, hm, h.clients, Nat.lt_irrefl, if_false]
    exact completes_of_main hs (join_completes h.moved rfl (Nat.zero_le _))
  | succ d ih =>
    have hlt : m < (t₀ 0).clientNum := by omega
    have hs : p.mainStep env (openWorld []) {} =
        some ({ p with mute := true, main := .setIndex m }, openWorld [], []) := by
      simp only [Proc.mainStep, hm, h.clients, hlt, hu, if_true, Bool.false_eq_true, if_false]
    exact completes_of_main hs (setIndex_completes h.moved rfl
      (fun q hq hqm hqu ↦ ih hq hqm hqu hlt (by omega)))

private theorem prepare_completes (hm : p.main = .prepare) (hr : p.recorder.pc = .idle) :
    p.Completes env := by
  have hs : p.step env (openWorld []) (.main {}) =
      some ({ p with
        param := ⟨Memory.memcpy (fun _ ↦ 0) p.receiveBuf p.receiveSize, p.receiveSize, 0⟩
        mute := false
        threads := fun _ ↦ .absent
        main := .lock 0 }, openWorld [], [.copy ⟨MAX_BUFFER_SIZE, p.receiveSize⟩]) := by
    simp only [Proc.step, Proc.mainStep, hm]
  have hat : Proc.AtClient p.tcpInfo 0 { p with
      param := ⟨Memory.memcpy (fun _ ↦ 0) p.receiveBuf p.receiveSize, p.receiveSize, 0⟩
      mute := false
      threads := fun _ ↦ .absent
      main := .lock 0 } :=
    ⟨.refl _, hr, fun _ hj ↦ absurd hj (Nat.not_lt_zero _), rfl, fun _ _ ↦ rfl⟩
  exact completes_of_step hs ⟨by simp [Event.benign], by simp [Event.received]⟩
    (lock_completes hat rfl rfl (Nat.zero_le _))

/-- A store in which the next recording step succeeds. -/
private def storeFor : Record.Pc → Store
  | .accessDir dir => ⟨{dir}, fun _ ↦ none⟩
  | .fopen call _ => ⟨{call.dir}, fun _ ↦ none⟩
  | _ => ⟨∅, fun _ ↦ none⟩

private theorem record_advances (env : Env) (bytes : List UInt8) {s : Recorder}
    (hi : s.pc ≠ .idle) :
    ∃ s' st' es, s.step env (storeFor s.pc) { bytes := bytes } = some (s', st', es) ∧
      Clear (es.map .record) ∧
      (MainPc.afterRecord s.pc s'.pc = .prepare ∧ s'.pc = .idle ∨
        MainPc.afterRecord s.pc s'.pc = .record ∧ s'.pc ≠ .idle ∧
          recordLeft s'.pc < recordLeft s.pc) := by
  have clear (es : List Record.Event) (hb : Record.Event.returned none ∉ es) :
      Clear (es.map .record) := by
    refine ⟨?_, by simp [Event.received]⟩
    intro e he
    obtain ⟨e', he', rfl⟩ := List.mem_map.mp he
    simp only [Event.benign]
    split <;> simp_all
  cases hp : s.pc with
  | idle => exact absurd hp hi
  | _ =>
    simp only [Recorder.step, hp, storeFor, Finset.mem_singleton, Finset.notMem_empty,
      not_false_eq_true, and_self, if_true]
    exact ⟨_, _, _, rfl, clear _ (by simp), by simp [MainPc.afterRecord, recordLeft]⟩

private theorem record_completes (hm : p.main = .record) (hi : p.recorder.pc ≠ .idle) :
    p.Completes env := by
  induction hn : recordLeft p.recorder.pc using Nat.strongRecOn generalizing p with
  | ind n ih =>
    obtain ⟨s', st', es, hs, hc, hnext⟩ :=
      record_advances env (p.receiveBuf.read p.receiveSize) hi
    have hstep : p.step env ⟨∅, storeFor p.recorder.pc⟩ (.main {}) =
        some ({ p with recorder := s', main := .afterRecord p.recorder.pc s'.pc }, ⟨∅, st'⟩,
          es.map .record) := by
      simp only [Proc.step, Proc.mainStep, hm, hs, Option.map_some]
    refine completes_of_step hstep hc ?_
    rcases hnext with ⟨hmain, hidle⟩ | ⟨hmain, hidle, hlt⟩
    · exact prepare_completes hmain hidle
    · exact ih _ (hn ▸ hlt) hmain hidle rfl

/-- From its entry `distribute_run` can come to its end. -/
theorem run_completes (hm : p.main = .run) (hr : p.recorder.pc = .idle) : p.Completes env := by
  by_cases hf : (p.tcpInfo 0).flag = DISTRIBUTE
  · have hs : p.mainStep env (openWorld []) {} =
        some ({ p with main := .record, recorder := { p.recorder with pc := .accessConf } },
          openWorld [], []) := by
      simp only [Proc.mainStep, hm, hf, if_true]
    exact completes_of_main hs (record_completes rfl (by simp))
  · have hs : p.mainStep env (openWorld []) {} =
        some ({ p with main := .prepare }, openWorld [], []) := by
      simp only [Proc.mainStep, hm, hf, if_false]
    exact completes_of_main hs (prepare_completes rfl hr)

/-- From every stage without a missing thread `distribute_run` can come to its end. -/
theorem Stage.completes {cur : List Event} (hst : Stage env True t₀ p cur)
    (hag : p.tcpInfo.Agrees t₀) (hl : ∀ j, (p.threads j).Live) (hc : p.main ≠ .closed)
    (hd : p.main ≠ .dead) : p.Completes env := by
  cases hst with
  | idle hw => exact ⟨[], p, .refl, hw, .nil⟩
  | closed hm => exact absurd hm hc
  | running chunk hm hr => exact run_completes hm hr
  | recording chunk ρ hm hq _ _ hr =>
    refine record_completes hm ?_
    generalize p.recorder.pc = pc at hr
    cases hr with
    | inside _ _ _ hi => exact hi
    | opened => simp
  | preparing chunk pre hm hr => exact prepare_completes hm hr
  | between chunk pre m σ hr ho hcar hth hf hb =>
    have hat : p.AtClient t₀ m := ⟨hag, hr, hth⟩
    cases hb with
    | lock hm hu hle => exact lock_completes hat hm hu hle
    | setIndex hm hu hlt =>
      exact setIndex_completes hat hm (fun q hq hqm hqu ↦ lock_completes hq hqm hqu hlt)
    | create hm hu hlt =>
      exact create_completes hat hm (fun q hq hqm hqu ↦ lock_completes hq hqm hqu hlt)
    | join k hm hu hk he => exact join_completes (he ▸ hat) hm hk
    | destroy hm => exact destroy_completes hat hm
  | working chunk pre m σ υ pc t hr ho hcar hth hf hb hu hi hlt hx ht hrun =>
    have ha : pc ≠ .absent := client_not_absent hrun
    refine thread_completes hag hr hth (hth.here ▸ hl m) ha hx (fun q hq hqm hqu ↦ ?_)
    cases hb with
    | lock hm => exact lock_completes hq (hqm.trans hm) hqu hlt
    | join k hm hk he => exact join_completes (he ▸ hq) (hqm.trans hm) (by omega)
  | missing chunk pre m σ hs => exact absurd trivial hs
  | dead chunk pre m σ υ t' hm => exact absurd hm hd

end DupDistribute.Distribute

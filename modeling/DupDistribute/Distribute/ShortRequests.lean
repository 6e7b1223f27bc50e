import DupDistribute.Distribute.Requests

/-!
# Requests that arrive cut short

A request is read from whatever one `recv` returns, with zeros for what is missing
(`util.c:160-170`, `playback.c:165-168`). The speed is its last byte (`dataHeader.h:52`), so a
START of less than 14 bytes has speed 0, and with speed 0 no record is ever due
(`playback.c:85`). The replay then neither sends nor ends while its lock file is there, and the
process that serves it handles no other chunk.
-/

namespace DupDistribute.Distribute

open DupDistribute.Base DupDistribute.Wire DupDistribute.Record DupDistribute.Playback

variable {env : Env}

/-! ### Speed 0 -/

/-- With speed 0 no record is due. -/
theorem gateOpen_speed_zero (fileTime starttime : CString) (playtime now : UInt32) :
    gateOpen fileTime starttime 0 playtime now = false := by
  simp [gateOpen]

/-- A chunk of less than 14 bytes spells speed 0. -/
theorem speed_of_short {chunk : List UInt8} (h : chunk.length < sizeofReplayProtocol) :
    (ReplayProtocol.ofChunk chunk).Speed = 0 := by
  have hlen : chunk.length ≤ 13 := Nat.le_of_lt_succ h
  simp [ReplayProtocol.ofChunk, ReplayProtocol.ofMemory, List.getD_eq_getElem?_getD,
    List.getElem?_eq_none hlen]

/-- A replay step that sends has a speed. -/
private theorem speed_of_scan {args : ScanArgs} {w : Shm} {sc sc' : Scan} {a : ScanInput}
    {es : List ScanEvent} {fd : Int} {buffer : List UInt8} {res : SendResult}
    (h : sc.step args w a = some (sc', es)) (he : ScanEvent.send fd buffer res ∈ es) :
    args.speed ≠ 0 := by
  intro hzero
  cases Scan.does_of_step h with
  | crashed hp ha hc =>
    obtain ⟨path, hes⟩ := (Scan.body_crashed args ha hc).2
    simp [hes] at he
  | worked content hp ha hc => simp [Scan.body, ha, hc, hzero, gateOpen_speed_zero] at he
  | _ => simp at he

/-! ### What a replay was asked for with -/

/-- The place is in the START branch. -/
def inStart : SessionPc → Bool
  | .creat | .serve | .scan _ => true
  | _ => false

private theorem enter_inStart {index : Nat} {request : ReplayProtocol}
    (h : inStart (Session.enter index request).pc = true) :
    request.CommandType = PLAYBACK_START := by
  by_contra hne
  simp only [Session.enter, if_neg hne] at h
  split at h <;> cases h

private theorem does_inStart {address : CString} {acceptfd : Int} {w w' : Shm}
    {a : SessionInput} {s s' : Session} {es : List PlaybackEvent}
    (h : Session.Does env address acceptfd w a s s' w' es) (hs : inStart s'.pc = true) :
    inStart s.pc = true := by
  cases h with
  | created hp | served hp | scanned _ _ _ hp => rw [hp]; rfl
  | _ => cases hs

/-- The chunk asks for a replay, at some speed. -/
structure AsksReplay (chunk : List UInt8) : Prop where
  head : IsPlayback chunk
  command : (ReplayProtocol.ofChunk chunk).CommandType = PLAYBACK_START
  speed : (ReplayProtocol.ofChunk chunk).Speed ≠ 0

/-- What a thread for the chunk has done when it is at `pc`: it has replayed only if the chunk
asks for it. -/
structure AskedFor (chunk : List UInt8) (υ : List ClientEvent) (pc : ClientPc) : Prop where
  here : ∀ fd s, pc = .playback fd s → s.request = .ofChunk chunk ∧ IsPlayback chunk ∧
    (inStart s.pc = true → (ReplayProtocol.ofChunk chunk).CommandType = PLAYBACK_START)
  sent : ∀ fd buffer res, ClientEvent.playback (.scan (.send fd buffer res)) ∈ υ →
    AsksReplay chunk

private theorem askedFor_step {param : ThreadParam} {chunk : List UInt8}
    {υ es : List ClientEvent} {pc pc' : ClientPc} {t t' : Table} {w w' : Shm} {a : ClientInput}
    (hc : param.Carries chunk) (hf : AskedFor chunk υ pc)
    (h : clientStep env param w (pc, t) a = some ((pc', t'), w', es)) :
    AskedFor chunk (υ ++ es) pc' := by
  have keep (here : ∀ fd s, pc' = .playback fd s → s.request = .ofChunk chunk ∧
        IsPlayback chunk ∧
        (inStart s.pc = true → (ReplayProtocol.ofChunk chunk).CommandType = PLAYBACK_START))
      (hes : ∀ fd buffer res, ClientEvent.playback (.scan (.send fd buffer res)) ∈ es →
        AsksReplay chunk) : AskedFor chunk (υ ++ es) pc' := by
    refine ⟨here, fun fd buffer res hm ↦ ?_⟩
    rcases List.mem_append.mp hm with hm | hm
    · exact hf.sent fd buffer res hm
    · exact hes fd buffer res hm
  cases clientDoes_of_step h with
  | enter fd hh =>
    rw [replayOf_eq hc.buf (.inl rfl), ReplayProtocol.ofChunk_head] at hh
    refine keep (fun fd' s hs ↦ ?_) (by simp)
    obtain ⟨-, rfl⟩ := ClientPc.playback.inj hs
    have hreq : replayOf param.buf param.bufSize = .ofChunk chunk :=
      replayOf_eq hc.buf (.inr hc.bufSize)
    rw [hreq]
    exact ⟨rfl, hh, enter_inStart⟩
  | session fd s s' _ es' hs =>
    obtain ⟨hreq, hhead, hstart⟩ := hf.here fd s rfl
    obtain ⟨-, hrequest, -⟩ := Session.does_frame hs
    refine keep (fun fd' s'' hpc ↦ ?_) (fun fd' buffer res hm ↦ ?_)
    · simp only [ClientPc.ofSession] at hpc
      split at hpc
      · cases hpc
      · cases hpc
      · obtain ⟨-, rfl⟩ := ClientPc.playback.inj hpc
        exact ⟨hrequest.trans hreq, hhead, fun hin ↦ hstart (does_inStart hs hin)⟩
    · obtain ⟨e, he, heq⟩ := List.mem_map.mp hm
      obtain rfl := ClientEvent.playback.inj heq
      cases hs with
      | scanned sc sc' es'' hp hscan =>
        obtain ⟨e, he, heq⟩ := List.mem_map.mp he
        obtain rfl := PlaybackEvent.scan.inj heq
        refine ⟨hhead, hstart (by rw [hp]; rfl), fun hzero ↦ speed_of_scan hscan he ?_⟩
        simp only [Session.scanArgs, hreq, hzero]
        rfl
      | _ => simp at he
  | _ => exact keep (by simp) (by simp)

/-- The facts hold along every run of a thread. -/
theorem ThreadRun.askedFor {t₀ t' : Table} {chunk : List UInt8} {i : Nat} {υ : List ClientEvent}
    {pc : ClientPc} (h : ThreadRun env t₀ chunk i υ pc t') : AskedFor chunk υ pc := by
  obtain ⟨param, t, -, hc, -, hrun⟩ := h
  exact hrun.invariant (fun υ s ↦ AskedFor chunk υ s.1) ⟨by simp, by simp⟩
    (fun _ _ _ _ _ _ _ hf _ hs ↦ askedFor_step hc hf hs)

private theorem getElem?_of_getD {chunk : List UInt8} {i : Nat} (h : chunk.getD i 0 ≠ 0) :
    chunk[i]? = some (chunk.getD i 0) := by
  rw [List.getD_eq_getElem?_getD] at h ⊢
  cases hi : chunk[i]? with
  | none => simp [hi] at h
  | some b => simp

/-- For every interleaving of any number of processes and every outcome of their calls: a record
is sent only in answer to a request that arrived whole, with the command START and a speed that
is not 0. -/
theorem replay_needs_whole_request {ι : Type} [DecidableEq ι] {S₀ S : Sys ι World Proc}
    {τ : List (ι × Event)} {p : ι} {j i : Nat} {fd : Int} {buffer : List UInt8}
    {res : SendResult} (h₀ : ∀ p, (S₀.procs p).Waiting)
    (h : ((process env).interleave ι).Open S₀ τ S)
    (he : (p, Event.client j i (.playback (.scan (.send fd buffer res)))) ∈ τ) :
    ∃ chunk, (p, Event.recv chunk) ∈ τ ∧ IsPlayback chunk ∧ chunk[4]? = some PLAYBACK_START ∧
      ∃ speed, chunk[13]? = some speed ∧ speed ≠ 0 := by
  have hchunked := chunked_of_open (h₀ p) (h.project p)
  obtain ⟨chunk, σ, htrace, hmem, hsub⟩ :=
    hchunked.event (Machine.mem_eventsOf.mpr he) (by simp)
  obtain ⟨υ, pc, t', hrun, hυ, -⟩ := htrace.threads j i _ hmem
  obtain ⟨hhead, hcommand, hspeed⟩ := hrun.askedFor.sent fd buffer res hυ
  refine ⟨chunk, Machine.mem_eventsOf.mp (hsub htrace.received), hhead, ?_, _,
    getElem?_of_getD hspeed, hspeed⟩
  have hone : chunk.getD 4 0 = PLAYBACK_START := hcommand
  rw [getElem?_of_getD (by rw [hone]; decide), hone]

/-- The table of a connection from the only client. -/
def fromClient : Table := fun i ↦
  if i = 0 then { clientNum := 1, acceptedAddress := ['c'] } else { address := ['c'] }

/-- One of two processes gets a whole request and sends the record that it finds. -/
theorem replay_needs_whole_request_two_processes :
    let env : Env := ⟨['d'], fun _ ↦ ['1']⟩
    let S₀ : Sys Bool World Proc := ⟨fun _ ↦ Proc.forked fromClient 0, ⟨∅, ⟨∅, fun _ ↦ none⟩⟩⟩
    ∃ τ S, ((process env).interleave Bool).Open S₀ τ S ∧
      (true, Event.client 0 1 (.playback (.scan (.send 5 [7] (.sent 1))))) ∈ τ ∧
      ∃ chunk, (true, Event.recv chunk) ∈ τ ∧ IsPlayback chunk ∧
        chunk[4]? = some PLAYBACK_START ∧ ∃ speed, chunk[13]? = some speed ∧ speed ≠ 0 := by
  intro env S₀
  let start : List UInt8 := [0x88, 0x88, 0x88, 0x88, 1, 0, 0, 0, 0, 9, 0, 0, 0, 1]
  let replay : ClientInput :=
    { socket := .connected 5, session := { scan := { listing := some [['1', '_', '0']] } } }
  let due : ClientInput :=
    { session := { scan := { now := 10, staleTime := ['1'], content := some [7],
                             send := .sent 1 } } }
  obtain ⟨τ, S, hrun, hsent⟩ := Machine.exec_observe ((process env).interleave Bool)
    (fun _ _ _ ↦ true) S₀
    ([((), true, .main { chunk := some start })] ++ List.replicate 5 ((), true, .main {}) ++
      List.replicate 6 ((), true, .client 0 replay) ++ [((), true, .client 0 due)])
    (fun _ τ ↦ (true, Event.client 0 1 (.playback (.scan (.send 5 [7] (.sent 1))))) ∈ τ)
    (fun _ _ _ _ ↦ trivial) (by decide +kernel)
  exact ⟨τ, S, hrun, hsent,
    replay_needs_whole_request (fun _ ↦ Proc.forked_waiting fromClient 0) hrun hsent⟩

/-! ### A replay without speed -/

/-- A replay inside its loop, at a record. -/
structure Looping (sc : Scan) : Prop where
  place : sc.pc = .check ∨ sc.pc = .body
  inside : sc.i < sc.namelist.length

/-- With the lock file in place, its records readable and no second `free` that ends the process,
a replay with speed 0 goes round. -/
private theorem looping_step {args : ScanArgs} {w : Shm} {sc sc' : Scan} {a : ScanInput}
    {es : List ScanEvent} (hl : Looping sc) (hspeed : args.speed = 0)
    (hlock : shmFile args.address ∈ w) (hread : a.content ≠ none) (hfree : a.freeAborts = false)
    (h : sc.step args w a = some (sc', es)) : Looping sc' ∧ sc'.i = sc.i := by
  cases Scan.does_of_step h with
  | unlisted hp | listed _ hp => rcases hl.place with hc | hc <;> simp [hc] at hp
  | passed => exact ⟨⟨.inr rfl, hl.inside⟩, rfl⟩
  | stopped _ _ hno => exact absurd hlock hno
  | finished _ hi => exact absurd hl.inside hi
  | aborted hp ha => simp [Scan.aborts, hfree] at ha
  | crashed hp ha hc => exact absurd hc hread
  | worked content hp ha hc =>
    simp only [Scan.body, ha, hc, hspeed, gateOpen_speed_zero, Bool.false_eq_true, ↓reduceIte]
    exact ⟨⟨.inl rfl, hl.inside⟩, trivial⟩

/-- Thread `j` replays without speed and is at record `n`. -/
def Proc.Speedless (j n : Nat) (p : Proc) : Prop :=
  ∃ fd s sc, p.threads j = .playback fd s ∧ s.pc = .scan sc ∧ Looping sc ∧ sc.i = n ∧
    s.request.Speed = 0

/-- A process that has received nothing but short chunks replays without speed. -/
theorem speedless_of_short {p₀ p : Proc} {τ : List Event} {j : Nat} {fd : Int} {s : Session}
    {sc : Scan} (h₀ : p₀.Waiting) (h : (process env).Open p₀ τ p)
    (hshort : ∀ chunk, Event.recv chunk ∈ τ → chunk.length < sizeofReplayProtocol)
    (hj : p.threads j = .playback fd s) (hpc : s.pc = .scan sc) (hloop : Looping sc) :
    p.Speedless j sc.i := by
  obtain ⟨-, done, cur, rfl, -, hst⟩ := chunked_of_open h₀ h
  have hactive : ¬ (p.threads j = .absent ∨ p.threads j = .exited) := by simp [hj]
  obtain ⟨chunk, υ, hrecv, hrun⟩ := (hst.working_of_active hactive).run
  obtain ⟨-, hrequest, -⟩ := hrun.facts.session fd s hj
  refine ⟨fd, s, sc, hj, hpc, hloop, rfl, ?_⟩
  rw [hrequest]
  exact speed_of_short (hshort chunk (List.mem_append_right _ hrecv))

/-- The thread's lock file is there, the record that it opens can be read, and to free its entry
a second time does not end the process. -/
def LockStays (j : Nat) (w : World) (p : Proc) : Act → Prop
  | .client k i => k = j → shmFile (p.tcpInfo (j + 1)).address ∈ w.shm ∧
      i.session.scan.content ≠ none ∧ i.session.scan.freeAborts = false
  | .main _ => True

instance (j : Nat) (w : World) (p : Proc) : (a : Act) → Decidable (LockStays j w p a)
  | .client _ _ => inferInstanceAs (Decidable (_ → _))
  | .main _ => inferInstanceAs (Decidable True)

/-- The event is one of the replay of thread `j`, and no send. -/
def QuietReplay (j : Nat) (e : Event) : Prop :=
  ∃ se, e = .client j (j + 1) (.playback (.scan se)) ∧ ∀ fd buffer res, se ≠ .send fd buffer res

section
variable {p p' : Proc} {t₀ : Table} {w w' : World} {es : List Event} {j n : Nat}

private theorem Proc.Speedless.working (h : p.Speedless j n) (hsound : p.Sound env t₀) :
    ∃ cur, p.Working env t₀ j cur := by
  obtain ⟨fd, s, sc, hj, -⟩ := h
  obtain ⟨cur, hst⟩ := hsound.stage
  exact ⟨cur, hst.working_of_active (by simp [hj])⟩

/-- Main waits for the thread. -/
private theorem speedless_main {a : MainInput} (h : p.Speedless j n) (hsound : p.Sound env t₀)
    (hs : p.step env w (.main a) = some (p', w', es)) : p'.Speedless j n ∧ es = [] := by
  obtain ⟨cur, hw⟩ := h.working hsound
  have hmain : (∃ i, p.main = .lock i) ∨ ∃ i, p.main = .join i := by
    cases hw.blocked with
    | lock hm => exact .inl ⟨_, hm⟩
    | join k hm => exact .inr ⟨k, hm⟩
  cases Proc.mainDoes_of_step hs with
  | lock | allCreated | join | allJoined => exact ⟨h, rfl⟩
  | _ => simp_all

private theorem speedless_client {k : Nat} {a : ClientInput} (h : p.Speedless j n)
    (hsound : p.Sound env t₀) (hc : LockStays j w p (.client k a))
    (hs : p.step env w (.client k a) = some (p', w', es)) :
    p'.Speedless j n ∧ ∀ e ∈ es, QuietReplay j e := by
  obtain ⟨cur, hw⟩ := h.working hsound
  obtain ⟨fd, s, sc, hj, hpc, hloop, rfl, hspeed⟩ := h
  obtain ⟨pc', t', shm', es', hcl, rfl, -, rfl⟩ := Proc.client_step hs
  have hk : k = j := by
    by_contra hne
    simp [clientStep_resting (hw.alone k hne)] at hcl
  subst hk
  obtain ⟨hlock, hread, hfree⟩ := hc rfl
  obtain ⟨chunk, υ, -, hrun⟩ := hw.run
  obtain ⟨hindex, -⟩ := hrun.facts.session fd s hj
  rw [hj] at hcl
  cases clientDoes_of_step hcl with
  | session fd s s' shm' es'' hdoes =>
    cases hdoes with
    | scanned sc' sc'' es₀ hp hscan =>
      obtain rfl := SessionPc.scan.inj (hpc.symm.trans hp)
      have hargs :
          (s.scanArgs (p.tcpInfo s.index).address (p.tcpInfo s.index).acceptfd).speed = 0 := by
        simp only [Session.scanArgs, hspeed]
        rfl
      have haddress : shmFile (p.tcpInfo s.index).address ∈ w.shm := by
        rw [hindex]
        exact hlock
      obtain ⟨hloop', hsame⟩ := looping_step hloop hargs haddress hread hfree hscan
      have hstay : ClientPc.ofSession fd { s with pc := .ofScan sc'' } =
          .playback fd { s with pc := .scan sc'' } := by
        rcases hloop'.place with hp' | hp' <;> simp [ClientPc.ofSession, SessionPc.ofScan, hp']
      refine ⟨⟨fd, { s with pc := .scan sc'' }, sc'', ?_, rfl, hloop', hsame, hspeed⟩, ?_⟩
      · rw [hstay, Proc.afterClient_of_ne (by simp)]
        exact Function.update_self ..
      · intro e he
        simp only [List.map_map, List.mem_map, Function.comp_apply] at he
        obtain ⟨se, hse, rfl⟩ := he
        refine ⟨se, by rw [hw.index], ?_⟩
        rintro fd' buffer res rfl
        exact speed_of_scan hscan hse hargs
    | _ => simp_all

end

/-- For every process and every state in which one of its threads replays with speed 0, and in
every run from there in which the lock file of that client is there, its records can be read and
no second `free` of an entry ends the process: the thread stays at its record, the process does
not get to its next `recv`, and all it does is to look for the lock file and to read that record
again. -/
theorem speedless_replay_never_ends {p₀ p p' : Proc} {τ₀ τ : List Event} {j n : Nat}
    (h₀ : p₀.Waiting) (h : (process env).Open p₀ τ₀ p) (hj : p.Speedless j n)
    (hrun : (process env).RunIn (LockStays j) p τ p') :
    p'.Speedless j n ∧ p'.main ≠ .recv ∧ ∀ e ∈ τ, QuietReplay j e := by
  have hsound : p.Sound env p₀.tcpInfo := h.invariant (fun _ p ↦ p.Sound env p₀.tcpInfo) h₀.sound
    (fun _ _ _ _ _ _ _ hp _ hs ↦ hp.step hs)
  obtain ⟨hsound', hj', hquiet⟩ := hrun.invariant
    (fun τ p ↦ p.Sound env p₀.tcpInfo ∧ p.Speedless j n ∧ ∀ e ∈ τ, QuietReplay j e)
    ⟨hsound, hj, by simp⟩ (by
      rintro τ p w a p' w' es ⟨hp, hj, hquiet⟩ hc hs
      refine ⟨hp.step hs, ?_⟩
      rw [List.forall_mem_append]
      cases a with
      | main a =>
        obtain ⟨hj', rfl⟩ := speedless_main hj hp hs
        exact ⟨hj', hquiet, by simp⟩
      | client k a =>
        obtain ⟨hj', hes⟩ := speedless_client hj hp hc hs
        exact ⟨hj', hquiet, hes⟩)
  refine ⟨hj', ?_, hquiet⟩
  obtain ⟨cur, hw⟩ := hj'.working hsound'
  cases hw.blocked with
  | lock hm => simp [hm]
  | join k hm => simp [hm]

/-- The thread of the only client has come to the first record of its listing. -/
def atFirstRecord (p : Proc) : Bool :=
  match p.threads 0 with
  | .playback _ s =>
    match s.pc with
    | .scan sc => sc.pc = .check && sc.i = 0 && 0 < sc.namelist.length
    | _ => false
  | _ => false

private theorem looping_of_atFirstRecord {p : Proc} (h : atFirstRecord p = true) :
    ∃ fd s sc, p.threads 0 = .playback fd s ∧ s.pc = .scan sc ∧ Looping sc ∧ sc.i = 0 := by
  simp only [atFirstRecord] at h
  split at h
  · next fd s hj =>
    split at h
    · next sc hpc =>
      simp only [Bool.and_eq_true, decide_eq_true_eq] at h
      obtain ⟨⟨hcheck, hi⟩, hlen⟩ := h
      exact ⟨fd, s, sc, hj, hpc, ⟨.inl hcheck, by omega⟩, hi⟩
    · cases h
  · cases h

/-- The last byte of a START is still to come, and the day directory has a record. -/
theorem speedless_replay_never_ends_cut_start :
    let env : Env := ⟨['d'], fun _ ↦ ['1']⟩
    let start : List UInt8 := [0x88, 0x88, 0x88, 0x88, 1, 0, 0, 0, 0, 9, 0, 0, 0]
    ∃ τ₀ p τ p', (process env).Open (Proc.forked fromClient 0) τ₀ p ∧
      τ₀.filterMap Event.received = [start] ∧ p.Speedless 0 0 ∧
      (process env).RunIn (LockStays 0) p τ p' ∧ τ ≠ [] ∧
      (p'.Speedless 0 0 ∧ p'.main ≠ .recv ∧ ∀ e ∈ τ, QuietReplay 0 e) := by
  intro env start
  let w : World := ⟨{shmFile ['c']}, ⟨∅, fun _ ↦ none⟩⟩
  let replay : ClientInput :=
    { socket := .connected 5, session := { scan := { listing := some [['1', '_', '0']] } } }
  have hexec : ∃ r, r ∈ (process env).exec (fun _ _ _ ↦ true) (Proc.forked fromClient 0)
        ([(w, .main { chunk := some start })] ++ List.replicate 5 (w, .main {}) ++
          List.replicate 5 (w, .client 0 replay)) ∧
      r.2.filterMap Event.received = [start] ∧ atFirstRecord r.1 = true ∧
      ∃ r', r' ∈ (process env).exec (fun w p a ↦ decide (LockStays 0 w p a)) r.1
        (List.replicate 4 (w, .client 0 replay)) ∧ r'.2 ≠ [] := by
    decide +kernel
  obtain ⟨⟨p, τ₀⟩, h₀, hrecv, hfirst, ⟨p', τ⟩, h, hne⟩ := hexec
  have hrun₀ : (process env).Open (Proc.forked fromClient 0) τ₀ p :=
    Machine.exec_run (fun _ _ _ _ ↦ trivial) h₀
  have hrun : (process env).RunIn (LockStays 0) p τ p' :=
    Machine.exec_run (fun _ _ _ ha ↦ of_decide_eq_true ha) h
  have hwait := Proc.forked_waiting fromClient 0
  have hshort (chunk : List UInt8) (hc : Event.recv chunk ∈ τ₀) :
      chunk.length < sizeofReplayProtocol := by
    have hmem : chunk ∈ τ₀.filterMap Event.received := List.mem_filterMap.mpr ⟨_, hc, rfl⟩
    rw [hrecv] at hmem
    rw [List.mem_singleton.mp hmem]
    decide
  obtain ⟨fd, s, sc, hj, hpc, hloop, hi⟩ := looping_of_atFirstRecord hfirst
  have hspeedless : p.Speedless 0 sc.i := speedless_of_short hwait hrun₀ hshort hj hpc hloop
  rw [hi] at hspeedless
  exact ⟨τ₀, p, τ, p', hrun₀, hrecv, hspeedless, hrun, hne,
    speedless_replay_never_ends hwait hrun₀ hspeedless hrun⟩

end DupDistribute.Distribute

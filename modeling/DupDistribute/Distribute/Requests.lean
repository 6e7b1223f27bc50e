import DupDistribute.Distribute.Thread

/-!
# Handling a playback request

`distribute_client_send` copies the head of the request with the size of the struct, but
`playback_run` copies as many bytes as were received (`playback.c:168`); and after
`playback_run`, or for a client that is not the requester, control reaches the forwarding
code of live chunks (`util.c:286-304`).
-/

namespace DupDistribute.Distribute

open DupDistribute.Base DupDistribute.Wire DupDistribute.Record DupDistribute.Playback

variable {env : Env} {t : Table} {chunk : List UInt8}

/-- A run of a process with table `t`, from any state in which it waits for a chunk, that
receives no other chunk than the given one. -/
structure Handles (env : Env) (t : Table) (chunk : List UInt8) (τ : List Event) (p : Proc) :
    Prop where
  run : ∃ p₀ : Proc, p₀.Waiting ∧ p₀.tcpInfo = t ∧ (process env).Open p₀ τ p
  only : ∀ c, Event.recv c ∈ τ → c = chunk

/-- The chunk an event receives. -/
def Event.received : Event → Option (List UInt8)
  | .recv chunk => some chunk
  | _ => none

/-- A run from a fresh process that receives the chunk once. -/
theorem Handles.of_forked {τ : List Event} {p : Proc} {uuid : UInt32}
    (h : (process env).Open (Proc.forked t uuid) τ p)
    (hr : τ.filterMap Event.received = [chunk]) : Handles env t chunk τ p := by
  refine ⟨⟨_, Proc.forked_waiting t uuid, rfl, h⟩, fun c hc ↦ ?_⟩
  have hm : c ∈ τ.filterMap Event.received := List.mem_filterMap.mpr ⟨_, hc, rfl⟩
  rw [hr] at hm
  exact List.mem_singleton.mp hm

private theorem Handles.chunked {τ : List Event} {p : Proc} (h : Handles env t chunk τ p) :
    Chunked env False t τ p := by
  obtain ⟨⟨p₀, hw, rfl, hrun⟩, -⟩ := h
  exact chunked_of_open hw hrun

private theorem Handles.event {τ : List Event} {p : Proc} (h : Handles env t chunk τ p)
    {e : Event} (he : e ∈ τ) (hne : e ≠ .closed) :
    ∃ σ, TraceOf env t (p.main = .recv) chunk σ ∧ e ∈ σ ∧ σ ⊆ τ := by
  obtain ⟨c, σ, ht, hm, hsub⟩ := h.chunked.event he hne
  obtain rfl := h.only c (hsub ht.received)
  exact ⟨σ, ht, hm, hsub⟩

/-! ### Byte copies -/

/-- The byte copy an event makes. -/
def Event.copied : Event → Option Copy
  | .copy c => some c
  | .client _ _ e => e.copied
  | _ => none

/-- Every byte copy of the trace stays inside its destination. -/
def CopiesInside (τ : List Event) : Prop := ∀ e ∈ τ, ∀ c ∈ e.copied, c.InBounds

/-- Every session at work uses the request that the first 14 bytes of the padded chunk
spell. -/
def RequestsSpelled (chunk : List UInt8) (p : Proc) : Prop :=
  ∀ j fd s, p.threads j = .playback fd s →
    s.request = .ofChunk (chunk.take sizeofReplayProtocol)

/-- The request is no longer than the struct, or nobody in the table asked for it. -/
def Fits (t : Table) (chunk : List UInt8) : Prop :=
  IsPlayback chunk → chunk.length ≤ sizeofReplayProtocol ∨
    ∀ i, 1 ≤ i → i ≤ (t 0).clientNum → ¬ t.Requester i

private theorem copiesInside_of_fits {τ : List Event} {p : Proc}
    (hb : chunk.length ≤ MAX_BUFFER_SIZE) (hfit : Fits t chunk)
    (h : Handles env t chunk τ p) : CopiesInside τ := by
  intro e he c hc
  have hne : e ≠ .closed := by
    rintro rfl
    simp [Event.copied] at hc
  obtain ⟨σ, ht, hm, -⟩ := h.event he hne
  cases e with
  | copy c' =>
    obtain rfl : c' = c := by simpa [Event.copied] using hc
    rcases ht.copies c' hm with hl | rfl
    · exact (Copy.inBounds_iff _).mpr (Nat.le_of_eq hl)
    · exact (Copy.inBounds_iff _).mpr hb
  | client k i e =>
    obtain ⟨υ, pc, t', hrun, heυ, -, ⟨h1, hn⟩, -⟩ := ht.threads k i e hm
    rcases hrun.facts.copies e heυ c hc with rfl | ⟨rfl, hp, hreq⟩
    · exact (Copy.inBounds_iff _).mpr (Nat.le_refl _)
    · rcases hfit hp with hl | hnone
      · exact (Copy.inBounds_iff _).mpr hl
      · exact absurd hreq (hnone i h1 hn)
  | _ => simp [Event.copied] at hc

private theorem requestsSpelled_of_handles {τ : List Event} {p : Proc}
    (h : Handles env t chunk τ p) : RequestsSpelled chunk p := by
  intro j fd s hj
  obtain ⟨-, done, cur, rfl, -, hst⟩ := h.chunked
  have hw := hst.working_of_active (j := j) (by simp [hj])
  obtain ⟨c, υ, hm, hrun⟩ := hw.run
  obtain rfl := h.only c (List.mem_append_right _ hm)
  rw [ReplayProtocol.ofChunk_take]
  exact (hrun.facts.session fd s hj).2.1

/-! A request that does not fit can be made to overrun: the clients before the requester
cannot be reached, and the requester can. -/

/-- Main is about to lock for client `m + 1`, with the request in the parameter block. -/
private structure AtLock (t : Table) (chunk : List UInt8) (m : Nat) (p : Proc) : Prop where
  main : p.main = .lock m
  mute : p.mute = false
  table : p.tcpInfo = t
  carries : p.param.Carries chunk

private theorem atLock_zero (env : Env) (t : Table) (hp : IsPlayback chunk)
    (hpos : 0 < chunk.length) (hb : chunk.length ≤ MAX_BUFFER_SIZE) :
    ∃ p, (process env).Open (Proc.forked t 0) (receiveEvents chunk ++ prepareEvents chunk) p ∧
      AtLock (t.setFlag PLAYBACK) chunk 0 p := by
  let w : World := ⟨∅, ⟨∅, fun _ ↦ none⟩⟩
  let buf := Memory.store (Memory.memset (fun _ ↦ 0) MAX_BUFFER_SIZE) chunk
  have hold : Holds buf chunk := holds_receive (fun _ ↦ 0) chunk
  have hk : classify buf = .playback := (classify_playback_iff hold).mpr hp
  have hflag : (t.setFlag PLAYBACK 0).flag ≠ DISTRIBUTE := by
    simp [Table.setFlag, PLAYBACK, DISTRIBUTE]
  have hrun : (process env).exec (fun _ _ _ ↦ true) (Proc.forked t 0)
      [(w, .main { chunk := some chunk }), (w, .main {}), (w, .main {})] =
      some ({ Proc.forked t 0 with
        tcpInfo := t.setFlag PLAYBACK
        receiveBuf := buf
        receiveSize := chunk.length
        param := ⟨Memory.memcpy (fun _ ↦ 0) buf chunk.length, chunk.length, 0⟩
        main := .lock 0 }, receiveEvents chunk ++ prepareEvents chunk) := by
    simp [Machine.exec, process, Proc.step, Proc.mainStep, Proc.receive, Proc.forked, hpos, hb,
      buf, hk, hflag, prepareEvents]
  exact ⟨_, Machine.exec_run (fun _ _ _ _ ↦ trivial) hrun, rfl, rfl, rfl,
    hold.memcpy, rfl, hb⟩

private theorem AtLock.skip (env : Env) {m : Nat} {p : Proc} (h : AtLock t chunk m p)
    (hlt : m < (t 0).clientNum) :
    ∃ p' τ, (process env).Open p τ p' ∧ AtLock t chunk (m + 1) p' ∧
      ∀ c, Event.recv c ∉ τ := by
  obtain ⟨hm, hu, rfl, hc⟩ := h
  let w : World := ⟨∅, ⟨∅, fun _ ↦ none⟩⟩
  have hrun : (process env).exec (fun _ _ _ ↦ true) p
      [(w, .main {}), (w, .main {}), (w, .main {}),
        (w, .client m { socket := .connectFailed }), (w, .client m {})] =
      some ({ p with
        param := { p.param with clientIndex := m + 1 }
        threads := Function.update p.threads m .exited
        main := .lock (m + 1) },
        [.client m (m + 1)
          (.socket (p.tcpInfo (m + 1)).address (p.tcpInfo (m + 1)).port .connectFailed)]) := by
    simp [Machine.exec, process, Proc.step, Proc.mainStep, hm, hu, hlt, clientStep,
      Proc.afterClient]
  exact ⟨_, _, Machine.exec_run (fun _ _ _ _ ↦ trivial) hrun,
    ⟨rfl, hu, rfl, hc.buf, hc.bufSize, hc.bounded⟩, by simp⟩

private theorem AtLock.skips (env : Env) {m : Nat} {p : Proc} (h : AtLock t chunk 0 p)
    (hle : m ≤ (t 0).clientNum) :
    ∃ p' τ, (process env).Open p τ p' ∧ AtLock t chunk m p' ∧ ∀ c, Event.recv c ∉ τ := by
  induction m with
  | zero => exact ⟨p, [], .refl, h, by simp⟩
  | succ m ih =>
    obtain ⟨q, τ, hrun, hq, hτ⟩ := ih (by omega)
    obtain ⟨q', τ', hrun', hq', hτ'⟩ := hq.skip env hle
    exact ⟨q', τ ++ τ', hrun.trans hrun', hq', by simp [hτ, hτ']⟩

private theorem AtLock.overrun (env : Env) {m : Nat} {p : Proc} (h : AtLock t chunk m p)
    (hlt : m < (t 0).clientNum) (hp : IsPlayback chunk) (hreq : t.Requester (m + 1)) :
    ∃ p' τ, (process env).Open p τ p' ∧
      Event.client m (m + 1) (.playback (.copy ⟨sizeofReplayProtocol, chunk.length⟩)) ∈ τ ∧
      ∀ c, Event.recv c ∉ τ := by
  obtain ⟨hm, hu, rfl, hc⟩ := h
  let w : World := ⟨∅, ⟨∅, fun _ ↦ none⟩⟩
  have hhead : (replayOf p.param.buf sizeofReplayProtocol).PacketHead = PLAYBACKHEADER := by
    rw [replayOf_eq hc.buf (.inl rfl), ReplayProtocol.ofChunk_head]
    exact hp
  have haddr : (p.tcpInfo (m + 1)).address = (p.tcpInfo 0).acceptedAddress := hreq
  obtain ⟨τ, p', hrun, hobs⟩ := Machine.exec_observe (process env) (fun _ _ _ ↦ true) p
    [(w, .main {}), (w, .main {}), (w, .main {}), (w, .client m {}), (w, .client m {})]
    (fun _ τ ↦
      Event.client m (m + 1) (.playback (.copy ⟨sizeofReplayProtocol, chunk.length⟩)) ∈ τ ∧
        ∀ c, Event.recv c ∉ τ) (fun _ _ _ _ ↦ trivial) (by
      simp [Machine.exec, process, Proc.step, Proc.mainStep, hm, hu, hlt, clientStep,
        Proc.afterClient, Table.setAcceptfd, hhead, haddr, hc.bufSize])
  exact ⟨p', τ, hrun, hobs⟩

/-- For every table and every chunk: all copies made while handling it stay inside their
destinations, and the request used is the one its first 14 bytes spell, exactly when the
chunk is no request, or is not longer than the struct, or came from no client. -/
theorem copiesInside_iff_fits (env : Env) (t : Table) (chunk : List UInt8)
    (hpos : 0 < chunk.length) (hb : chunk.length ≤ MAX_BUFFER_SIZE) :
    (∀ τ p, Handles env t chunk τ p → CopiesInside τ ∧ RequestsSpelled chunk p) ↔
      Fits t chunk := by
  constructor
  · intro h hp
    by_contra hbad
    simp only [not_or, Nat.not_le, not_forall, not_not] at hbad
    obtain ⟨hlong, i, h1, hn, hreq⟩ := hbad
    obtain ⟨m, rfl⟩ : ∃ m, i = m + 1 := ⟨i - 1, by omega⟩
    have hn' : ((t.setFlag PLAYBACK) 0).clientNum = (t 0).clientNum := by simp [Table.setFlag]
    have hreq' : (t.setFlag PLAYBACK).Requester (m + 1) := by
      simpa [Table.Requester, Table.setFlag] using hreq
    obtain ⟨p₁, hrun₁, h₁⟩ := atLock_zero env t hp hpos hb
    obtain ⟨p₂, τ₂, hrun₂, h₂, hτ₂⟩ := h₁.skips env (m := m) (by omega)
    obtain ⟨p₃, τ₃, hrun₃, hm, hτ₃⟩ := h₂.overrun env (by omega) hp hreq'
    have hh : Handles env t chunk _ p₃ :=
      ⟨⟨Proc.forked t 0, Proc.forked_waiting t 0, rfl, (hrun₁.trans hrun₂).trans hrun₃⟩, by
        simp [hτ₂, hτ₃, receiveEvents, prepareEvents]⟩
    have hin := (h _ _ hh).1 _ (List.mem_append_right _ hm) _ rfl
    rw [Copy.inBounds_iff] at hin
    exact Nat.not_lt.mpr hin hlong
  · intro hfit τ p hh
    exact ⟨copiesInside_of_fits hb hfit hh, requestsSpelled_of_handles hh⟩

/-- A START request as a client sends it: head, command, times and speed. -/
def startRequest : List UInt8 := [0x88, 0x88, 0x88, 0x88, 1, 0, 0, 0, 0, 9, 0, 0, 0, 1]

/-- An END request. -/
def endRequest : List UInt8 := [0x88, 0x88, 0x88, 0x88, 2, 0, 0, 0, 0, 9, 0, 0, 0, 1]

/-- A table with one client, of address `c`, for a connection from the given address. -/
def oneClient (accepted : CString) : Table := fun i ↦
  if i = 0 then { clientNum := 1, acceptedAddress := accepted } else { address := ['c'] }

/-- Two START requests of the client that arrive in one `recv`: 28 bytes are copied into the
struct of 14. -/
theorem coalesced_requests_overrun :
    let chunk := startRequest ++ startRequest
    0 < chunk.length ∧ chunk.length ≤ MAX_BUFFER_SIZE ∧
      ∃ τ p, Handles ⟨['d'], fun _ ↦ ['1']⟩ (oneClient ['c']) chunk τ p ∧ ¬ CopiesInside τ := by
  intro chunk
  refine ⟨by decide, by decide, ?_⟩
  let w : World := ⟨∅, ⟨∅, fun _ ↦ none⟩⟩
  obtain ⟨τ, p, hrun, hr, hm⟩ :=
    Machine.exec_observe (process ⟨['d'], fun _ ↦ ['1']⟩) (fun _ _ _ ↦ true)
      (Proc.forked (oneClient ['c']) 0)
      ((w, .main { chunk := some chunk }) :: List.replicate 5 (w, .main {}) ++
        List.replicate 2 (w, .client 0 {}))
      (fun _ τ ↦ τ.filterMap Event.received = [chunk] ∧
        Event.client 0 1 (.playback (.copy ⟨14, 28⟩)) ∈ τ)
      (fun _ _ _ _ ↦ trivial) (by decide)
  refine ⟨τ, p, .of_forked hrun hr, fun hin ↦ ?_⟩
  exact absurd (hin _ hm _ rfl) (by decide)

/-- One START request of the client has the length of the struct. -/
theorem copiesInside_one_request :
    let env : Env := ⟨['d'], fun _ ↦ ['1']⟩
    (0 < startRequest.length ∧ startRequest.length ≤ MAX_BUFFER_SIZE) ∧
      ∀ τ p, Handles env (oneClient ['c']) startRequest τ p →
        CopiesInside τ ∧ RequestsSpelled startRequest p := by
  intro env
  have hfits : Fits (oneClient ['c']) startRequest := fun _ ↦ .inl (by decide)
  exact ⟨by decide, (copiesInside_iff_fits env (oneClient ['c']) startRequest (by decide)
    (by decide)).mpr hfits⟩

/-! ### Forwarding of requests -/

/-- No client is sent the chunk, and what is replayed are record contents, to the
requester. -/
structure Consumed (t : Table) (τ : List Event) : Prop where
  unsent : ∀ k i fd bytes res, Event.client k i (.send fd bytes res) ∉ τ
  replayed : ∀ k i fd buffer res,
    Event.client k i (.playback (.scan (.send fd buffer res))) ∈ τ → t.Requester i ∧
      ∃ path, Event.client k i (.playback (.scan (.fopen path (some buffer)))) ∈ τ

/-- The lock file of a client is there whenever the client's thread checks for it. -/
def LockedAtChecks (τ : List Event) : Prop :=
  ∀ k i w path, Event.client k i (.access w path) ∈ τ → path ∈ w

/-- Whatever the command, the requester, the client table and the outcome of the playback: a
request is consumed when each lock-file check finds the lock file, and, once it has been
handled, only then. -/
theorem consumed_iff_lockedAtChecks {τ : List Event} {p : Proc}
    (h : Handles env t chunk τ p) :
    (LockedAtChecks τ → Consumed t τ) ∧
      (p.main = .recv → Consumed t τ → LockedAtChecks τ) := by
  have thread {k i : Nat} {e : ClientEvent} (he : Event.client k i e ∈ τ) :
      ∃ υ pc t', ThreadRun env t chunk i υ pc t' ∧ e ∈ υ ∧
        (∀ e' ∈ υ, Event.client k i e' ∈ τ) ∧ (p.main = .recv → pc = .exited) := by
    obtain ⟨σ, ht, hm, hsub⟩ := h.event he (by simp)
    obtain ⟨υ, pc, t', hrun, heυ, hall, -, hd⟩ := ht.threads k i e hm
    exact ⟨υ, pc, t', hrun, heυ, fun e' he' ↦ hsub (hall e' he'), hd⟩
  constructor
  · intro hl
    refine ⟨fun k i fd bytes res he ↦ ?_, fun k i fd buffer res he ↦ ?_⟩
    · obtain ⟨υ, pc, t', hrun, heυ, hall, -⟩ := thread he
      obtain ⟨w, path, hw, hpath⟩ := hrun.facts.sends.mp (.inr ⟨fd, bytes, res, heυ⟩)
      exact hpath (hl k i w path (hall _ hw))
    · obtain ⟨υ, pc, t', hrun, heυ, hall, -⟩ := thread he
      obtain ⟨hreq, path, hp⟩ := hrun.facts.replays fd buffer res heυ
      exact ⟨hreq, path, hall _ hp⟩
  · intro hd hcon k i w path he
    obtain ⟨υ, pc, t', hrun, heυ, hall, hex⟩ := thread he
    by_contra hpath
    rcases hrun.facts.sends.mpr ⟨w, path, heυ, hpath⟩ with ⟨fd, hpc⟩ | ⟨fd, bytes, res, hs⟩
    · rw [hex hd] at hpc
      cases hpc
    · exact hcon.unsent k i fd bytes res (hall _ hs)

/-- A START request from an address that is not in the table, with no lock files: the one
client is sent the request. -/
theorem request_forwarded :
    IsPlayback startRequest ∧
      ∃ τ p, Handles ⟨['d'], fun _ ↦ ['1']⟩ (oneClient ['x']) startRequest τ p ∧
        Event.client 0 1 (.send 5 startRequest (.sent 14)) ∈ τ ∧
        ¬ Consumed (oneClient ['x']) τ := by
  let w : World := ⟨∅, ⟨∅, fun _ ↦ none⟩⟩
  obtain ⟨τ, p, hrun, hr, hm⟩ :=
    Machine.exec_observe (process ⟨['d'], fun _ ↦ ['1']⟩) (fun _ _ _ ↦ true)
      (Proc.forked (oneClient ['x']) 0)
      ((w, .main { chunk := some startRequest }) :: List.replicate 5 (w, .main {}) ++
        List.replicate 4 (w, .client 0 { socket := .connected 5, send := .sent 14 }))
      (fun _ τ ↦ τ.filterMap Event.received = [startRequest] ∧
        Event.client 0 1 (.send 5 startRequest (.sent 14)) ∈ τ)
      (fun _ _ _ _ ↦ trivial) (by decide)
  exact ⟨by decide, τ, p, .of_forked hrun hr, hm, fun hcon ↦ hcon.unsent _ _ _ _ _ hm⟩

/-- The same request while the client's lock file is there. -/
theorem request_consumed_while_locked :
    let env : Env := ⟨['d'], fun _ ↦ ['1']⟩
    let t := oneClient ['x']
    ∃ τ p, Handles env t startRequest τ p ∧ p.main = .recv ∧
      Event.client 0 1 (.access {shmFile ['c']} (shmFile ['c'])) ∈ τ ∧
      LockedAtChecks τ ∧ Consumed t τ := by
  intro env t
  let w : World := ⟨{shmFile ['c']}, ⟨∅, fun _ ↦ none⟩⟩
  let found (e : Event) : Bool := match e with
    | .client _ _ (.access w path) => decide (path ∈ w)
    | _ => true
  obtain ⟨τ, p, hrun, hr, hm, hc, hall⟩ :=
    Machine.exec_observe (process env) (fun _ _ _ ↦ true) (Proc.forked t 0)
      ((w, .main { chunk := some startRequest }) :: List.replicate 5 (w, .main {}) ++
        List.replicate 5 (w, .client 0 { socket := .connected 5 }) ++
        List.replicate 4 (w, .main {}))
      (fun p τ ↦ τ.filterMap Event.received = [startRequest] ∧ p.main = .recv ∧
        Event.client 0 1 (.access {shmFile ['c']} (shmFile ['c'])) ∈ τ ∧ τ.all found = true)
      (fun _ _ _ _ ↦ trivial) (by decide)
  have hh : Handles env t startRequest τ p := .of_forked hrun hr
  have hl : LockedAtChecks τ := fun k i w path he ↦
    of_decide_eq_true (List.all_eq_true.mp hall _ he)
  exact ⟨τ, p, hh, hm, hc, hl, (consumed_iff_lockedAtChecks hh).1 hl⟩

end DupDistribute.Distribute

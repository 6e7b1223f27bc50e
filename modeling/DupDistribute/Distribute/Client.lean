import DupDistribute.Playback.Session

/-!
# A client thread

`distribute_client_send` (`util.c:251-313`) with `distribute_client_socket`
(`util.c:98-132`). The thread reads `thread_param->clientIndex` again at each use, so the
parameter block is an argument of every step and not part of the thread's state. The
thread ends by unlocking `mute`; the lock itself belongs to the process.

`send` reports a broken link by its return value: `SIGPIPE`, which ends the whole process, is
outside the model. Left out as well are addresses of more than 121 characters, with which
`shmFile` (`util.c:287-289`) overruns its 128 bytes.
-/

namespace DupDistribute.Distribute

open DupDistribute.Base DupDistribute.Wire DupDistribute.Record DupDistribute.Playback

/-- `DISTRIBUTE_TCP_INFO`, `util.h:36-43`. -/
structure TcpInfo where
  address : CString := []
  acceptedAddress : CString := []
  port : Int := 0
  acceptfd : Int := 0
  clientNum : Nat := 0
  flag : Nat := 0
  deriving DecidableEq

/-- The array `distributeTcpInfo`: entry 0 is the server, entries 1 to `clientNum` the
clients. -/
abbrev Table := Nat → TcpInfo

/-- Assignment to `distributeTcpInfo[index].acceptfd`. -/
def Table.setAcceptfd (t : Table) (index : Nat) (fd : Int) : Table :=
  Function.update t index { t index with acceptfd := fd }

/-- `THREAD_PARAM`, `util.h:30-34`. -/
structure ThreadParam where
  buf : Memory
  bufSize : Nat
  clientIndex : Nat

/-- Outcome of `distribute_client_socket`: the call that failed, or the connected socket. -/
inductive SocketResult where
  | socketFailed
  | setsockoptFailed
  | connectFailed
  | connected (fd : Int)
  deriving DecidableEq, Repr

/-- What a client thread's step does. A lock-file check carries the lock files that exist
when it is made. -/
inductive ClientEvent where
  | socket (address : CString) (port : Int) (res : SocketResult)
  | copy (c : Copy)
  | playback (e : PlaybackEvent)
  | access (shm : Shm) (path : CString)
  | send (fd : Int) (bytes : List UInt8) (res : SendResult)
  | close (fd : Int)
  deriving DecidableEq

/-- Where a client thread is; `absent` before its creation. -/
inductive ClientPc where
  | absent
  | start
  | header (fd : Int)
  | playback (fd : Int) (s : Session)
  | check (fd : Int)
  | send (fd : Int)
  | close (fd : Int)
  | unlock
  | exited
  | crashed
  deriving DecidableEq

/-- Outcomes the environment chooses for a client step. -/
structure ClientInput where
  socket : SocketResult := .connected 0
  session : SessionInput := {}
  send : SendResult := .sent 0

/-- No `send` of the step raises `SIGPIPE`. -/
def ClientInput.Unsignalled (a : ClientInput) : Prop :=
  a.send ≠ .failed EPIPE ∧ a.session.scan.send ≠ .failed EPIPE

instance (a : ClientInput) : Decidable a.Unsignalled := inferInstanceAs (Decidable (_ ∧ _))

/-- The request as both copies into a `ReplayProtocol` see it: `memset`, then `memcpy` of
`n` bytes, of which the struct holds the first 14. -/
def replayOf (buf : Memory) (n : Nat) : ReplayProtocol :=
  ReplayProtocol.ofMemory (Memory.memcpy (fun _ ↦ 0) buf n)

/-- Both copies give the request that the chunk spells: the first 14 bytes of the padded
chunk, or all of a chunk that is shorter. -/
theorem replayOf_eq {buf : Memory} {chunk : List UInt8} {n : Nat} (h : Holds buf chunk)
    (hn : n = sizeofReplayProtocol ∨ n = chunk.length) :
    replayOf buf n = .ofChunk chunk := by
  apply ReplayProtocol.ofMemory_congr
  intro i hi
  have hm : sizeofReplayProtocol ≤ MAX_BUFFER_SIZE := by decide
  simp only [Memory.memcpy]
  split
  · exact h i (by omega)
  · have hl : chunk.length ≤ i := by omega
    simp [List.getD_eq_getElem?_getD, List.getElem?_eq_none hl]

/-- The place after a step of `playback_run`. -/
def ClientPc.ofSession (fd : Int) (s : Session) : ClientPc :=
  match s.pc with
  | .returned => .check fd
  | .crashed => .crashed
  | _ => .playback fd s

/-- One step of a client thread. -/
def clientStep (env : Env) (param : ThreadParam) (w : Shm) (s : ClientPc × Table)
    (a : ClientInput) : Option ((ClientPc × Table) × Shm × List ClientEvent) :=
  let t := s.2
  let index := param.clientIndex
  match s.1 with
  | .absent => none
  | .start =>
    let e := ClientEvent.socket (t index).address (t index).port a.socket
    match a.socket with
    | .connected fd => some ((.header fd, t.setAcceptfd index fd), w, [e])
    | _ => some ((.unlock, t), w, [e])
  | .header fd =>
    let copied : ClientEvent := .copy ⟨sizeofReplayProtocol, sizeofReplayProtocol⟩
    if (replayOf param.buf sizeofReplayProtocol).PacketHead = PLAYBACKHEADER ∧
        (t index).address = (t 0).acceptedAddress then
      -- `playback_run` copies as many bytes as were received, `playback.c:168`.
      some ((.playback fd (.enter index (replayOf param.buf param.bufSize)), t), w,
        [copied, .playback (.copy ⟨sizeofReplayProtocol, param.bufSize⟩)])
    else some ((.check fd, t), w, [copied])
  | .playback fd session =>
    (session.step env (t session.index).address (t session.index).acceptfd w a.session).map
      (fun r ↦ ((.ofSession fd r.1, t), r.2.1, r.2.2.map .playback))
  | .check fd =>
    let path := shmFile (t index).address
    if path ∈ w then some ((.close fd, t), w, [.access w path])
    else some ((.send fd, t), w, [.access w path])
  | .send fd =>
    some ((.close fd, t), w, [.send fd (param.buf.read param.bufSize) a.send])
  | .close fd => some ((.unlock, t), w, [.close fd])
  | .unlock => some ((.exited, t), w, [])
  | .exited => none
  | .crashed => none

/-- A client thread with a fixed parameter block, over the lock files. -/
def client (env : Env) (param : ThreadParam) :
    Machine Shm (ClientPc × Table) ClientInput ClientEvent where
  step := clientStep env param

/-- Everything a client step can do, by program point and outcome. -/
inductive ClientDoes (env : Env) (param : ThreadParam) (w : Shm) (a : ClientInput)
    (t : Table) : ClientPc → ClientPc → Table → Shm → List ClientEvent → Prop where
  | connected (fd : Int) (h : a.socket = .connected fd) :
      ClientDoes env param w a t .start (.header fd) (t.setAcceptfd param.clientIndex fd) w
        [.socket (t param.clientIndex).address (t param.clientIndex).port (.connected fd)]
  | notConnected (h : ∀ fd, a.socket ≠ .connected fd) :
      ClientDoes env param w a t .start .unlock t w
        [.socket (t param.clientIndex).address (t param.clientIndex).port a.socket]
  | enter (fd : Int)
      (hh : (replayOf param.buf sizeofReplayProtocol).PacketHead = PLAYBACKHEADER)
      (ha : (t param.clientIndex).address = (t 0).acceptedAddress) :
      ClientDoes env param w a t (.header fd)
        (.playback fd (.enter param.clientIndex (replayOf param.buf param.bufSize))) t w
        [.copy ⟨sizeofReplayProtocol, sizeofReplayProtocol⟩,
          .playback (.copy ⟨sizeofReplayProtocol, param.bufSize⟩)]
  | skip (fd : Int)
      (h : ¬ ((replayOf param.buf sizeofReplayProtocol).PacketHead = PLAYBACKHEADER ∧
        (t param.clientIndex).address = (t 0).acceptedAddress)) :
      ClientDoes env param w a t (.header fd) (.check fd) t w
        [.copy ⟨sizeofReplayProtocol, sizeofReplayProtocol⟩]
  | session (fd : Int) (s s' : Session) (w' : Shm) (es : List PlaybackEvent)
      (h : Session.Does env (t s.index).address (t s.index).acceptfd w a.session s s' w' es) :
      ClientDoes env param w a t (.playback fd s) (.ofSession fd s') t w' (es.map .playback)
  | locked (fd : Int) (h : shmFile (t param.clientIndex).address ∈ w) :
      ClientDoes env param w a t (.check fd) (.close fd) t w
        [.access w (shmFile (t param.clientIndex).address)]
  | unlocked (fd : Int) (h : shmFile (t param.clientIndex).address ∉ w) :
      ClientDoes env param w a t (.check fd) (.send fd) t w
        [.access w (shmFile (t param.clientIndex).address)]
  | send (fd : Int) :
      ClientDoes env param w a t (.send fd) (.close fd) t w
        [.send fd (param.buf.read param.bufSize) a.send]
  | close (fd : Int) : ClientDoes env param w a t (.close fd) .unlock t w [.close fd]
  | unlock : ClientDoes env param w a t .unlock .exited t w []

/-- The step function does nothing else. -/
theorem clientDoes_of_step {env : Env} {param : ThreadParam} {w w' : Shm} {a : ClientInput}
    {pc pc' : ClientPc} {t t' : Table} {es : List ClientEvent}
    (h : clientStep env param w (pc, t) a = some ((pc', t'), w', es)) :
    ClientDoes env param w a t pc pc' t' w' es := by
  cases pc with
  | absent | exited | crashed => simp [clientStep] at h
  | start =>
    cases ha : a.socket with
    | connected fd =>
      simp only [clientStep, ha, Option.some.injEq, Prod.mk.injEq] at h
      obtain ⟨⟨rfl, rfl⟩, rfl, rfl⟩ := h
      exact .connected fd ha
    | socketFailed | setsockoptFailed | connectFailed =>
      simp only [clientStep, ha, Option.some.injEq, Prod.mk.injEq] at h
      obtain ⟨⟨rfl, rfl⟩, rfl, rfl⟩ := h
      rw [← ha]
      exact .notConnected (by simp [ha])
  | header fd =>
    simp only [clientStep] at h
    split at h <;> next hc =>
      simp only [Option.some.injEq, Prod.mk.injEq] at h
      obtain ⟨⟨rfl, rfl⟩, rfl, rfl⟩ := h
      first
      | exact .enter fd hc.1 hc.2
      | exact .skip fd hc
  | playback fd s =>
    simp only [clientStep, Option.map_eq_some_iff] at h
    obtain ⟨⟨s', w₁, es'⟩, hs, he⟩ := h
    simp only [Prod.mk.injEq] at he
    obtain ⟨⟨rfl, rfl⟩, rfl, rfl⟩ := he
    exact .session fd s s' w₁ es' (Session.does_of_step hs)
  | check fd =>
    simp only [clientStep] at h
    split at h <;> next hc =>
      simp only [Option.some.injEq, Prod.mk.injEq] at h
      obtain ⟨⟨rfl, rfl⟩, rfl, rfl⟩ := h
      first
      | exact .locked fd hc
      | exact .unlocked fd hc
  | send fd =>
    simp only [clientStep, Option.some.injEq, Prod.mk.injEq] at h
    obtain ⟨⟨rfl, rfl⟩, rfl, rfl⟩ := h
    exact .send fd
  | close fd =>
    simp only [clientStep, Option.some.injEq, Prod.mk.injEq] at h
    obtain ⟨⟨rfl, rfl⟩, rfl, rfl⟩ := h
    exact .close fd
  | unlock =>
    simp only [clientStep, Option.some.injEq, Prod.mk.injEq] at h
    obtain ⟨⟨rfl, rfl⟩, rfl, rfl⟩ := h
    exact .unlock

end DupDistribute.Distribute

import DupDistribute.Config.ClientTable
import DupDistribute.Server.Tree
import DupDistribute.Wire.Address

/-!
# Where the sockets go

The way from `engine.conf` to the network: `main` reads the table (`server.c:5-31`),
`distribute_server` binds to the address and port of entry 0 (`util.c:12-55`), the client threads
connect to those of their own entries (`util.c:118-123`), and a request is served by the client
whose configured address is, as a text, the one `inet_ntoa` gives for the peer (`util.c:67-68`,
`util.c:277-278`). The processes of the tree keep the settings they were started with. Calls of
`LogWrite` outside `parseFile_distributeTcpInfo` are left out.
-/

namespace DupDistribute.Server

open DupDistribute.Base DupDistribute.Wire DupDistribute.Distribute DupDistribute.Config
open DupDistribute.Playback (Shm Session ScanEvent PlaybackEvent Scan)
open DupDistribute.Record (Env)

/-! ### The code -/

/-- `struct sockaddr_in`: port and address as they stand in memory. -/
structure SockAddr where
  sinPort : UInt8 × UInt8
  sinAddr : InAddr
  deriving DecidableEq

/-- The port that the other side sees. -/
def SockAddr.port (a : SockAddr) : Nat := a.sinPort.1.toNat * 256 + a.sinPort.2.toNat

/-- `htons` of an `int`, of which it takes the lower half. -/
def htons (port : Int) : UInt8 × UInt8 :=
  let p := (port % 65536).toNat
  (UInt8.ofNat (p / 256), UInt8.ofNat p)

/-- `addr` in `distribute_server`, `util.c:33-36`, and in `distribute_client_socket`,
`util.c:118-121`. -/
def sockaddr (address : CString) (port : Int) : SockAddr := ⟨htons port, inetAddr address⟩

/-- Outcomes of the calls before the accept loop. -/
structure StartInput where
  socket : Bool := true
  setsockopt : Bool := true
  bind : Bool := true
  listen : Bool := true

/-- What the server does before the accept loop. -/
inductive StartEvent where
  | socket (ok : Bool)
  | setsockopt (ok : Bool)
  | bind (addr : SockAddr) (ok : Bool)
  | listen (ok : Bool)
  | close
  | exited
  deriving DecidableEq

/-- `distribute_server` up to its accept loop, `util.c:13-54`. -/
def distributeServer (t : Table) (a : StartInput) : List StartEvent × Option Tree :=
  let addr := sockaddr (t 0).address (t 0).port
  if a.socket = false then ([.socket false, .exited], none)
  else if a.setsockopt = false then
    ([.socket true, .setsockopt false, .close, .exited], none)
  else if a.bind = false then
    ([.socket true, .setsockopt true, .bind addr false, .close, .exited], none)
  else if a.listen = false then
    ([.socket true, .setsockopt true, .bind addr true, .listen false, .close, .exited], none)
  else
    ([.socket true, .setsockopt true, .bind addr true, .listen true], some (Tree.start t))

/-- The array that `parseFile_distributeTcpInfo` leaves. -/
def asTable (table : List TcpInfo) : Table := fun i ↦ table.getD i {}

/-- `main`, `server.c:5-31`, with the content of `engine.conf`. -/
def serverMain (heap : Heap) (logs : Logs) (file : Option (List Char)) (a : StartInput) :
    Except TableStop (List StartEvent × Option Tree) :=
  (parseFileDistributeTcpInfo heap logs file).map
    (fun table ↦ distributeServer (asTable table) a)

/-! ### Numbers and addresses -/

theorem port_htons {port : Nat} (h : port < 65536) (ip : InAddr) :
    (⟨htons port, ip⟩ : SockAddr).port = port := by
  have hmod : ((port : Int) % 65536).toNat = port := by omega
  simp only [SockAddr.port, htons, hmod, UInt8.toNat_ofNat']
  omega

/-- The address and the port that two settings name. -/
theorem sockaddr_eq {val : CString} {port : Nat} (hval : IsDecimal val port) (h : port < 65536)
    (ip : InAddr) :
    (sockaddr (inetNtoa ip) (atoi val).toInt).sinAddr = ip ∧
      (sockaddr (inetNtoa ip) (atoi val).toInt).port = port := by
  have hint : (Int32.ofInt port).toInt = port := Int32.toInt_ofInt_of_le (by omega) (by omega)
  have hatoi : (atoi val).toInt = port := by
    rw [← hint] at hval
    rw [atoi_of_isDecimal hval, hint]
  rw [hatoi]
  exact ⟨inetAddr_inetNtoa ip, port_htons h _⟩

/-! ### What a process sends -/

/-- The descriptor and the bytes of an event that sends. -/
def sent : ClientEvent → Option (Int × List UInt8)
  | .send fd bytes _ => some (fd, bytes)
  | .playback (.scan (.send fd buffer _)) => some (fd, buffer)
  | _ => none

/-- The event sends a record. -/
def replays : ClientEvent → Bool
  | .playback (.scan (.send ..)) => true
  | _ => false

/-- What thread `j` asked `distribute_client_socket` for, and what it got. -/
def socketOf (j : Nat) : Event → Option (CString × Int × SocketResult)
  | .client k _ (.socket address port res) => if k = j then some (address, port, res) else none
  | _ => none

/-- The connected socket that a client thread works with. -/
def socketAt : ClientPc → Option Int
  | .header fd | .playback fd _ | .check fd | .send fd | .close fd => some fd
  | _ => none

variable {env : Env} {t t₀ : Table} {T T' : Tree} {w w' : World}

/-- A send is made on the socket that the same thread opened last, under the settings of its own
client, which for a record is the one that asked. -/
def Outgoing (t₀ : Table) (before : List Event) (e : Event) : Prop :=
  ∀ j i ce fd bytes, e = .client j i ce → sent ce = some (fd, bytes) →
    i ≤ (t₀ 0).clientNum ∧
      (before.filterMap (socketOf j)).getLast? =
        some ((t₀ i).address, (t₀ i).port, .connected fd) ∧
      (replays ce = true → t₀.Requester i)

/-- A process so far: its sends, and the socket of the thread that works. -/
structure Connected (env : Env) (t₀ : Table) (υ : List Event) (p : Proc) : Prop where
  sound : p.Sound env t₀
  sends : Always (Outgoing t₀) υ
  here : ∀ j fd, socketAt (p.threads j) = some fd →
    (p.tcpInfo (j + 1)).acceptfd = fd ∧ (υ.filterMap (socketOf j)).getLast? =
      some ((t₀ (j + 1)).address, (t₀ (j + 1)).port, .connected fd)

private theorem connected_main {υ es : List Event} {p p' : Proc} {a : MainInput}
    (h : Connected env t₀ υ p) (hs : p.step env w (.main a) = some (p', w', es)) :
    Connected env t₀ (υ ++ es) p' := by
  have hquiet : ∀ e ∈ es, ∀ j i ce, e ≠ .client j i ce := by
    cases Proc.mainDoes_of_step hs with
    | received => simp [receiveEvents]
    | _ => simp
  have hsockets (j : Nat) : es.filterMap (socketOf j) = [] := by
    refine List.filterMap_eq_nil_iff.mpr fun e he ↦ ?_
    cases e with
    | client k i ce => exact absurd rfl (hquiet _ he k i ce)
    | _ => rfl
  refine ⟨h.sound.step hs, h.sends.append ?_, fun j fd hj ↦ ?_⟩
  · intro e he before j i ce fd bytes heq
    exact absurd heq (hquiet e he j i ce)
  · rw [List.filterMap_append, hsockets, List.append_nil]
    cases Proc.mainDoes_of_step hs with
    | prepare => simp [socketAt] at hj
    | create i =>
      by_cases hi : j = i
      · subst hi
        simp only [Function.update_self] at hj
        split at hj <;> simp [socketAt] at hj
      · simp only [Function.update_of_ne hi] at hj
        exact h.here j fd hj
    | received chunk =>
      simp only [Proc.receive] at hj ⊢
      split at hj
      all_goals simpa [Table.setFlag, *] using h.here j fd hj
    | _ => exact h.here j fd hj

/-- A replay sends on the descriptor that it was called with. -/
private theorem acceptfd_of_session {address : CString} {acceptfd fd : Int} {shm shm' : Shm}
    {a : Playback.SessionInput} {s s' : Session} {es : List PlaybackEvent} {buffer : List UInt8}
    {res : Playback.SendResult} (h : Session.Does env address acceptfd shm a s s' shm' es)
    (he : PlaybackEvent.scan (.send fd buffer res) ∈ es) : fd = acceptfd := by
  cases h with
  | scanned sc sc' es hp hs =>
    obtain ⟨e, hmem, heq⟩ := List.mem_map.mp he
    obtain rfl := PlaybackEvent.scan.inj heq
    cases Scan.does_of_step hs with
    | crashed hp ha hc =>
      obtain ⟨path, hevents⟩ := (Scan.body_crashed (s.scanArgs address acceptfd) ha hc).2
      simp [hevents] at hmem
    | worked buffer hp ha hc =>
      obtain ⟨path, rest, hevents, hrest⟩ := Scan.body_events (s.scanArgs address acceptfd) ha hc
      rw [hevents] at hmem
      rcases hrest with rfl | rfl
      · simp at hmem
      · simp only [List.cons_append, List.nil_append, List.mem_cons, reduceCtorEq,
          ScanEvent.send.injEq, List.not_mem_nil, or_false, false_or] at hmem
        exact hmem.1
    | _ => simp at hmem
  | _ => simp at he

section
variable {param : ThreadParam} {shm shm' : Shm} {a : ClientInput} {pc pc' : ClientPc} {t' : Table}
  {es : List ClientEvent}

private theorem sent_of_does (h : ClientDoes env param shm a t pc pc' t' shm' es)
    {e : ClientEvent} {fd : Int} {bytes : List UInt8} (he : e ∈ es)
    (hsent : sent e = some (fd, bytes)) :
    (∀ address port res, .socket address port res ∉ es) ∧
      (pc = .send fd ∧ replays e = false ∨
        ∃ fd' s, pc = .playback fd' s ∧ fd = (t s.index).acceptfd) := by
  cases h with
  | session fd' s s' shm' es' hs =>
    obtain ⟨e', he', rfl⟩ := List.mem_map.mp he
    refine ⟨by simp, .inr ⟨fd', s, rfl, ?_⟩⟩
    cases e' with
    | scan e' =>
      cases e' with
      | send fd'' buffer res =>
        obtain ⟨rfl, -⟩ := Prod.mk.inj (Option.some.inj hsent)
        exact acceptfd_of_session hs he'
      | _ => cases hsent
    | _ => cases hsent
  | send fd' =>
    obtain rfl := List.mem_singleton.mp he
    obtain ⟨rfl, -⟩ := Prod.mk.inj (Option.some.inj hsent)
    exact ⟨by simp, .inl ⟨rfl, rfl⟩⟩
  | enter =>
    simp only [List.mem_cons, List.not_mem_nil, or_false] at he
    rcases he with rfl | rfl <;> cases hsent
  | _ => simp_all [sent]

private theorem socketAt_of_does (h : ClientDoes env param shm a t pc pc' t' shm' es) {fd : Int}
    (hfd : socketAt pc' = some fd) :
    (t' = t.setAcceptfd param.clientIndex fd ∧
      es = [.socket (t param.clientIndex).address (t param.clientIndex).port (.connected fd)]) ∨
    (socketAt pc = some fd ∧ t' = t ∧ ∀ address port res, .socket address port res ∉ es) := by
  cases h with
  | connected fd' =>
    obtain rfl := Option.some.inj hfd
    exact .inl ⟨rfl, rfl⟩
  | session fd' s s' shm' es' hs =>
    refine .inr ⟨?_, rfl, by simp⟩
    simp only [ClientPc.ofSession] at hfd
    split at hfd <;> simp_all [socketAt]
  | _ => simp_all [socketAt]

end

private theorem filterMap_socketOf (j k i : Nat) (es : List ClientEvent)
    (h : k ≠ j ∨ ∀ address port res, .socket address port res ∉ es) :
    (es.map (Event.client k i)).filterMap (socketOf j) = [] := by
  refine List.filterMap_eq_nil_iff.mpr fun e he ↦ ?_
  obtain ⟨ce, hce, rfl⟩ := List.mem_map.mp he
  cases ce with
  | socket address port res =>
    rcases h with h | h
    · simp [socketOf, h]
    · exact absurd hce (h address port res)
  | _ => rfl

section
variable {υ : List Event} {p : Proc} {k : Nat} {a : ClientInput} {pc' : ClientPc} {t' : Table}
  {shm shm' : Shm} {es : List ClientEvent} {cur : List Event}

/-- Only the socket of the thread itself matters, and it was opened before this step. -/
private theorem outgoing_client (h : Connected env t₀ υ p) (hw : p.Working env t₀ k cur)
    (hdoes : ClientDoes env p.param shm a p.tcpInfo (p.threads k) pc' t' shm' es)
    {before after : List Event} {e : Event}
    (hsplit : es.map (.client k p.param.clientIndex) = before ++ e :: after) :
    Outgoing t₀ (υ ++ before) e := by
  intro j i ce fd bytes heq hsent
  subst heq
  have hmem : Event.client j i ce ∈ es.map (.client k p.param.clientIndex) := by
    rw [hsplit]
    simp
  obtain ⟨ce', hce, heq⟩ := List.mem_map.mp hmem
  obtain ⟨rfl, rfl, rfl⟩ := Event.client.inj heq
  obtain ⟨hnone, hpc⟩ := sent_of_does hdoes hce hsent
  have hbefore : before.filterMap (socketOf k) = [] := by
    have hall := filterMap_socketOf k k p.param.clientIndex es (.inr hnone)
    rw [hsplit, List.filterMap_append] at hall
    exact (List.append_eq_nil_iff.mp hall).1
  rw [List.filterMap_append, hbefore, List.append_nil, hw.index]
  refine ⟨hw.bounded, ?_⟩
  rcases hpc with ⟨hpc, hlive⟩ | ⟨fd', s, hpc, rfl⟩
  · refine ⟨(h.here k fd (by rw [hpc]; rfl)).2, fun hr ↦ ?_⟩
    rw [hlive] at hr
    cases hr
  · obtain ⟨chunk, ρ, -, hrun⟩ := hw.run
    obtain ⟨hindex, -, -, hreq, -⟩ := hrun.facts.session fd' s hpc
    obtain ⟨hfd, hlast⟩ := h.here k fd' (by rw [hpc]; rfl)
    rw [hindex, hfd]
    exact ⟨hlast, fun _ ↦ hreq⟩

/-- The socket of the thread that works is the one it opened last. -/
private theorem here_client (h : Connected env t₀ υ p) (hw : p.Working env t₀ k cur)
    (hdoes : ClientDoes env p.param shm a p.tcpInfo (p.threads k) pc' t' shm' es) {j : Nat}
    {fd : Int} (hsock : socketAt (Function.update p.threads k pc' j) = some fd) :
    (t' (j + 1)).acceptfd = fd ∧
      ((υ ++ es.map (Event.client k p.param.clientIndex)).filterMap (socketOf j)).getLast? =
        some ((t₀ (j + 1)).address, (t₀ (j + 1)).port, .connected fd) := by
  rw [List.filterMap_append]
  by_cases hjk : j = k
  · subst hjk
    rw [Function.update_self] at hsock
    rcases socketAt_of_does hdoes hsock with ⟨rfl, rfl⟩ | ⟨hsame, rfl, hnone⟩
    · obtain ⟨haddress, hport, -⟩ := h.sound.tables (j + 1)
      simp [hw.index, Table.setAcceptfd, socketOf, haddress, hport]
    · rw [filterMap_socketOf j j _ es (.inr hnone), List.append_nil]
      exact h.here j fd hsame
  · rw [Function.update_of_ne hjk] at hsock
    rcases hw.alone j hjk with hr | hr <;> simp [hr, socketAt] at hsock

end

private theorem connected_client {υ es : List Event} {p p' : Proc} {k : Nat} {a : ClientInput}
    (h : Connected env t₀ υ p) (hs : p.step env w (.client k a) = some (p', w', es)) :
    Connected env t₀ (υ ++ es) p' := by
  obtain ⟨pc', t', shm', es', hc, rfl, -, rfl⟩ := Proc.client_step hs
  have hactive : ¬ (p.threads k = .absent ∨ p.threads k = .exited) := by
    intro hr
    simp [clientStep_resting hr] at hc
  obtain ⟨cur, hst⟩ := h.sound.stage
  have hw := hst.working_of_active hactive
  have hdoes := clientDoes_of_step hc
  refine ⟨h.sound.step hs, h.sends.trans ?_, fun j fd hj ↦ ?_⟩
  · intro before e after hsplit
    exact outgoing_client h hw hdoes hsplit
  · by_cases hcrash : pc' = .crashed
    · rw [hcrash] at hj
      simp [Proc.afterClient, socketAt] at hj
    · rw [Proc.afterClient_of_ne hcrash] at hj ⊢
      exact here_client h hw hdoes hj

/-- In every environment, a process sends on sockets that were opened under the settings it was
forked with. -/
theorem connected_of_open {p₀ p : Proc} {υ : List Event} (h₀ : p₀.Waiting)
    (h : (process env).Open p₀ υ p) : Connected env p₀.tcpInfo υ p := by
  refine h.invariant (Connected env p₀.tcpInfo) ⟨h₀.sound, always_nil _, fun j fd hj ↦ ?_⟩ ?_
  · rcases h₀.resting j with hr | hr <;> simp [hr, socketAt] at hj
  · intro υ p w a p' w' es hp _ hs
    cases a with
    | main a => exact connected_main hp hs
    | client k a => exact connected_client hp hs

/-! ### The life of a process of the tree -/

/-- The settings of two tables are the same. -/
def SameSettings (t t' : Table) : Prop :=
  ∀ i, (t i).address = (t' i).address ∧ (t i).port = (t' i).port ∧
    (t i).clientNum = (t' i).clientNum

theorem SameSettings.trans {t' t'' : Table} (h : SameSettings t t') (h' : SameSettings t' t'') :
    SameSettings t t'' :=
  fun i ↦ ⟨(h i).1.trans (h' i).1, (h i).2.1.trans (h' i).2.1, (h i).2.2.trans (h' i).2.2⟩

theorem sameSettings_of_agrees {t' : Table} (h : t.Agrees t') : SameSettings t t' :=
  fun i ↦ ⟨(h i).1, (h i).2.1, (h i).2.2.2⟩

private theorem sameSettings_setAccepted (t : Table) (fd : Int) (address : CString) :
    SameSettings (setAccepted t fd address) t := by
  intro i
  by_cases hi : i = 0
  · subst hi
    simp [setAccepted]
  · simp [setAccepted, hi]

/-- An event inside `distribute_receive`. -/
def ofProc : TreeEvent → Option Event
  | .proc e => some e
  | _ => none

/-- The events of process `k` inside `distribute_receive`. -/
def handlerTrace (k : Nat) (τ : List (Nat × TreeEvent)) : List Event :=
  (Machine.eventsOf k τ).filterMap ofProc

/-- The trace of a handler is that of a process forked under the settings `t`, for the peer of
its connection. -/
def Life (env : Env) (t : Table) (τ : List (Nat × TreeEvent)) (T : Tree) (k : Nat) : Prop :=
  ∃ t₀ uuid p, SameSettings t₀ t ∧ (process env).Open (Proc.forked t₀ uuid) (handlerTrace k τ) p ∧
    ∀ conn, (T.nodes k).pc = .receive conn →
      p = (T.nodes k).proc ∧ (t₀ 0).acceptedAddress = T.peer conn

/-- What holds of every run of the tree. -/
structure Lives (env : Env) (t : Table) (τ : List (Nat × TreeEvent)) (T : Tree) : Prop where
  sound : T.Sound env
  settings : ∀ k, SameSettings (T.nodes k).proc.tcpInfo t
  silent : ∀ k, T.born ≤ k → handlerTrace k τ = []
  life : ∀ k, Life env t τ T k

private theorem handlerTrace_append (k : Nat) (τ τ' : List (Nat × TreeEvent)) :
    handlerTrace k (τ ++ τ') = handlerTrace k τ ++ handlerTrace k τ' := by
  simp [handlerTrace]

private theorem handlerTrace_self (k : Nat) (es : List Event) :
    handlerTrace k (es.map (fun e ↦ (k, TreeEvent.proc e))) = es := by
  have hmap : es.map (fun e ↦ (k, TreeEvent.proc e)) =
      (es.map TreeEvent.proc).map (fun e ↦ (k, e)) := by simp
  rw [handlerTrace, hmap, Machine.eventsOf_self]
  induction es with
  | nil => rfl
  | cons e es ih => simpa [ofProc] using ih

private theorem handlerTrace_of_ne {k j : Nat} (hne : j ≠ k) {es : List (Nat × TreeEvent)}
    (h : ∀ e ∈ es, e.1 = k) : handlerTrace j es = [] := by
  have hnone : Machine.eventsOf j es = [] := by
    refine List.filterMap_eq_nil_iff.mpr fun e he ↦ if_neg ?_
    rw [h e he]
    exact Ne.symm hne
  rw [handlerTrace, hnone]
  rfl

/-- A process whose handler does not move. -/
private theorem Life.keep {τ es : List (Nat × TreeEvent)} {j : Nat} (h : Life env t τ T j)
    (hes : handlerTrace j es = [])
    (hkeep : ∀ conn, (T'.nodes j).pc = .receive conn → (T.nodes j).pc = .receive conn ∧
      (T'.nodes j).proc = (T.nodes j).proc ∧ T'.peer conn = T.peer conn) :
    Life env t (τ ++ es) T' j := by
  obtain ⟨t₀, uuid, p, hsame, hrun, hhere⟩ := h
  refine ⟨t₀, uuid, p, hsame, ?_, fun conn hc ↦ ?_⟩
  · rw [handlerTrace_append, hes, List.append_nil]
    exact hrun
  · obtain ⟨hpc, hproc, hpeer⟩ := hkeep conn hc
    rw [hproc, hpeer]
    exact hhere conn hpc

section
variable {τ es : List (Nat × TreeEvent)} {k : Nat} {a : NodeAct}

/-- A step of the tree keeps the settings of every process. -/
private theorem settings_of_step (h : ∀ j, SameSettings (T.nodes j).proc.tcpInfo t)
    (hs : T.step env w (k, a) = some (T', w', es)) :
    ∀ j, SameSettings (T'.nodes j).proc.tcpInfo t := by
  have set {s : Node} (hs : SameSettings s.proc.tcpInfo t) :
      ∀ j, SameSettings ((T.set k s).nodes j).proc.tcpInfo t :=
    (Function.forall_update_iff T.nodes (fun _ s ↦ SameSettings s.proc.tcpInfo t)).mpr
      ⟨hs, fun j _ ↦ h j⟩
  have run {p' : Proc} {a : Act} {w' : World} {es : List Event}
      (hs : (T.nodes k).proc.step env w a = some (p', w', es)) : SameSettings p'.tcpInfo t :=
    (sameSettings_of_agrees (Proc.step_agrees (.refl _) hs)).trans (h k)
  cases Tree.does_of_step hs with
  | refused | notForked | left => exact set (h k)
  | accepted fd address => exact set ((sameSettings_setAccepted _ fd address).trans (h k))
  | forked conn =>
    have hparent := set (s := { T.nodes k with pc := .accept }) (h k)
    exact (Function.forall_update_iff (T.set k { T.nodes k with pc := .accept }).nodes
      (fun _ s ↦ SameSettings s.proc.tcpInfo t)).mpr ⟨h k, fun j _ ↦ hparent j⟩
  | ran conn a p' w' es hp hstep => exact set (run hstep)
  | crashed conn a p' w' es hp hstep => exact set (run hstep)

private theorem events_of_step (hs : T.step env w (k, a) = some (T', w', es)) :
    ∀ e ∈ es, e.1 = k := by
  cases Tree.does_of_step hs with
  | ran | crashed =>
    intro e he
    obtain ⟨e', -, rfl⟩ := List.mem_map.mp he
    rfl
  | _ => simp

/-- The processes that do not take the step: the others, and the child that it creates. -/
private theorem Lives.other (h : Lives env t τ T) (hs : T.step env w (k, a) = some (T', w', es))
    {j : Nat} (hne : j ≠ k) : Life env t (τ ++ es) T' j := by
  have hes : handlerTrace j es = [] := handlerTrace_of_ne hne (events_of_step hs)
  have keep {s : Node} : Life env t (τ ++ es) (T.set k s) j :=
    (h.life j).keep hes (fun conn hc ↦ by
      rw [Tree.set_nodes_of_ne hne] at hc ⊢
      exact ⟨hc, rfl, rfl⟩)
  cases Tree.does_of_step hs with
  | refused | notForked | left | ran | crashed => exact keep
  | accepted fd address hp hfd =>
    refine (h.life j).keep hes (fun conn hc ↦ ?_)
    simp only [Tree.set_nodes_of_ne hne] at hc ⊢
    obtain ⟨t', u, υ, -, hopen, -⟩ := (h.sound.nodes j).handling conn hc
    have hlt : conn < T.conns := (h.sound.nodes j).opened _ conn hopen
    exact ⟨hc, trivial, Function.update_of_ne (Nat.ne_of_lt hlt) ..⟩
  | forked conn hp =>
    by_cases hborn : j = T.born
    · subst hborn
      refine ⟨(T.nodes k).proc.tcpInfo, (T.nodes k).proc.recorder.uuid,
        ((T.nodes k).child conn).proc, h.settings k, ?_, ?_⟩
      · rw [handlerTrace_append, h.silent _ (Nat.le_refl _), hes]
        exact .refl
      · intro c hc
        simp only [Tree.set_nodes_self, Node.child, NodePc.receive.injEq] at hc ⊢
        subst hc
        exact ⟨trivial, ((h.sound.nodes k).forking conn hp).2⟩
    · refine (h.life j).keep hes (fun c hc ↦ ?_)
      simp only [Tree.set_nodes_of_ne hborn, Tree.set_nodes_of_ne hne] at hc ⊢
      exact ⟨hc, trivial, rfl⟩

/-- The process that takes the step. -/
private theorem Lives.here (h : Lives env t τ T) (hs : T.step env w (k, a) = some (T', w', es)) :
    Life env t (τ ++ es) T' k := by
  have run {conn : Nat} {a : Act} {p' : Proc} {w' : World} {es : List Event} {T' : Tree}
      (hp : (T.nodes k).pc = .receive conn)
      (hs : (T.nodes k).proc.step env w a = some (p', w', es))
      (hpc : ∀ c, (T'.nodes k).pc = .receive c →
        c = conn ∧ (T'.nodes k).proc = p' ∧ T'.peer = T.peer) :
      Life env t (τ ++ es.map (fun e ↦ (k, TreeEvent.proc e))) T' k := by
    obtain ⟨t₀, uuid, p, hsame, hrun, hhere⟩ := h.life k
    obtain ⟨rfl, hpeer⟩ := hhere conn hp
    refine ⟨t₀, uuid, p', hsame, ?_, fun c hc ↦ ?_⟩
    · rw [handlerTrace_append, handlerTrace_self]
      exact hrun.snoc trivial hs
    · obtain ⟨rfl, hproc, hsame⟩ := hpc c hc
      exact ⟨hproc.symm, hsame ▸ hpeer⟩
  cases Tree.does_of_step hs with
  | ran conn a p' w' es hp hstep =>
    refine run hp hstep (fun c hc ↦ ?_)
    simp only [Tree.set_nodes_self, hp, NodePc.receive.injEq] at hc ⊢
    exact ⟨hc.symm, trivial, rfl⟩
  | crashed conn a p' w' es hp hstep =>
    exact run hp hstep (fun c hc ↦ by simp [Node.exit] at hc)
  | forked conn hp =>
    have hk : k < T.born := h.sound.born (by simp [hp])
    refine (h.life k).keep (by simp [handlerTrace, Machine.eventsOf, ofProc]) (fun c hc ↦ ?_)
    simp [Tree.set_nodes_of_ne (Nat.ne_of_lt hk)] at hc
  | _ =>
    refine (h.life k).keep (by simp [handlerTrace, Machine.eventsOf, ofProc]) (fun c hc ↦ ?_)
    simp [Node.exit, Node.accepted, Node.left] at hc

/-- Every step of the tree extends the lives. -/
theorem Lives.step (h : Lives env t τ T) (hs : T.step env w (k, a) = some (T', w', es)) :
    Lives env t (τ ++ es) T' := by
  refine ⟨h.sound.step hs, settings_of_step h.settings hs, fun j hj ↦ ?_, fun j ↦ ?_⟩
  · have hborn : T.born ≤ T'.born := by
      cases Tree.does_of_step hs with
      | forked => exact Nat.le_succ _
      | _ => exact Nat.le_refl _
    have hne : j ≠ k := by
      rintro rfl
      have habsent := h.sound.fresh j (Nat.le_trans hborn hj)
      simp [Tree.step, habsent] at hs
    rw [handlerTrace_append, h.silent j (Nat.le_trans hborn hj),
      handlerTrace_of_ne hne (events_of_step hs)]
    rfl
  · by_cases hjk : j = k
    · subst hjk
      exact h.here hs
    · exact h.other hs hjk

end

/-- The lives of all processes, in every run of the server. -/
theorem lives_of_run {C : World → Tree → Nat × NodeAct → Prop} {τ : List (Nat × TreeEvent)}
    (h : (tree env).RunIn C (Tree.start t) τ T) : Lives env t τ T := by
  have hsame : SameSettings t t := fun _ ↦ ⟨rfl, rfl, rfl⟩
  refine h.invariant (Lives env t)
    ⟨Tree.start_sound env t, fun _ ↦ hsame, fun _ _ ↦ rfl, fun k ↦ ?_⟩
    (fun _ _ _ _ _ _ _ hT _ hs ↦ hT.step hs)
  refine ⟨t, 0, _, hsame, .refl, fun conn hc ↦ ?_⟩
  simp only [Tree.start] at hc
  split at hc <;> cases hc

/-- Sends of a handler, seen from the tree. -/
theorem outgoing_of_run {C : World → Tree → Nat × NodeAct → Prop}
    {τ before after : List (Nat × TreeEvent)} {k : Nat} {e : Event}
    (h : (tree env).RunIn C (Tree.start t) τ T)
    (hτ : τ = before ++ (k, .proc e) :: after) :
    ∃ t₀, SameSettings t₀ t ∧ Outgoing t₀ (handlerTrace k before) e ∧
      ∀ conn, (T.nodes k).pc = .receive conn → (t₀ 0).acceptedAddress = T.peer conn := by
  obtain ⟨t₀, uuid, p, hsame, hrun, hhere⟩ := (lives_of_run h).life k
  have hsends := (connected_of_open (Proc.forked_waiting t₀ uuid) hrun).sends
  refine ⟨t₀, hsame, hsends (handlerTrace k before) e (handlerTrace k after) ?_,
    fun conn hc ↦ (hhere conn hc).2⟩
  rw [hτ, handlerTrace_append]
  simp [handlerTrace, Machine.eventsOf, ofProc]

/-! ### From the file to the network -/

/-- What thread `j` of process `k` asked `distribute_client_socket` for, and got. -/
def sockets (k j : Nat) (τ : List (Nat × TreeEvent)) : List (CString × Int × SocketResult) :=
  (handlerTrace k τ).filterMap (socketOf j)

/-- The settings of entry `i` name an address, in the dotted form that `inet_ntoa` gives, and a
port. -/
structure Names (find : CString → Option CString) (i : Nat) (ip : InAddr) (port : Nat) :
    Prop where
  address : find (entryKeys i).1 = some (inetNtoa ip)
  decimal : ∃ val, find (entryKeys i).2 = some val ∧ IsDecimal val port
  fits : port < 65536

/-- Entry `i` of the table that `main` reads leads to the endpoint that its settings name. -/
private theorem sockaddr_of_names {heap : Heap} {logs : Logs} {text : List Char}
    {table : List TcpInfo} {i port : Nat} {ip : InAddr}
    (hparse : parseFileDistributeTcpInfo heap logs (some text) = .ok table)
    (hnames : Names (setting heap.behind text) i ip port)
    (hi : i ≤ (asTable table 0).clientNum) :
    (sockaddr (asTable table i).address (asTable table i).port).sinAddr = ip ∧
      (sockaddr (asTable table i).address (asTable table i).port).port = port := by
  have hkeys := fromKeys_of_parse hparse
  obtain ⟨num, -, hlen, hmaster⟩ := hkeys.size
  have hpos := hkeys.nonempty
  have hlt : i < table.length := by
    have hzero : asTable table 0 ∈ table.head? := by
      cases table with
      | nil => simp at hpos
      | cons entry rest => simp [asTable]
    have hnum := hmaster _ hzero
    omega
  have hentry : table[i]? = some (asTable table i) := by
    simp [asTable, List.getElem?_eq_getElem hlt]
  obtain ⟨haddress, val, hval, hport⟩ := hkeys.entries i _ hentry
  obtain ⟨val', hval', hdec⟩ := hnames.decimal
  obtain rfl : val = val' := Option.some.inj (hval.symm.trans hval')
  have haddr : (asTable table i).address = inetNtoa ip :=
    Option.some.inj (haddress.symm.trans hnames.address)
  rw [haddr, hport]
  exact sockaddr_eq hdec hnames.fits ip

private theorem distributeServer_eq_some {t : Table} {a : StartInput} {es : List StartEvent}
    {T : Tree} (h : distributeServer t a = (es, some T)) :
    es = [.socket true, .setsockopt true, .bind (sockaddr (t 0).address (t 0).port) true,
      .listen true] ∧ T = Tree.start t := by
  simp only [distributeServer] at h
  split_ifs at h <;> simp_all

/-- For every content of `engine.conf` that the server starts from, and every entry whose settings
are an address in the form of `inet_ntoa` and a port below 65536: the server listens at those set
for it, and in every run of its processes every byte sent for client `i`, live or replayed, goes
out on the connection that the sending thread made last, which is one to the address and port set
for that client. -/
theorem bytes_go_where_configured {heap : Heap} {logs : Logs} {text : List Char} {a : StartInput}
    {es : List StartEvent} {T₀ T : Tree} {τ : List (Nat × TreeEvent)} {i port : Nat} {ip : InAddr}
    (hmain : serverMain heap logs (some text) a = .ok (es, some T₀))
    (hnames : Names (setting heap.behind text) i ip port) (hrun : (tree env).Open T₀ τ T) :
    (i = 0 → ∃ addr, .bind addr true ∈ es ∧ addr.sinAddr = ip ∧ addr.port = port) ∧
      ∀ before k j e after fd bytes, τ = before ++ (k, .proc (.client j i e)) :: after →
        sent e = some (fd, bytes) →
        ∃ address p, (sockets k j before).getLast? = some (address, p, .connected fd) ∧
          (sockaddr address p).sinAddr = ip ∧ (sockaddr address p).port = port := by
  simp only [serverMain, Except.map] at hmain
  split at hmain
  · cases hmain
  next table hparse =>
  obtain ⟨rfl, rfl⟩ := distributeServer_eq_some (Except.ok.inj hmain)
  constructor
  · rintro rfl
    exact ⟨_, by simp, sockaddr_of_names hparse hnames (Nat.zero_le _)⟩
  · intro before k j e after fd bytes hτ hsent
    obtain ⟨t₀, hsame, hout, -⟩ := outgoing_of_run hrun hτ
    obtain ⟨hi, hlast, -⟩ := hout j i e fd bytes rfl hsent
    obtain ⟨haddress, hport, -⟩ := hsame i
    refine ⟨_, _, hlast, ?_⟩
    rw [haddress, hport]
    exact sockaddr_of_names hparse hnames ((hsame 0).2.2 ▸ hi)

/-- A file for one client, and a live message that is sent to it. -/
theorem bytes_go_where_configured_one_client :
    let heap : Heap := ⟨2720000, [], by decide⟩
    let around : Log.Surroundings :=
      ⟨.missing, [], ⟨['1'], by decide, by decide⟩, 0, 0, 0, none, true⟩
    let logs : Logs := ⟨Log.logsetting, fun _ ↦ (around, around)⟩
    let line (key val : CString) : List Char := key ++ '=' :: val ++ ['\n']
    let text := line "log-path".toList ['l'] ++ line "log-level".toList "INFO".toList ++
      line (entryKeys 0).1 (inetNtoa ⟨10, 0, 0, 1⟩) ++
      line (entryKeys 0).2 ['9', '0', '0', '0'] ++ line clientNumKey ['1'] ++
      line (entryKeys 1).1 (inetNtoa ⟨10, 0, 0, 2⟩) ++ line (entryKeys 1).2 ['9', '0', '0', '1']
    let env : Env := ⟨['d'], fun _ ↦ ['1']⟩
    ∃ es T₀ τ T, serverMain heap logs (some text) {} = .ok (es, some T₀) ∧
      Names (setting heap.behind text) 1 ⟨10, 0, 0, 2⟩ 9001 ∧ (tree env).Open T₀ τ T ∧
      (1, .proc (.client 0 1 (.send 5 [0x66, 0x66, 0x66, 0x66] (.sent 4)))) ∈ τ ∧
      ∀ before k j e after fd bytes, τ = before ++ (k, .proc (.client j 1 e)) :: after →
        sent e = some (fd, bytes) →
        ∃ address p, (sockets k j before).getLast? = some (address, p, .connected fd) ∧
          (sockaddr address p).sinAddr = ⟨10, 0, 0, 2⟩ ∧ (sockaddr address p).port = 9001 := by
  intro heap around logs line text env
  have hfits : ∀ line ∈ fgetsLines text, line.FitsEntry := by decide +kernel
  have hlog : LogSettings (stated text) :=
    ⟨⟨['l'], by decide +kernel⟩, "INFO".toList, by decide +kernel⟩
  have hclient : stated text (entryKeys 1).1 = some (inetNtoa ⟨10, 0, 0, 2⟩) ∧
      stated text (entryKeys 1).2 = some ['9', '0', '0', '1'] := by decide +kernel
  have hcomplete : Complete (stated text) 1 := by
    refine ⟨⟨['1'], by decide +kernel, by decide⟩, by decide, fun i hi ↦ ?_⟩
    obtain rfl | rfl : i = 0 ∨ i = 1 := by omega
    · exact ⟨⟨inetNtoa ⟨10, 0, 0, 1⟩, by decide +kernel⟩, ['9', '0', '0', '0'], by decide +kernel⟩
    · exact ⟨⟨_, hclient.1, by decide +kernel⟩, _, hclient.2⟩
  have hparse : parseFileDistributeTcpInfo heap logs (some text) =
      .ok [{ address := inetNtoa ⟨10, 0, 0, 1⟩, port := 9000, clientNum := 1 },
        { address := inetNtoa ⟨10, 0, 0, 2⟩, port := 9001 }] := by
    rw [parse_of_complete heap logs hfits hlog hcomplete]
    decide +kernel
  have hnames : Names (setting heap.behind text) 1 ⟨10, 0, 0, 2⟩ 9001 := by
    refine ⟨?_, ⟨['9', '0', '0', '1'], ?_, isDecimal_printD 9001⟩, by decide⟩
    · rw [setting_eq_stated heap.behind hfits (by decide +kernel), hclient.1]
    · rw [setting_eq_stated heap.behind hfits (by decide +kernel), hclient.2]
  let w : World := ⟨∅, ⟨{env.dayDir 0}, fun _ ↦ none⟩⟩
  let live : Act := .main { chunk := some [0x66, 0x66, 0x66, 0x66] }
  obtain ⟨τ, T, hrun, hsent⟩ := Machine.exec_observe (tree env) (fun _ _ _ ↦ true)
    (Tree.start (asTable [{ address := inetNtoa ⟨10, 0, 0, 1⟩, port := 9000, clientNum := 1 },
        { address := inetNtoa ⟨10, 0, 0, 2⟩, port := 9001 }]))
    ([(w, 0, .accept (some (4, inetNtoa ⟨10, 0, 0, 3⟩))), (w, 0, .fork true),
      (w, 1, .run live)] ++
      List.replicate 11 (w, 1, .run (.main {})) ++
      List.replicate 6 (w, 1, .run (.client 0 { socket := .connected 5, send := .sent 4 })))
    (fun _ τ ↦ (1, .proc (.client 0 1 (.send 5 [0x66, 0x66, 0x66, 0x66] (.sent 4)))) ∈ τ)
    (fun _ _ _ _ ↦ trivial) (by decide +kernel)
  have hmain : ∃ es, serverMain heap logs (some text) {} = .ok (es, some (Tree.start (asTable
      [{ address := inetNtoa ⟨10, 0, 0, 1⟩, port := 9000, clientNum := 1 },
        { address := inetNtoa ⟨10, 0, 0, 2⟩, port := 9001 }]))) := by
    rw [serverMain, hparse]
    exact ⟨_, rfl⟩
  obtain ⟨es, hmain⟩ := hmain
  exact ⟨es, _, τ, T, hmain, hnames, hrun, hsent, (bytes_go_where_configured hmain hnames hrun).2⟩

/-! ### To the host that asked -/

/-- The peer of an accepted connection is stored as the text that `inet_ntoa` gives,
`util.c:67`. -/
def NodeAct.FromPeer : NodeAct → Prop
  | .accept (some (_, address)) => ∃ ip, address = inetNtoa ip
  | _ => True

/-- The peers of accepted connections are addresses. -/
private theorem peers_of_run {τ : List (Nat × TreeEvent)}
    (h : (tree env).RunIn (fun _ _ x ↦ x.2.FromPeer) (Tree.start t) τ T) :
    ∀ conn < T.conns, ∃ ip, T.peer conn = inetNtoa ip := by
  refine h.invariant (fun _ T ↦ ∀ conn < T.conns, ∃ ip, T.peer conn = inetNtoa ip)
    (fun conn hc ↦ absurd hc (Nat.not_lt_zero _)) ?_
  rintro τ T w ⟨k, a⟩ T' w' es hT hpeer hs conn hc
  cases Tree.does_of_step hs with
  | accepted fd address =>
    by_cases hlast : conn = T.conns
    · subst hlast
      obtain ⟨ip, hip⟩ := hpeer
      exact ⟨ip, by simp [hip]⟩
    · have hlt : conn < T.conns := Nat.lt_of_le_of_ne (Nat.le_of_lt_succ hc) hlast
      simpa [Function.update_of_ne hlast] using hT conn hlt
  | _ => exact hT conn hc

/-- For every table, whatever texts its addresses are, and every run of the processes: all that
the process of a connection has replayed was sent on connections to the IP address that the
connection came from. -/
theorem replays_go_to_requester {τ : List (Nat × TreeEvent)} {k conn : Nat}
    (h : (tree env).RunIn (fun _ _ x ↦ x.2.FromPeer) (Tree.start t) τ T)
    (hk : (T.nodes k).pc = .receive conn) :
    ∃ ip, T.peer conn = inetNtoa ip ∧
      ∀ before j i e after fd bytes, τ = before ++ (k, .proc (.client j i e)) :: after →
        replays e = true → sent e = some (fd, bytes) →
        ∃ address p, (sockets k j before).getLast? = some (address, p, .connected fd) ∧
          (sockaddr address p).sinAddr = ip := by
  have hsound := (Tree.sound_of_run h).nodes k
  obtain ⟨_, _, _, _, hopen, -⟩ := hsound.handling conn hk
  obtain ⟨ip, hip⟩ := peers_of_run h conn (hsound.opened _ conn hopen)
  refine ⟨ip, hip, fun before j i e after fd bytes hτ hreplay hsent ↦ ?_⟩
  obtain ⟨t₀, -, hout, hpeer⟩ := outgoing_of_run h hτ
  obtain ⟨-, hlast, hrequester⟩ := hout j i e fd bytes rfl hsent
  refine ⟨_, _, hlast, ?_⟩
  have haddress : (t₀ i).address = inetNtoa ip :=
    (hrequester hreplay).trans ((hpeer conn hk).trans hip)
  rw [haddress]
  exact inetAddr_inetNtoa ip

/-- The second of two clients asks and gets a record. -/
theorem replays_go_to_requester_second_client :
    let env : Env := ⟨['d'], fun _ ↦ ['1']⟩
    let t : Table := fun i ↦ if i = 0 then { clientNum := 2 } else
      if i = 1 then { address := inetNtoa ⟨10, 0, 0, 2⟩ } else { address := inetNtoa ⟨10, 0, 0, 3⟩ }
    ∃ τ T, (tree env).RunIn (fun _ _ x ↦ x.2.FromPeer) (Tree.start t) τ T ∧
      (T.nodes 1).pc = .receive 0 ∧
      (1, .proc (.client 1 2 (.playback (.scan (.send 6 [7] (.sent 1)))))) ∈ τ ∧
      ∃ ip, T.peer 0 = inetNtoa ip ∧
        ∀ before j i e after fd bytes, τ = before ++ (1, .proc (.client j i e)) :: after →
          replays e = true → sent e = some (fd, bytes) →
          ∃ address p, (sockets 1 j before).getLast? = some (address, p, .connected fd) ∧
            (sockaddr address p).sinAddr = ip := by
  intro env t
  let w : World := ⟨{Playback.shmFile (inetNtoa ⟨10, 0, 0, 3⟩)}, ⟨∅, fun _ ↦ none⟩⟩
  let start : List UInt8 := [0x88, 0x88, 0x88, 0x88, 1, 0, 0, 0, 0, 9, 0, 0, 0, 1]
  let main (n : Nat) : List (World × Nat × NodeAct) := List.replicate n (w, 1, .run (.main {}))
  let replay : ClientInput :=
    { socket := .connected 6
      session := { scan := { listing := some [['1', '_', '0']], now := 0 } } }
  let body : ClientInput :=
    { session := { scan := { now := 10, staleTime := ['1'], content := some [7],
                             send := .sent 1 } } }
  obtain ⟨τ, T, hrun, hk, hsent⟩ := Machine.exec_observe (tree env)
    (fun _ _ x ↦ match x.2 with
      | .accept (some (_, address)) => address = inetNtoa ⟨10, 0, 0, 3⟩
      | _ => true)
    (Tree.start t)
    ([(w, 0, .accept (some (4, inetNtoa ⟨10, 0, 0, 3⟩))), (w, 0, .fork true),
      (w, 1, .run (.main { chunk := some start }))] ++ main 5 ++
      List.replicate 6 (w, 1, .run (.client 0 { socket := .connected 5 })) ++ main 3 ++
      List.replicate 6 (w, 1, .run (.client 1 replay)) ++ [(w, 1, .run (.client 1 body))])
    (fun T τ ↦ (T.nodes 1).pc = .receive 0 ∧
      (1, .proc (.client 1 2 (.playback (.scan (.send 6 [7] (.sent 1)))))) ∈ τ)
    (C := fun _ _ x ↦ x.2.FromPeer)
    (by
      rintro _ _ ⟨_, a⟩ ha
      cases a with
      | accept res =>
        cases res with
        | none => trivial
        | some r => exact ⟨_, by simpa using ha⟩
      | _ => trivial)
    (by decide +kernel)
  exact ⟨τ, T, hrun, hk, hsent, replays_go_to_requester hrun hk⟩

end DupDistribute.Server

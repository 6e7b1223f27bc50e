import DupDistribute.Distribute.Thread

/-!
# The process tree of the server

`distribute_server` (`util.c:12-96`) from its accept loop on. A process in the loop accepts a
connection, stores its descriptor and peer in entry 0 of the table, and forks; the child
inherits memory and descriptors and enters `distribute_receive`. When that returns, the child
closes the descriptor and is back in the accept loop, because nothing ends it there. Only
accepted descriptors are kept: client sockets are closed by the threads that open them, and
`socket` never returns a descriptor that is open.
-/

namespace DupDistribute.Server

open DupDistribute.Base DupDistribute.Distribute
open DupDistribute.Record (Env)

/-- Where a process of the tree is: in the loop before `accept` or before `fork`, in
`distribute_receive`, or at its end. The connection it is concerned with is kept along. -/
inductive NodePc where
  | absent
  | accept
  | fork (conn : Nat)
  | receive (conn : Nat)
  | gone
  deriving DecidableEq, Repr

/-- A process of the tree: its place, its memory, and for each of its descriptors the
accepted connection that it refers to. -/
structure Node where
  pc : NodePc
  proc : Proc
  files : Int → Option Nat

/-- All processes by number, the next free number, and the connections accepted so far with
the address of the peer. -/
structure Tree where
  nodes : Nat → Node
  born : Nat
  conns : Nat
  peer : Nat → CString

/-- Outcomes the environment chooses for a step of one process: what `accept` returns, whether
`fork` works, a step inside `distribute_receive`, and the return from it. -/
inductive NodeAct where
  | accept (res : Option (Int × CString))
  | fork (ok : Bool)
  | run (a : Act)
  | leave

/-- What a step of the tree does. -/
inductive TreeEvent where
  | accepted (conn : Nat) (fd : Int)
  | forked (child : Nat)
  | closed (fd : Int)
  | exited
  | proc (e : Event)
  deriving DecidableEq

/-- Assignments to `distributeTcpInfo[0]` after `accept`, `util.c:67-68`. -/
def setAccepted (t : Table) (fd : Int) (address : CString) : Table :=
  Function.update t 0 { t 0 with acceptedAddress := address, acceptfd := fd }

/-- `accept` returned: the connection gets a number and a descriptor. -/
def Node.accepted (s : Node) (conn : Nat) (fd : Int) (address : CString) : Node where
  pc := .fork conn
  proc := { s.proc with tcpInfo := setAccepted s.proc.tcpInfo fd address }
  files := Function.update s.files fd (some conn)

/-- The child of a process, about to run `distribute_receive`. -/
def Node.child (s : Node) (conn : Nat) : Node where
  pc := .receive conn
  proc := Proc.forked s.proc.tcpInfo s.proc.recorder.uuid
  files := s.files

/-- `close(distributeTcpInfo[0].acceptfd)` and the return to the loop, `util.c:194`. -/
def Node.left (s : Node) : Node :=
  { s with pc := .accept, files := Function.update s.files (s.proc.tcpInfo 0).acceptfd none }

/-- The process ends and the system closes what it has open. -/
def Node.exit (s : Node) : Node := { s with pc := .gone, files := fun _ ↦ none }

/-- After a step inside `distribute_receive`; a crash of any thread ends the process. -/
def Node.after (s : Node) (p : Proc) : Node :=
  if p.main = .dead then { s with proc := p }.exit else { s with proc := p }

/-- One process changes. -/
def Tree.set (T : Tree) (k : Nat) (s : Node) : Tree :=
  { T with nodes := Function.update T.nodes k s }

/-- The process that changes. -/
@[simp] theorem Tree.set_nodes_self (T : Tree) (k : Nat) (s : Node) :
    (T.set k s).nodes k = s := Function.update_self ..

/-- The others stay as they are. -/
theorem Tree.set_nodes_of_ne {k j : Nat} (h : j ≠ k) (T : Tree) (s : Node) :
    (T.set k s).nodes j = T.nodes j := Function.update_of_ne h ..

/-- One step of a process of the tree. A process whose `accept` or `fork` fails ends; `accept`
returns a descriptor that is not open. -/
def Tree.step (env : Env) (w : World) (T : Tree) (x : Nat × NodeAct) :
    Option (Tree × World × List (Nat × TreeEvent)) :=
  let k := x.1
  let s := T.nodes k
  let fd₀ := (s.proc.tcpInfo 0).acceptfd
  match s.pc, x.2 with
  | .accept, .accept none => some (T.set k s.exit, w, [(k, .exited)])
  | .accept, .accept (some (fd, address)) =>
    if s.files fd = none then
      some ({ T.set k (s.accepted T.conns fd address) with
        conns := T.conns + 1
        peer := Function.update T.peer T.conns address }, w, [(k, .accepted T.conns fd)])
    else none
  | .fork _, .fork false => some (T.set k s.exit, w, [(k, .closed fd₀), (k, .exited)])
  | .fork conn, .fork true =>
    some ({ (T.set k { s with pc := .accept }).set T.born (s.child conn) with
      born := T.born + 1 }, w, [(k, .forked T.born)])
  | .receive _, .run a =>
    (s.proc.step env w a).map (fun r ↦
      (T.set k (s.after r.1), r.2.1, r.2.2.map (fun e ↦ (k, .proc e))))
  | .receive _, .leave =>
    if s.proc.main = .closed then some (T.set k s.left, w, [(k, .closed fd₀)]) else none
  | _, _ => none

/-- The tree over the lock files and the record store. -/
def tree (env : Env) : Machine World Tree (Nat × NodeAct) (Nat × TreeEvent) where
  step := Tree.step env

/-- The server when it enters the accept loop, with the table that it has read. -/
def Tree.start (t : Table) : Tree where
  nodes k := ⟨if k = 0 then .accept else .absent, Proc.forked t 0, fun _ ↦ none⟩
  born := 1
  conns := 0
  peer := fun _ ↦ []

/-- Everything a step of process `k` can do. -/
inductive Tree.Does (env : Env) (w : World) (T : Tree) (k : Nat) :
    NodeAct → Tree → World → List (Nat × TreeEvent) → Prop where
  | refused (hp : (T.nodes k).pc = .accept) :
      Does env w T k (.accept none) (T.set k (T.nodes k).exit) w [(k, .exited)]
  | accepted (fd : Int) (address : CString) (hp : (T.nodes k).pc = .accept)
      (hfd : (T.nodes k).files fd = none) :
      Does env w T k (.accept (some (fd, address)))
        { T.set k ((T.nodes k).accepted T.conns fd address) with
          conns := T.conns + 1
          peer := Function.update T.peer T.conns address } w [(k, .accepted T.conns fd)]
  | notForked (conn : Nat) (hp : (T.nodes k).pc = .fork conn) :
      Does env w T k (.fork false) (T.set k (T.nodes k).exit) w
        [(k, .closed ((T.nodes k).proc.tcpInfo 0).acceptfd), (k, .exited)]
  | forked (conn : Nat) (hp : (T.nodes k).pc = .fork conn) :
      Does env w T k (.fork true)
        { (T.set k { T.nodes k with pc := .accept }).set T.born ((T.nodes k).child conn) with
          born := T.born + 1 } w [(k, .forked T.born)]
  | ran (conn : Nat) (a : Act) (p' : Proc) (w' : World) (es : List Event)
      (hp : (T.nodes k).pc = .receive conn)
      (hs : (T.nodes k).proc.step env w a = some (p', w', es)) (hd : p'.main ≠ .dead) :
      Does env w T k (.run a) (T.set k { T.nodes k with proc := p' }) w'
        (es.map (fun e ↦ (k, .proc e)))
  | crashed (conn : Nat) (a : Act) (p' : Proc) (w' : World) (es : List Event)
      (hp : (T.nodes k).pc = .receive conn)
      (hs : (T.nodes k).proc.step env w a = some (p', w', es)) (hd : p'.main = .dead) :
      Does env w T k (.run a) (T.set k { T.nodes k with proc := p' }.exit) w'
        (es.map (fun e ↦ (k, .proc e)))
  | left (conn : Nat) (hp : (T.nodes k).pc = .receive conn)
      (hm : (T.nodes k).proc.main = .closed) :
      Does env w T k .leave (T.set k (T.nodes k).left) w
        [(k, .closed ((T.nodes k).proc.tcpInfo 0).acceptfd)]

variable {env : Env} {t : Table} {T T' : Tree} {w w' : World} {es : List (Nat × TreeEvent)}

/-- The step function does nothing else. -/
theorem Tree.does_of_step {k : Nat} {a : NodeAct}
    (h : T.step env w (k, a) = some (T', w', es)) : Tree.Does env w T k a T' w' es := by
  cases hp : (T.nodes k).pc with
  | absent | gone => simp [Tree.step, hp] at h
  | accept =>
    cases a with
    | accept res =>
      cases res with
      | none =>
        simp only [Tree.step, hp, Option.some.injEq, Prod.mk.injEq] at h
        obtain ⟨rfl, rfl, rfl⟩ := h
        exact .refused hp
      | some r =>
        simp only [Tree.step, hp, Option.ite_none_right_eq_some, Option.some.injEq,
          Prod.mk.injEq] at h
        obtain ⟨hfd, rfl, rfl, rfl⟩ := h
        exact .accepted r.1 r.2 hp hfd
    | _ => simp [Tree.step, hp] at h
  | fork conn =>
    cases a with
    | fork ok =>
      cases ok <;>
        simp only [Tree.step, hp, Option.some.injEq, Prod.mk.injEq] at h <;>
        obtain ⟨rfl, rfl, rfl⟩ := h
      · exact .notForked conn hp
      · exact .forked conn hp
    | _ => simp [Tree.step, hp] at h
  | receive conn =>
    cases a with
    | run a =>
      simp only [Tree.step, hp, Option.map_eq_some_iff, Prod.mk.injEq] at h
      obtain ⟨⟨p', w₁, es'⟩, hs, rfl, rfl, rfl⟩ := h
      by_cases hd : p'.main = .dead
      · rw [Node.after, if_pos hd]
        exact .crashed conn a p' w₁ es' hp hs hd
      · rw [Node.after, if_neg hd]
        exact .ran conn a p' w₁ es' hp hs hd
    | leave =>
      simp only [Tree.step, hp, Option.ite_none_right_eq_some, Option.some.injEq,
        Prod.mk.injEq] at h
      obtain ⟨hm, rfl, rfl, rfl⟩ := h
      exact .left conn hp hm
    | _ => simp [Tree.step, hp] at h

/-! ### Entry 0 of the table -/

/-- No step of a handler, main or client thread, changes descriptor and peer in entry 0: main
writes the flag there, and the only working thread writes the entry of its own client. -/
theorem entry_of_step {p p' : Proc} {t₀ : Table} {a : Act} {es : List Event}
    (h : p.Sound env t₀) (hs : p.step env w a = some (p', w', es)) :
    (p'.tcpInfo 0).acceptfd = (p.tcpInfo 0).acceptfd ∧
      (p'.tcpInfo 0).acceptedAddress = (p.tcpInfo 0).acceptedAddress := by
  cases a with
  | main i =>
    cases Proc.mainDoes_of_step hs with
    | received chunk =>
      simp only [Proc.receive]
      split <;> simp [Table.setFlag]
    | _ => exact ⟨rfl, rfl⟩
  | client j i =>
    obtain ⟨pc', t', shm', es', hc, rfl, -, -⟩ := Proc.client_step hs
    have hactive : ¬ (p.threads j = .absent ∨ p.threads j = .exited) := by
      intro hr
      simp [clientStep_resting hr] at hc
    obtain ⟨cur, hst⟩ := h.stage
    have hindex : p.param.clientIndex = j + 1 := (hst.working_of_active hactive).index
    have htable : (p.afterClient j pc' t').tcpInfo = t' := by
      simp only [Proc.afterClient]
      split <;> rfl
    rw [htable]
    generalize p.threads j = pc at hc
    cases clientDoes_of_step hc with
    | connected fd =>
      rw [hindex]
      simp [Table.setAcceptfd]
    | _ => exact ⟨rfl, rfl⟩

/-- Descriptor and peer stay those that the process was forked with. -/
theorem entry_of_open {p₀ p : Proc} {τ : List Event} (h₀ : p₀.Waiting)
    (h : (process env).Open p₀ τ p) :
    (p.tcpInfo 0).acceptfd = (p₀.tcpInfo 0).acceptfd ∧
      (p.tcpInfo 0).acceptedAddress = (p₀.tcpInfo 0).acceptedAddress := by
  have hinv := h.invariant (fun _ p ↦ p.Sound env p₀.tcpInfo ∧
      (p.tcpInfo 0).acceptfd = (p₀.tcpInfo 0).acceptfd ∧
      (p.tcpInfo 0).acceptedAddress = (p₀.tcpInfo 0).acceptedAddress) ⟨h₀.sound, rfl, rfl⟩ ?_
  · exact hinv.2
  · intro τ p w a p' w' es hp _ hs
    obtain ⟨hfd, haddr⟩ := entry_of_step hp.1 hs
    exact ⟨hp.1.step hs, hfd.trans hp.2.1, haddr.trans hp.2.2⟩

/-! ### The invariant of the tree -/

/-- A process in `distribute_receive` got there by `fork` and by steps of its own. -/
def Node.Handles (env : Env) (s : Node) (conn : Nat) (address : CString) : Prop :=
  ∃ (t : Table) (uuid : UInt32) (τ : List Event),
    (process env).Open (Proc.forked t uuid) τ s.proc ∧
      s.files (t 0).acceptfd = some conn ∧ (t 0).acceptedAddress = address

/-- What holds for each process: its descriptors refer to connections that were accepted, and
the pair in entry 0 belongs to the connection that it forks for or handles. -/
structure Node.Sound (env : Env) (conns : Nat) (peer : Nat → CString) (s : Node) : Prop where
  opened : ∀ fd c, s.files fd = some c → c < conns
  forking : ∀ c, s.pc = .fork c → s.files (s.proc.tcpInfo 0).acceptfd = some c ∧
    (s.proc.tcpInfo 0).acceptedAddress = peer c
  handling : ∀ c, s.pc = .receive c → s.Handles env c (peer c)

/-- Another connection is accepted somewhere. -/
theorem Node.Sound.weaken {conns : Nat} {peer : Nat → CString} {s : Node}
    (h : s.Sound env conns peer) (address : CString) :
    s.Sound env (conns + 1) (Function.update peer conns address) := by
  have hpeer {fd : Int} {c : Nat} (hc : s.files fd = some c) :
      Function.update peer conns address c = peer c :=
    Function.update_of_ne (Nat.ne_of_lt (h.opened fd c hc)) ..
  refine ⟨fun fd c hc ↦ Nat.lt_succ_of_lt (h.opened fd c hc), fun c hc ↦ ?_, fun c hc ↦ ?_⟩
  · obtain ⟨hfd, haddr⟩ := h.forking c hc
    exact ⟨hfd, haddr.trans (hpeer hfd).symm⟩
  · obtain ⟨t, u, τ, hrun, hfd, haddr⟩ := h.handling c hc
    exact ⟨t, u, τ, hrun, hfd, haddr.trans (hpeer hfd).symm⟩

/-- An ended process has nothing to answer for. -/
theorem Node.Sound.exit (conns : Nat) (peer : Nat → CString) (s : Node) :
    s.exit.Sound env conns peer :=
  ⟨by simp [Node.exit], by simp [Node.exit], by simp [Node.exit]⟩

/-- What holds in every reachable tree. -/
structure Tree.Sound (env : Env) (T : Tree) : Prop where
  fresh : ∀ k, T.born ≤ k → (T.nodes k).pc = .absent
  nodes : ∀ k, (T.nodes k).Sound env T.conns T.peer

/-- A process that is somewhere has been born. -/
theorem Tree.Sound.born {k : Nat} (h : T.Sound env) (hk : (T.nodes k).pc ≠ .absent) :
    k < T.born := by
  by_contra hge
  exact hk (h.fresh k (Nat.not_lt.mp hge))

private theorem Tree.Sound.set {k : Nat} {s : Node} (h : T.Sound env)
    (hk : (T.nodes k).pc ≠ .absent) (hs : s.Sound env T.conns T.peer) :
    (T.set k s).Sound env := by
  refine ⟨fun j hj ↦ ?_, ?_⟩
  · have hne : j ≠ k := by
      have hlt := h.born hk
      simp only [Tree.set] at hj
      omega
    rw [T.set_nodes_of_ne hne]
    exact h.fresh j hj
  · exact (Function.forall_update_iff T.nodes
      (fun _ s ↦ s.Sound env T.conns T.peer)).mpr ⟨hs, fun j _ ↦ h.nodes j⟩

private theorem Node.Sound.accepted {conns : Nat} {peer : Nat → CString} {s : Node}
    (h : s.Sound env conns peer) (fd : Int) (address : CString) :
    (s.accepted conns fd address).Sound env (conns + 1)
      (Function.update peer conns address) := by
  refine ⟨fun fd' c hc ↦ ?_, fun c hc ↦ ?_, fun c hc ↦ (by cases hc)⟩
  · by_cases hfd : fd' = fd
    · subst hfd
      simp only [Node.accepted, Function.update_self, Option.some.injEq] at hc
      omega
    · simp only [Node.accepted, Function.update_of_ne hfd] at hc
      exact Nat.lt_succ_of_lt (h.opened fd' c hc)
  · obtain rfl := NodePc.fork.inj hc
    simp [Node.accepted, setAccepted]

/-- Every step keeps the invariant. -/
theorem Tree.Sound.step {k : Nat} {a : NodeAct} (h : T.Sound env)
    (hs : T.step env w (k, a) = some (T', w', es)) : T'.Sound env := by
  have here {pc : NodePc} (hp : (T.nodes k).pc = pc) (hne : pc ≠ .absent) :
      (T.nodes k).pc ≠ .absent := hp ▸ hne
  cases Tree.does_of_step hs with
  | refused hp => exact h.set (here hp (by simp)) (.exit _ _ _)
  | notForked conn hp => exact h.set (here hp (by simp)) (.exit _ _ _)
  | crashed conn a p' w' es hp => exact h.set (here hp (by simp)) (.exit _ _ _)
  | accepted fd address hp hfd =>
    have hk : k < T.born := h.born (here hp (by simp))
    refine ⟨fun j hj ↦ ?_, ?_⟩
    · have hne : j ≠ k := by
        simp only [Tree.set] at hj
        omega
      simp only [T.set_nodes_of_ne hne]
      exact h.fresh j hj
    · exact (Function.forall_update_iff T.nodes (fun _ s ↦ s.Sound env (T.conns + 1)
        (Function.update T.peer T.conns address))).mpr
        ⟨(h.nodes k).accepted fd address, fun j _ ↦ (h.nodes j).weaken address⟩
  | forked conn hp =>
    have hk : k < T.born := h.born (here hp (by simp))
    obtain ⟨hfd, haddr⟩ := (h.nodes k).forking conn hp
    have hchild : ((T.nodes k).child conn).Sound env T.conns T.peer := by
      refine ⟨(h.nodes k).opened, fun c hc ↦ (by cases hc), fun c hc ↦ ?_⟩
      obtain rfl := NodePc.receive.inj hc
      exact ⟨_, _, [], .refl, hfd, haddr⟩
    have hparent : Node.Sound env T.conns T.peer { T.nodes k with pc := .accept } :=
      ⟨(h.nodes k).opened, fun c hc ↦ (by cases hc), fun c hc ↦ (by cases hc)⟩
    refine ⟨fun j hj ↦ ?_, ?_⟩
    · simp only at hj
      have hb : j ≠ T.born := by omega
      have hne : j ≠ k := by omega
      simp only [Tree.set_nodes_of_ne hb, Tree.set_nodes_of_ne hne]
      exact h.fresh j (by omega)
    · refine (Function.forall_update_iff (Tree.set T k { T.nodes k with pc := .accept }).nodes
        (fun _ s ↦ s.Sound env T.conns T.peer)).mpr ⟨hchild, fun j _ ↦ ?_⟩
      exact (h.set (here hp (by simp)) hparent).nodes j
  | ran conn a p' w₁ es' hp hstep hd =>
    refine h.set (here hp (by simp)) ⟨(h.nodes k).opened, fun c hc ↦ ?_, fun c hc ↦ ?_⟩
    · simp [hp] at hc
    · obtain ⟨t, u, τ, hrun, hfd, haddr⟩ := (h.nodes k).handling c hc
      exact ⟨t, u, _, hrun.snoc trivial hstep, hfd, haddr⟩
  | left conn hp hm =>
    refine h.set (here hp (by simp)) ⟨fun fd c hc ↦ ?_, fun c hc ↦ (by cases hc),
      fun c hc ↦ (by cases hc)⟩
    by_cases hfd : fd = ((T.nodes k).proc.tcpInfo 0).acceptfd
    · simp [Node.left, hfd] at hc
    · simp only [Node.left, Function.update_of_ne hfd] at hc
      exact (h.nodes k).opened fd c hc

/-- It holds at the start. -/
theorem Tree.start_sound (env : Env) (t : Table) : (Tree.start t).Sound env := by
  refine ⟨fun k hk ↦ ?_, fun k ↦ ⟨by simp [Tree.start], fun c hc ↦ ?_, fun c hc ↦ ?_⟩⟩
  · have hne : k ≠ 0 := Nat.ne_of_gt hk
    simp [Tree.start, hne]
  · simp only [Tree.start] at hc
    split at hc <;> cases hc
  · simp only [Tree.start] at hc
    split at hc <;> cases hc

/-- It holds in every reachable tree. -/
theorem Tree.sound_of_run {C : World → Tree → Nat × NodeAct → Prop}
    {τ : List (Nat × TreeEvent)} (h : (tree env).RunIn C (Tree.start t) τ T) : T.Sound env :=
  h.invariant (fun _ T ↦ T.Sound env) (Tree.start_sound env t)
    (fun _ _ _ _ _ _ _ hT _ hs ↦ hT.step hs)

/-- A handler acts for its own peer. Whatever the processes of the tree accept, fork, receive
and close, and whatever the client threads write to the table: in a process inside
`distribute_receive` the descriptor and the address in entry 0 belong to the connection that
the process was forked for. -/
theorem handler_acts_for_own_peer {τ : List (Nat × TreeEvent)} {k conn : Nat}
    (h : (tree env).Open (Tree.start t) τ T) (hk : (T.nodes k).pc = .receive conn) :
    (T.nodes k).files ((T.nodes k).proc.tcpInfo 0).acceptfd = some conn ∧
      ((T.nodes k).proc.tcpInfo 0).acceptedAddress = T.peer conn := by
  obtain ⟨t', u, υ, hrun, hfd, haddr⟩ := ((Tree.sound_of_run h).nodes k).handling conn hk
  obtain ⟨hfd', haddr'⟩ := entry_of_open (Proc.forked_waiting t' u) hrun
  rw [hfd', haddr']
  exact ⟨hfd, haddr⟩

/-- The first handler has gone back to the loop and has forked one more for a third peer,
while the second still handles its own. -/
theorem handler_acts_for_own_peer_after_return :
    let env : Env := ⟨['d'], fun _ ↦ ['1']⟩
    ∃ τ T, (tree env).Open (Tree.start (fun _ ↦ {})) τ T ∧
      ((T.nodes 2).pc = .receive 1 ∧ (T.nodes 3).pc = .receive 2 ∧ T.peer 2 = ['z']) ∧
      ((T.nodes 3).files ((T.nodes 3).proc.tcpInfo 0).acceptfd = some 2 ∧
        ((T.nodes 3).proc.tcpInfo 0).acceptedAddress = T.peer 2) := by
  intro env
  let w : World := ⟨∅, ⟨∅, fun _ ↦ none⟩⟩
  obtain ⟨τ, T, hrun, hobs⟩ := Machine.exec_observe (tree env) (fun _ _ _ ↦ true)
    (Tree.start (fun _ ↦ {}))
    [(w, 0, .accept (some (4, ['x']))), (w, 0, .fork true), (w, 0, .accept (some (5, ['y']))),
      (w, 0, .fork true), (w, 1, .run (.main {})), (w, 1, .leave),
      (w, 1, .accept (some (4, ['z']))), (w, 1, .fork true)]
    (fun T _ ↦ (T.nodes 2).pc = .receive 1 ∧ (T.nodes 3).pc = .receive 2 ∧ T.peer 2 = ['z'])
    (fun _ _ _ _ ↦ trivial) (by decide)
  exact ⟨τ, T, hrun, hobs, handler_acts_for_own_peer hrun hobs.2.1⟩

end DupDistribute.Server

import DupDistribute.Server.Tree

/-!
# Who accepts, and which descriptors stay open

After `distribute_receive` a child falls through to the next round of the accept loop
(`util.c:86-95`, `util.c:189-195`), and no process but the handler closes an accepted
descriptor. So the tree keeps a single acceptor, and descriptors of live connections only,
as long as no connection ends; the first one that ends leaves a second acceptor and a
descriptor that the first acceptor holds for ever. The same descriptor is left by a handler that
dies: of a null stream, of a second `free`, of `SIGPIPE`, or of a request that overruns the struct
it is copied to.
-/

namespace DupDistribute.Server

open DupDistribute.Base DupDistribute.Wire DupDistribute.Distribute DupDistribute.Playback
open DupDistribute.Record (Env)

variable {env : Env} {t : Table} {T T' : Tree} {w w' : World} {es : List (Nat × TreeEvent)}

/-! ### Inputs -/

/-- `accept` and `fork` work. -/
def NodeAct.Succeeds : NodeAct → Prop
  | .accept none => False
  | .fork false => False
  | _ => True

instance : (a : NodeAct) → Decidable a.Succeeds
  | .accept none => inferInstanceAs (Decidable False)
  | .accept (some _) => inferInstanceAs (Decidable True)
  | .fork false => inferInstanceAs (Decidable False)
  | .fork true => inferInstanceAs (Decidable True)
  | .run _ => inferInstanceAs (Decidable True)
  | .leave => inferInstanceAs (Decidable True)

/-- `recv` returns 0 or -1 in the process that moves: its connection ends. -/
def Tree.Ends (T : Tree) (k : Nat) : NodeAct → Prop
  | .run (.main a) => (T.nodes k).proc.main = .recv ∧ a.chunk = none
  | _ => False

instance (T : Tree) (k : Nat) : (a : NodeAct) → Decidable (T.Ends k a)
  | .run (.main _) => inferInstanceAs (Decidable (_ ∧ _))
  | .run (.client _ _) => inferInstanceAs (Decidable False)
  | .accept _ => inferInstanceAs (Decidable False)
  | .fork _ => inferInstanceAs (Decidable False)
  | .leave => inferInstanceAs (Decidable False)

/-- Nothing in the step kills the handler: no record file of a replay fails to open, no entry that
is freed again ends the process, no `send` raises `SIGPIPE`, and no playback request is longer than
the struct that `playback_run` copies it to (`playback.c:168`). -/
def NodeAct.Harmless : NodeAct → Prop
  | .run (.client _ a) =>
    a.session.scan.content ≠ none ∧ a.session.scan.freeAborts = false ∧ a.Unsignalled
  | .run (.main a) =>
    ∀ chunk ∈ a.chunk, IsPlayback chunk → chunk.length ≤ sizeofReplayProtocol
  | _ => True

instance : (a : NodeAct) → Decidable a.Harmless
  | .run (.client _ _) => inferInstanceAs (Decidable (_ ∧ _))
  | .run (.main a) => inferInstanceAs (Decidable (∀ chunk ∈ a.chunk, _ → _))
  | .accept _ => inferInstanceAs (Decidable True)
  | .fork _ => inferInstanceAs (Decidable True)
  | .leave => inferInstanceAs (Decidable True)

/-! ### How a handler leaves `distribute_receive` -/

/-- A handler is done with `recv` only when the connection ends. -/
theorem closed_of_step {p p' : Proc} {a : Act} {es : List Event}
    (h : p.step env w a = some (p', w', es)) (hc : p.main ≠ .closed)
    (hc' : p'.main = .closed) : p.main = .recv ∧ ∃ i, a = .main i ∧ i.chunk = none := by
  cases a with
  | client j i =>
    obtain ⟨pc', t', shm', es', -, rfl, -, -⟩ := Proc.client_step h
    simp only [Proc.afterClient] at hc'
    split at hc'
    · cases hc'
    · exact absurd hc' hc
  | main i =>
    cases Proc.mainDoes_of_step h with
    | closed hm hchunk => exact ⟨hm, i, rfl, hchunk⟩
    | received chunk =>
      simp only [Proc.receive] at hc'
      split at hc' <;> first | cases hc' | exact absurd hc' hc
    | record s' st' es' =>
      simp only [MainPc.afterRecord] at hc'
      split at hc' <;> cases hc'
    | _ => cases hc'

/-- A session crashes only when a record file cannot be opened or an entry is freed again. -/
theorem input_of_crash {param : ThreadParam} {w w' : Shm} {a : ClientInput}
    {t t' : Table} {pc pc' : ClientPc} {es : List ClientEvent}
    (h : ClientDoes env param w a t pc pc' t' w' es) (hc : pc' = .crashed) :
    a.session.scan.content = none ∨ a.session.scan.freeAborts = true := by
  cases h with
  | session fd s s' _ es' hs =>
    have hcr : s'.pc = .crashed := by
      simp only [ClientPc.ofSession] at hc
      split at hc <;> simp_all
    cases hs with
    | scanned sc sc' es'' hp hsc =>
      have hcr' : sc'.pc = .crashed := by
        simp only [SessionPc.ofScan] at hcr
        split at hcr <;> simp_all
      cases Scan.does_of_step hsc with
      | aborted _ ha => exact .inr (Bool.and_eq_true_iff.mp ha).2
      | crashed _ _ hcontent => exact .inl hcontent
      | worked buffer _ ha hcontent =>
        rcases Scan.body_worked (s.scanArgs (t s.index).address (t s.index).acceptfd) ha
          hcontent with hb | hb <;> simp [hb] at hcr'
      | _ => cases hcr'
    | _ => cases hcr
  | _ => cases hc

/-- In the model these are the only ways for a handler to die. -/
theorem dead_of_step {p p' : Proc} {a : Act} {es : List Event}
    (h : p.step env w a = some (p', w', es)) (hd : p.main ≠ .dead) (hd' : p'.main = .dead) :
    ¬ NodeAct.Harmless (.run a) := by
  cases a with
  | client j i =>
    obtain ⟨pc', t', shm', es', hs, rfl, -, -⟩ := Proc.client_step h
    have hcr : pc' = .crashed := by
      by_contra hcr
      rw [Proc.afterClient_of_ne hcr] at hd'
      exact hd hd'
    rintro ⟨hcontent, hfree, -⟩
    rcases input_of_crash (clientDoes_of_step hs) hcr with hc | hc
    · exact hcontent hc
    · simp [hc] at hfree
  | main i =>
    cases Proc.mainDoes_of_step h with
    | received chunk =>
      simp only [Proc.receive] at hd'
      split at hd' <;> first | cases hd' | exact absurd hd' hd
    | record s' st' es' =>
      simp only [MainPc.afterRecord] at hd'
      split at hd' <;> cases hd'
    | _ => cases hd'

/-! ### Processes in the accept loop -/

/-- The process is in the accept loop. -/
def Node.InLoop (s : Node) : Prop := s.pc = .accept ∨ ∃ conn, s.pc = .fork conn

/-- The original process is in the accept loop, and no other is. -/
def Tree.SingleAcceptor (T : Tree) : Prop := ∀ k, (T.nodes k).InLoop ↔ k = 0

/-- The original process accepts for ever, and all it accepted is open in it. -/
private structure Rooted (τ : List (Nat × TreeEvent)) (T : Tree) : Prop where
  inLoop : (T.nodes 0).InLoop
  kept : ∀ conn fd, (0, TreeEvent.accepted conn fd) ∈ τ → (T.nodes 0).files fd = some conn

private theorem Node.inLoop_ne_absent {s : Node} (h : s.InLoop) : s.pc ≠ .absent := by
  rcases h with h | ⟨conn, h⟩ <;> simp [h]

private theorem rooted_step {τ : List (Nat × TreeEvent)} {k : Nat} {a : NodeAct}
    (hT : T.Sound env) (h : Rooted τ T) (ha : a.Succeeds)
    (hs : T.step env w (k, a) = some (T', w', es)) : Rooted (τ ++ es) T' := by
  have hborn : 0 < T.born := hT.born (Node.inLoop_ne_absent h.inLoop)
  -- Only `accept` by the original process itself adds to what has to be kept.
  have keep (hf : (T'.nodes 0).files = (T.nodes 0).files)
      (he : ∀ conn fd, (0, TreeEvent.accepted conn fd) ∉ es) (conn : Nat) (fd : Int)
      (hm : (0, TreeEvent.accepted conn fd) ∈ τ ++ es) :
      (T'.nodes 0).files fd = some conn := by
    rw [hf]
    rcases List.mem_append.mp hm with hm | hm
    · exact h.kept conn fd hm
    · exact absurd hm (he conn fd)
  have other (hk : k ≠ 0) (s : Node) : (T.set k s).nodes 0 = T.nodes 0 :=
    T.set_nodes_of_ne (Ne.symm hk) s
  have receives {conn : Nat} (hp : (T.nodes k).pc = .receive conn) : k ≠ 0 := by
    rintro rfl
    rcases h.inLoop with hl | ⟨c, hl⟩ <;> simp [hl] at hp
  cases Tree.does_of_step hs with
  | refused => exact absurd ha id
  | notForked => exact absurd ha id
  | accepted fd address hp hfd =>
    by_cases hk : k = 0
    · subst hk
      refine ⟨.inr ⟨T.conns, by simp [Node.accepted]⟩, fun conn fd' hm ↦ ?_⟩
      simp only [Tree.set_nodes_self, Node.accepted]
      simp only [List.mem_append, List.mem_singleton, Prod.mk.injEq, TreeEvent.accepted.injEq,
        true_and] at hm
      rcases hm with hm | ⟨rfl, rfl⟩
      · have hold := h.kept conn fd' hm
        have hne : fd' ≠ fd := by
          rintro rfl
          simp [hold] at hfd
        rw [Function.update_of_ne hne, hold]
      · rw [Function.update_self]
    · have hnode := other hk ((T.nodes k).accepted T.conns fd address)
      refine ⟨?_, keep ?_ (by simp [Ne.symm hk])⟩
      · simp only [hnode]
        exact h.inLoop
      · simp only [hnode]
  | forked conn hp =>
    have hchild := (T.set k { T.nodes k with pc := .accept }).set_nodes_of_ne
      (Nat.ne_of_lt hborn) ((T.nodes k).child conn)
    by_cases hk : k = 0
    · subst hk
      refine ⟨.inl ?_, keep ?_ (by simp)⟩
      · simp only [hchild, Tree.set_nodes_self]
      · simp only [hchild, Tree.set_nodes_self]
    · have hnode := other hk { T.nodes k with pc := .accept }
      refine ⟨?_, keep ?_ (by simp)⟩
      · simp only [hchild, hnode]
        exact h.inLoop
      · simp only [hchild, hnode]
  | ran conn a p' w₁ es' hp hstep hd =>
    have hnode := other (receives hp) { T.nodes k with proc := p' }
    exact ⟨by rw [hnode]; exact h.inLoop, keep (by rw [hnode]) (by simp)⟩
  | crashed conn a p' w₁ es' hp hstep hd =>
    have hnode := other (receives hp) { T.nodes k with proc := p' }.exit
    exact ⟨by rw [hnode]; exact h.inLoop, keep (by rw [hnode]) (by simp)⟩
  | left conn hp hm =>
    have hnode := other (receives hp) (T.nodes k).left
    exact ⟨by rw [hnode]; exact h.inLoop, keep (by rw [hnode]) (by simp)⟩

private theorem rooted_of_run {C : World → Tree → Nat × NodeAct → Prop}
    {τ : List (Nat × TreeEvent)} (hC : ∀ w T x, C w T x → x.2.Succeeds)
    (h : (tree env).RunIn C (Tree.start t) τ T) : Rooted τ T := by
  have hinv := h.invariant (fun τ T ↦ T.Sound env ∧ Rooted τ T)
    ⟨Tree.start_sound env t, .inl rfl, by simp⟩
    (fun _ _ _ _ _ _ _ hT hc hs ↦ ⟨hT.1.step hs, rooted_step hT.1 hT.2 (hC _ _ _ hc) hs⟩)
  exact hinv.2

/-- While no connection has ended: a process other than the original one is not in the loop,
and none is about to return to it. -/
private def Node.Kept (k : Nat) (s : Node) : Prop :=
  (k ≠ 0 → ¬ s.InLoop) ∧ ∀ conn, s.pc = .receive conn → s.proc.main ≠ .closed

private theorem kept_set {k : Nat} {s : Node} (h : ∀ j, (T.nodes j).Kept j) (hs : s.Kept k) :
    ∀ j, ((T.set k s).nodes j).Kept j :=
  (Function.forall_update_iff T.nodes (fun j s ↦ s.Kept j)).mpr ⟨hs, fun j _ ↦ h j⟩

private theorem kept_exit (k : Nat) (s : Node) : s.exit.Kept k :=
  ⟨fun _ hl ↦ by simp [Node.InLoop, Node.exit] at hl, by simp [Node.exit]⟩

private theorem kept_step {k : Nat} {a : NodeAct} (h : ∀ j, (T.nodes j).Kept j)
    (ha : ¬ T.Ends k a) (hs : T.step env w (k, a) = some (T', w', es)) :
    ∀ j, (T'.nodes j).Kept j := by
  have root (hl : (T.nodes k).InLoop) : k = 0 := by
    by_contra hk
    exact (h k).1 hk hl
  cases Tree.does_of_step hs with
  | refused => exact kept_set h (kept_exit k _)
  | notForked => exact kept_set h (kept_exit k _)
  | crashed => exact kept_set h (kept_exit k _)
  | accepted fd address hp =>
    have hk := root (.inl hp)
    exact kept_set h ⟨fun hne ↦ absurd hk hne, by simp [Node.accepted]⟩
  | forked conn hp =>
    have hk := root (.inr ⟨conn, hp⟩)
    have hparent := kept_set h (s := { T.nodes k with pc := .accept }) (k := k)
      ⟨fun hne ↦ absurd hk hne, by simp⟩
    refine kept_set hparent ⟨fun _ hl ↦ ?_, fun _ _ ↦ ?_⟩
    · simp [Node.InLoop, Node.child] at hl
    · simp [Node.child, Proc.forked]
  | ran conn a p' w₁ es' hp hstep hd =>
    refine kept_set h ⟨(h k).1, fun c hc hclosed ↦ ?_⟩
    obtain ⟨hm, i, rfl, hi⟩ := closed_of_step hstep ((h k).2 c hc) hclosed
    exact ha ⟨hm, hi⟩
  | left conn hp hm => exact absurd hm ((h k).2 conn hp)

private theorem start_kept (t : Table) (k : Nat) : ((Tree.start t).nodes k).Kept k := by
  refine ⟨fun hk hl ↦ ?_, fun conn hc ↦ ?_⟩
  · simp [Tree.start, Node.InLoop, hk] at hl
  · simp only [Tree.start] at hc
    split at hc <;> cases hc

/-! ### A single acceptor -/

/-- A connection ends: the handler returns to the loop. -/
private theorem returns_of_ends {k : Nat} {a : NodeAct} {τ : List (Nat × TreeEvent)}
    (hr : Rooted τ T) (ha : T.Ends k a) (hs : T.step env w (k, a) = some (T', w', es)) :
    k ≠ 0 ∧ ∃ conn, (T.nodes k).pc = .receive conn ∧ (T'.nodes 0).InLoop ∧
      T'.nodes k = { T.nodes k with proc := { (T.nodes k).proc with main := .closed } } := by
  have hk {conn : Nat} (hp : (T.nodes k).pc = .receive conn) : k ≠ 0 := by
    rintro rfl
    rcases hr.inLoop with hl | ⟨c, hl⟩ <;> simp [hl] at hp
  have step {i : Act} {p' : Proc} {w₁ : World} {es' : List Event}
      (ha : T.Ends k (.run i)) (hstep : (T.nodes k).proc.step env w i = some (p', w₁, es')) :
      p' = { (T.nodes k).proc with main := .closed } := by
    cases i with
    | client => exact absurd ha id
    | main i =>
      obtain ⟨hm, hi⟩ := ha
      simp only [Proc.step, Proc.mainStep, hm, hi, Option.some.injEq, Prod.mk.injEq] at hstep
      exact hstep.1.symm
  cases Tree.does_of_step hs with
  | ran conn i p' w₁ es' hp hstep hd =>
    refine ⟨hk hp, conn, hp, ?_, ?_⟩
    · rw [T.set_nodes_of_ne (Ne.symm (hk hp))]
      exact hr.inLoop
    · rw [T.set_nodes_self, step ha hstep]
  | crashed conn i p' w₁ es' hp hstep hd =>
    rw [step ha hstep] at hd
    cases hd
  | _ => exact absurd ha id

/-- For every sequence of connects, received data and disconnects, with `accept` and `fork`
working: as long as no connection has ended, the original process and no other is in the
accept loop. The first handler whose connection ends is in the loop as well once it has
returned from `distribute_receive`. -/
theorem singleAcceptor_while_no_connection_ends (env : Env) (t : Table) :
    (∀ τ T, (tree env).RunIn (fun _ T x ↦ x.2.Succeeds ∧ ¬ T.Ends x.1 x.2) (Tree.start t) τ T →
      T.SingleAcceptor) ∧
      ∀ τ T k a w T₁ w₁ es, (tree env).RunIn (fun _ _ x ↦ x.2.Succeeds) (Tree.start t) τ T →
        T.Ends k a → (tree env).step w T (k, a) = some (T₁, w₁, es) →
        ∃ T₂ es', (tree env).step w₁ T₁ (k, .leave) = some (T₂, w₁, es') ∧ k ≠ 0 ∧
          (T₂.nodes 0).InLoop ∧ (T₂.nodes k).InLoop := by
  constructor
  · intro τ T h k
    have hroot := rooted_of_run (fun _ _ _ hc ↦ hc.1) h
    have hkept : ∀ j, (T.nodes j).Kept j :=
      h.invariant (fun _ T ↦ ∀ j, (T.nodes j).Kept j) (start_kept t)
        (fun _ _ _ _ _ _ _ hT hc hs ↦ kept_step hT hc.2 hs)
    constructor
    · intro hl
      by_contra hk
      exact (hkept k).1 hk hl
    · rintro rfl
      exact hroot.inLoop
  · intro τ T k a w T₁ w₁ es h ha hs
    obtain ⟨hk, conn, hp, hl, hnode⟩ := returns_of_ends (rooted_of_run (fun _ _ _ hc ↦ hc) h) ha hs
    refine ⟨T₁.set k (T₁.nodes k).left, [(k, .closed ((T.nodes k).proc.tcpInfo 0).acceptfd)],
      ?_, hk, ?_, ?_⟩
    · simp [tree, Tree.step, hnode, hp]
    · rw [T₁.set_nodes_of_ne (Ne.symm hk)]
      exact hl
    · rw [T₁.set_nodes_self]
      exact .inl rfl

/-- One client connects, is handled by process 1 and disconnects: processes 0 and 1 accept. -/
theorem child_accepts_after_disconnect :
    let env : Env := ⟨['d'], fun _ ↦ ['1']⟩
    ∃ τ T, (tree env).RunIn (fun _ _ x ↦ x.2.Succeeds) (Tree.start (fun _ ↦ {})) τ T ∧
      ((T.nodes 0).pc = .accept ∧ (T.nodes 1).pc = .accept) ∧ ¬ T.SingleAcceptor := by
  intro env
  let w : World := ⟨∅, ⟨∅, fun _ ↦ none⟩⟩
  obtain ⟨τ, T, hrun, hobs⟩ := Machine.exec_observe (tree env)
    (fun _ _ x ↦ decide x.2.Succeeds) (Tree.start (fun _ ↦ {}))
    [(w, 0, .accept (some (4, ['x']))), (w, 0, .fork true), (w, 1, .run (.main {})),
      (w, 1, .leave)]
    (fun T _ ↦ (T.nodes 0).pc = .accept ∧ (T.nodes 1).pc = .accept)
    (fun _ _ _ ha ↦ of_decide_eq_true ha) (by decide)
  refine ⟨τ, T, hrun, hobs, fun hsingle ↦ ?_⟩
  exact absurd ((hsingle 1).mp (.inl hobs.2)) (by decide)

/-- Two connections, both still handled. -/
theorem singleAcceptor_two_connections :
    let env : Env := ⟨['d'], fun _ ↦ ['1']⟩
    ∃ τ T, (tree env).RunIn (fun _ T x ↦ x.2.Succeeds ∧ ¬ T.Ends x.1 x.2)
        (Tree.start (fun _ ↦ {})) τ T ∧
      ((T.nodes 1).pc = .receive 0 ∧ (T.nodes 2).pc = .receive 1) ∧ T.SingleAcceptor := by
  intro env
  let w : World := ⟨∅, ⟨∅, fun _ ↦ none⟩⟩
  obtain ⟨τ, T, hrun, hobs⟩ := Machine.exec_observe (tree env)
    (fun _ T x ↦ decide (x.2.Succeeds ∧ ¬ T.Ends x.1 x.2)) (Tree.start (fun _ ↦ {}))
    [(w, 0, .accept (some (4, ['x']))), (w, 0, .fork true),
      (w, 1, .run (.main { chunk := some [0] })), (w, 0, .accept (some (5, ['y']))),
      (w, 0, .fork true)]
    (fun T _ ↦ (T.nodes 1).pc = .receive 0 ∧ (T.nodes 2).pc = .receive 1)
    (fun _ _ _ ha ↦ of_decide_eq_true ha) (by decide)
  exact ⟨τ, T, hrun, hobs,
    (singleAcceptor_while_no_connection_ends env (fun _ ↦ {})).1 τ T hrun⟩

/-! ### Open descriptors -/

/-- Some process handles the connection, or is about to fork for it. -/
def Tree.Handled (T : Tree) (conn : Nat) : Prop :=
  ∃ k, (T.nodes k).pc = .receive conn ∨ (T.nodes k).pc = .fork conn

/-- Every accepted descriptor that is open in any process belongs to a handled connection. -/
def Tree.DescriptorsHandled (T : Tree) : Prop :=
  ∀ k fd conn, (T.nodes k).files fd = some conn → T.Handled conn

/-- While no connection has ended and no handler crashed: every open descriptor is handled, and
the one just accepted is open in the original process only. -/
private structure Attended (T : Tree) : Prop where
  kept : ∀ j, (T.nodes j).Kept j
  alive : ∀ k conn, (T.nodes k).pc = .receive conn → (T.nodes k).proc.main ≠ .dead
  handled : T.DescriptorsHandled
  alone : ∀ conn, (T.nodes 0).pc = .fork conn → ∀ k fd, k ≠ 0 →
    (T.nodes k).files fd ≠ some conn

private theorem Attended.root (h : Attended T) {k : Nat} (hl : (T.nodes k).InLoop) : k = 0 := by
  by_contra hk
  exact (h.kept k).1 hk hl

private theorem Attended.congr (h : Attended T) (hn : T'.nodes = T.nodes) : Attended T' := by
  obtain ⟨kept, alive, handled, alone⟩ := h
  rw [Tree.DescriptorsHandled] at handled
  simp only [Tree.Handled, ← hn] at kept alive handled alone
  exact ⟨kept, alive, handled, alone⟩

/-- A connection stays handled when another process changes. -/
private theorem Tree.handled_set {conn j k : Nat} (n : Node) (hjk : j ≠ k)
    (hj : (T.nodes j).pc = .receive conn ∨ (T.nodes j).pc = .fork conn) :
    (T.set k n).Handled conn :=
  ⟨j, by rwa [T.set_nodes_of_ne hjk]⟩

/-- The original process ends, and with it what only it had open. -/
private theorem Attended.exit (h : Attended T)
    (hkept : ∀ j, ((T.set 0 (T.nodes 0).exit).nodes j).Kept j)
    (hother : ∀ conn, (T.nodes 0).pc ≠ .receive conn) : Attended (T.set 0 (T.nodes 0).exit) := by
  refine ⟨hkept, fun k conn hp ↦ ?_, fun k fd conn hf ↦ ?_, fun conn hp ↦ ?_⟩
  · by_cases hk : k = 0
    · subst hk
      simp [Node.exit] at hp
    · rw [T.set_nodes_of_ne hk] at hp ⊢
      exact h.alive k conn hp
  · by_cases hk : k = 0
    · subst hk
      simp [Node.exit] at hf
    · rw [T.set_nodes_of_ne hk] at hf
      obtain ⟨j, hj⟩ := h.handled k fd conn hf
      have hj0 : j ≠ 0 := by
        rintro rfl
        rcases hj with hj | hj
        · exact hother conn hj
        · exact h.alone conn hj k fd hk hf
      exact Tree.handled_set _ hj0 hj
  · simp [Node.exit] at hp

/-- The original process accepts a connection, which is new to every process. -/
private theorem Attended.accept (h : Attended T) (hT : T.Sound env) {fd : Int}
    {address : CString} (hp : (T.nodes 0).pc = .accept)
    (hkept : ∀ j, ((T.set 0 ((T.nodes 0).accepted T.conns fd address)).nodes j).Kept j) :
    Attended (T.set 0 ((T.nodes 0).accepted T.conns fd address)) := by
  have old {k conn : Nat} {fd' : Int} (hf : (T.nodes k).files fd' = some conn) :
      (T.set 0 ((T.nodes 0).accepted T.conns fd address)).Handled conn := by
    obtain ⟨j, hj⟩ := h.handled k fd' conn hf
    refine Tree.handled_set _ ?_ hj
    rintro rfl
    simp [hp] at hj
  refine ⟨hkept, fun k conn hc ↦ ?_, fun k fd' conn hf ↦ ?_, fun conn hc k fd' hk hf ↦ ?_⟩
  · by_cases hk : k = 0
    · subst hk
      simp [Node.accepted] at hc
    · simp only [T.set_nodes_of_ne hk] at hc ⊢
      exact h.alive k conn hc
  · by_cases hk : k = 0
    · subst hk
      simp only [Tree.set_nodes_self, Node.accepted] at hf
      by_cases hfd' : fd' = fd
      · rw [hfd', Function.update_self, Option.some.injEq] at hf
        exact ⟨0, .inr (by simp [Node.accepted, hf])⟩
      · rw [Function.update_of_ne hfd'] at hf
        exact old hf
    · simp only [T.set_nodes_of_ne hk] at hf
      exact old hf
  · simp only [T.set_nodes_of_ne hk] at hf
    simp only [Tree.set_nodes_self, Node.accepted, NodePc.fork.injEq] at hc
    have hlt := (hT.nodes k).opened fd' conn hf
    omega

/-- The child takes over the connection from the original process. -/
private theorem Attended.fork (h : Attended T) (hT : T.Sound env) {conn : Nat}
    (hp : (T.nodes 0).pc = .fork conn)
    (hkept : ∀ j, (((T.set 0 { T.nodes 0 with pc := .accept }).set T.born
      ((T.nodes 0).child conn)).nodes j).Kept j) :
    Attended ((T.set 0 { T.nodes 0 with pc := .accept }).set T.born
      ((T.nodes 0).child conn)) := by
  have hborn : 0 < T.born := hT.born (by simp [hp])
  have hzero := (T.set 0 { T.nodes 0 with pc := .accept }).set_nodes_of_ne
    (Nat.ne_of_lt hborn) ((T.nodes 0).child conn)
  rw [T.set_nodes_self] at hzero
  have hrest {j : Nat} (h0 : j ≠ 0) (hb : j ≠ T.born) :
      ((T.set 0 { T.nodes 0 with pc := .accept }).set T.born ((T.nodes 0).child conn)).nodes j =
        T.nodes j := by
    rw [Tree.set_nodes_of_ne hb, T.set_nodes_of_ne h0]
  have old {c : Nat} (hh : T.Handled c) : ((T.set 0 { T.nodes 0 with pc := .accept }).set T.born
      ((T.nodes 0).child conn)).Handled c := by
    obtain ⟨j, hj⟩ := hh
    by_cases h0 : j = 0
    · subst h0
      obtain rfl : conn = c := by simpa [hp] using hj
      exact ⟨T.born, .inl (by simp [Node.child])⟩
    · have hb : j ≠ T.born := by
        rintro rfl
        simp [hT.fresh T.born (Nat.le_refl _)] at hj
      exact ⟨j, by rwa [hrest h0 hb]⟩
  refine ⟨hkept, fun k c hc ↦ ?_, fun k fd c hf ↦ ?_, fun c hc ↦ ?_⟩
  · by_cases hb : k = T.born
    · simp [hb, Node.child, Proc.forked]
    · by_cases h0 : k = 0
      · subst h0
        simp [hzero] at hc
      · simp only [hrest h0 hb] at hc ⊢
        exact h.alive k c hc
  · by_cases hb : k = T.born
    · simp only [hb, Tree.set_nodes_self, Node.child] at hf
      exact old (h.handled 0 fd c hf)
    · by_cases h0 : k = 0
      · simp only [h0, hzero] at hf
        exact old (h.handled 0 fd c hf)
      · simp only [hrest h0 hb] at hf
        exact old (h.handled k fd c hf)
  · simp [hzero] at hc

/-- A handler takes a step and goes on. -/
private theorem Attended.run (h : Attended T) {k : Nat} {p' : Proc}
    (hkept : ∀ j, ((T.set k { T.nodes k with proc := p' }).nodes j).Kept j)
    (hd : p'.main ≠ .dead) : Attended (T.set k { T.nodes k with proc := p' }) := by
  have same (j : Nat) : ((T.set k { T.nodes k with proc := p' }).nodes j).pc = (T.nodes j).pc ∧
      ((T.set k { T.nodes k with proc := p' }).nodes j).files = (T.nodes j).files := by
    by_cases hj : j = k
    · subst hj
      simp
    · simp [T.set_nodes_of_ne hj]
  refine ⟨hkept, fun j c hc ↦ ?_, fun j fd c hf ↦ ?_, fun c hc j fd hj ↦ ?_⟩
  · by_cases hj : j = k
    · subst hj
      simpa using hd
    · rw [T.set_nodes_of_ne hj] at hc ⊢
      exact h.alive j c hc
  · rw [(same j).2] at hf
    obtain ⟨m, hm⟩ := h.handled j fd c hf
    exact ⟨m, by rwa [(same m).1]⟩
  · rw [(same 0).1] at hc
    rw [(same j).2]
    exact h.alone c hc j fd hj

private theorem attended_step {k : Nat} {a : NodeAct} (hT : T.Sound env) (h : Attended T)
    (hend : ¬ T.Ends k a) (hharm : a.Harmless)
    (hs : T.step env w (k, a) = some (T', w', es)) : Attended T' := by
  have hkept := kept_step h.kept hend hs
  cases Tree.does_of_step hs with
  | refused hp =>
    obtain rfl := h.root (.inl hp)
    exact h.exit hkept (by simp [hp])
  | notForked conn hp =>
    obtain rfl := h.root (.inr ⟨conn, hp⟩)
    exact h.exit hkept (by simp [hp])
  | accepted fd address hp hfd =>
    obtain rfl := h.root (.inl hp)
    exact (h.accept hT hp hkept).congr rfl
  | forked conn hp =>
    obtain rfl := h.root (.inr ⟨conn, hp⟩)
    exact (h.fork hT hp hkept).congr rfl
  | ran conn i p' w₁ es' hp hstep hd => exact h.run hkept hd
  | crashed conn i p' w₁ es' hp hstep hd =>
    exact absurd hharm (dead_of_step hstep (h.alive k conn hp) hd)
  | left conn hp hm => exact absurd hm ((h.kept k).2 conn hp)

/-- For every sequence of connects and disconnects: as long as no connection has ended and nothing
has killed a handler, every open accepted descriptor belongs to a handled connection. With `accept`
and `fork` working the original process never closes what it accepted, so that it holds only
as long as every connection it ever accepted is still handled. -/
theorem descriptorsHandled_while_no_connection_ends (env : Env) (t : Table) :
    (∀ τ T, (tree env).RunIn (fun _ T x ↦ ¬ T.Ends x.1 x.2 ∧ x.2.Harmless) (Tree.start t) τ T →
      T.DescriptorsHandled) ∧
      ∀ τ T, (tree env).RunIn (fun _ _ x ↦ x.2.Succeeds) (Tree.start t) τ T →
        T.DescriptorsHandled → ∀ conn fd, (0, TreeEvent.accepted conn fd) ∈ τ →
          T.Handled conn := by
  constructor
  · intro τ T h
    have hinv := h.invariant (fun _ T ↦ T.Sound env ∧ Attended T)
      ⟨Tree.start_sound env t, start_kept t, ?_, by simp [Tree.DescriptorsHandled, Tree.start],
        by simp [Tree.start]⟩
      (fun _ _ _ _ _ _ _ hT hc hs ↦ ⟨hT.1.step hs, attended_step hT.1 hT.2 hc.1 hc.2 hs⟩)
    · exact hinv.2.handled
    · simp [Tree.start, Proc.forked]
  · intro τ T h hd conn fd hm
    exact hd 0 fd conn ((rooted_of_run (fun _ _ _ hc ↦ hc) h).kept conn fd hm)

/-- One client connects and disconnects: its handler has closed the descriptor, but it is open
in the original process, and nobody handles the connection. -/
theorem descriptor_stays_open :
    let env : Env := ⟨['d'], fun _ ↦ ['1']⟩
    ∃ τ T, (tree env).RunIn (fun _ _ x ↦ x.2.Succeeds) (Tree.start (fun _ ↦ {})) τ T ∧
      ((T.nodes 1).files 4 = none ∧ (T.nodes 0).files 4 = some 0) ∧ ¬ T.DescriptorsHandled := by
  intro env
  let w : World := ⟨∅, ⟨∅, fun _ ↦ none⟩⟩
  obtain ⟨τ, T, hrun, hpc, hborn, hfiles⟩ := Machine.exec_observe (tree env)
    (fun _ _ x ↦ decide x.2.Succeeds) (Tree.start (fun _ ↦ {}))
    [(w, 0, .accept (some (4, ['x']))), (w, 0, .fork true), (w, 1, .run (.main {})),
      (w, 1, .leave)]
    (fun T _ ↦ ((T.nodes 0).pc = .accept ∧ (T.nodes 1).pc = .accept) ∧ T.born = 2 ∧
      (T.nodes 1).files 4 = none ∧ (T.nodes 0).files 4 = some 0)
    (fun _ _ _ ha ↦ of_decide_eq_true ha) (by decide)
  refine ⟨τ, T, hrun, hfiles, fun hd ↦ ?_⟩
  obtain ⟨k, hk⟩ := hd 0 4 0 hfiles.2
  have hlt : k < T.born := (Tree.sound_of_run hrun).born (by rcases hk with hk | hk <;> simp [hk])
  obtain rfl | rfl : k = 0 ∨ k = 1 := by omega
  · simp [hpc.1] at hk
  · simp [hpc.2] at hk

/-- Two connections, both still handled. -/
theorem descriptorsHandled_two_connections :
    let env : Env := ⟨['d'], fun _ ↦ ['1']⟩
    ∃ τ T, (tree env).RunIn (fun _ T x ↦ ¬ T.Ends x.1 x.2 ∧ x.2.Harmless)
        (Tree.start (fun _ ↦ {})) τ T ∧
      ((T.nodes 0).files 4 = some 0 ∧ (T.nodes 0).files 5 = some 1) ∧ T.DescriptorsHandled := by
  intro env
  let w : World := ⟨∅, ⟨∅, fun _ ↦ none⟩⟩
  obtain ⟨τ, T, hrun, hobs⟩ := Machine.exec_observe (tree env)
    (fun _ T x ↦ decide (¬ T.Ends x.1 x.2 ∧ x.2.Harmless)) (Tree.start (fun _ ↦ {}))
    [(w, 0, .accept (some (4, ['x']))), (w, 0, .fork true), (w, 0, .accept (some (5, ['y']))),
      (w, 0, .fork true)]
    (fun T _ ↦ (T.nodes 0).files 4 = some 0 ∧ (T.nodes 0).files 5 = some 1)
    (fun _ _ _ ha ↦ of_decide_eq_true ha) (by decide)
  exact ⟨τ, T, hrun, hobs,
    (descriptorsHandled_while_no_connection_ends env (fun _ ↦ {})).1 τ T hrun⟩

end DupDistribute.Server

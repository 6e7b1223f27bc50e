import DupDistribute.Base.Family
import DupDistribute.Server.Acceptors

/-!
# How the process tree grows

A process of the server leaves its loops in no other way than by a failed `accept` or `fork` or by
a crash (`util.c:57-95`), and a process that accepts never closes what it accepted: that is left
to the child, which closes its own copy (`util.c:83`, `util.c:194`). So every connection that was
handled leaves a process behind, and a process accepts at most as many connections as it can have
descriptors. The `_exit` of a process that cannot open `engine.conf` (`ConfigFile.c:3-6`) is
outside the model: the processes of the tree can always read it.
-/

namespace DupDistribute.Server

open DupDistribute.Base DupDistribute.Distribute
open DupDistribute.Record (Env)

variable {env : Env} {t : Table} {T T' : Tree} {w w' : World} {es : List (Nat × TreeEvent)}
  {τ : List (Nat × TreeEvent)} {k : Nat}

/-! ### Processes -/

/-- In the accept loop. -/
def Node.accepts (s : Node) : Bool :=
  match s.pc with
  | .accept | .fork _ => true
  | _ => false

/-- In `distribute_receive`. -/
def Node.handles (s : Node) : Bool :=
  match s.pc with
  | .receive _ => true
  | _ => false

/-- Ended. -/
def Node.ended (s : Node) : Bool :=
  match s.pc with
  | .gone => true
  | _ => false

/-- How many processes have a property. -/
def Tree.count (T : Tree) (p : Node → Bool) : Nat := countMembers p T.nodes T.born

/-- A child was forked. -/
def TreeEvent.forks : TreeEvent → Bool
  | .forked _ => true
  | _ => false

/-- A descriptor was closed; as long as `fork` works, by a handler on its way back to the loop. -/
def TreeEvent.returns : TreeEvent → Bool
  | .closed _ => true
  | _ => false

/-- Processes against events. -/
structure Accounted (τ : List (Nat × TreeEvent)) (T : Tree) : Prop where
  born : T.born = 1 + τ.countP (fun e ↦ e.2.forks)
  acceptors : T.count Node.accepts = 1 + τ.countP (fun e ↦ e.2.returns)
  handlers : T.count Node.handles + T.count Node.ended + τ.countP (fun e ↦ e.2.returns) =
    τ.countP (fun e ↦ e.2.forks)

private theorem count_set {p : Node → Bool} {s : Node} {x y : Nat} (hk : k < T.born)
    (hx : (p (T.nodes k)).toNat = x) (hy : (p s).toNat = y) :
    (T.set k s).count p + x = T.count p + y := by
  rw [← hx, ← hy]
  exact countMembers_update p hk T.nodes s

private theorem countP_proc (p : TreeEvent → Bool) (hp : ∀ e, p (.proc e) = false)
    (es : List Event) : (es.map (fun e ↦ (k, TreeEvent.proc e))).countP (fun e ↦ p e.2) = 0 := by
  rw [List.countP_map, List.countP_eq_zero]
  intro e _
  simp [hp]

private theorem Accounted.next {b r : Nat} (h : Accounted τ T)
    (hforks : es.countP (fun e ↦ e.2.forks) = b)
    (hreturns : es.countP (fun e ↦ e.2.returns) = r) (hborn : T'.born = T.born + b)
    (hacc : T'.count Node.accepts = T.count Node.accepts + r)
    (hhan : T'.count Node.handles + T'.count Node.ended + r =
      T.count Node.handles + T.count Node.ended + b) : Accounted (τ ++ es) T' := by
  obtain ⟨h₁, h₂, h₃⟩ := h
  constructor <;> rw [List.countP_append] <;> try rw [List.countP_append]
  · omega
  · omega
  · omega

/-- A step of one process that is neither a fork nor a return, and leaves it in the same kind of
place. -/
private theorem Accounted.same {s : Node} (h : Accounted τ T) (hk : k < T.born)
    (hacc : s.accepts = (T.nodes k).accepts)
    (hhan : s.handles.toNat + s.ended.toNat =
      (T.nodes k).handles.toNat + (T.nodes k).ended.toNat)
    (hborn : T'.born = T.born) (hnodes : T'.nodes = (T.set k s).nodes)
    (hforks : es.countP (fun e ↦ e.2.forks) = 0)
    (hreturns : es.countP (fun e ↦ e.2.returns) = 0) : Accounted (τ ++ es) T' := by
  have hcount (p : Node → Bool) : T'.count p = (T.set k s).count p := by
    simp only [Tree.count, hnodes, hborn, Tree.set]
  have ha := count_set (p := Node.accepts) hk rfl (congrArg Bool.toNat hacc)
  have hh := count_set (p := Node.handles) (s := s) hk rfl rfl
  have he := count_set (p := Node.ended) (s := s) hk rfl rfl
  refine h.next hforks hreturns hborn ?_ ?_ <;> simp only [hcount] <;> omega

private theorem accounted_step {a : NodeAct} (hT : T.Sound env) (h : Accounted τ T)
    (ha : a.Succeeds) (hs : T.step env w (k, a) = some (T', w', es)) :
    Accounted (τ ++ es) T' := by
  have born {pc : NodePc} (hp : (T.nodes k).pc = pc) (hne : pc ≠ .absent) : k < T.born :=
    hT.born (hp ▸ hne)
  cases Tree.does_of_step hs with
  | refused => exact absurd ha id
  | notForked => exact absurd ha id
  | accepted fd address hp =>
    exact h.same (born hp (by simp)) (by simp [Node.accepts, Node.accepted, hp])
      (by simp [Node.handles, Node.ended, Node.accepted, hp]) rfl rfl rfl rfl
  | ran conn a p' w₁ es' hp =>
    exact h.same (s := { T.nodes k with proc := p' }) (born hp (by simp)) rfl rfl rfl rfl
      (countP_proc _ (fun _ ↦ rfl) es') (countP_proc _ (fun _ ↦ rfl) es')
  | crashed conn a p' w₁ es' hp =>
    exact h.same (born hp (by simp)) (by simp [Node.accepts, Node.exit, hp])
      (by simp [Node.handles, Node.ended, Node.exit, hp]) rfl rfl
      (countP_proc _ (fun _ ↦ rfl) es') (countP_proc _ (fun _ ↦ rfl) es')
  | left conn hp hm =>
    have hk := born hp (by simp)
    have hacc := count_set (p := Node.accepts) (s := (T.nodes k).left) (x := 0) (y := 1) hk
      (by simp [Node.accepts, hp]) rfl
    have hhan := count_set (p := Node.handles) (s := (T.nodes k).left) (x := 1) (y := 0) hk
      (by simp [Node.handles, hp]) rfl
    have hend := count_set (p := Node.ended) (s := (T.nodes k).left) (x := 0) (y := 0) hk
      (by simp [Node.ended, hp]) rfl
    exact h.next (b := 0) (r := 1) rfl rfl rfl hacc (by omega)
  | forked conn hp =>
    have hk := born hp (by simp)
    -- The parent goes back to `accept`, and the child is counted as a handler.
    have hpush (p : Node → Bool) := countMembers_push p
      (T.set k { T.nodes k with pc := .accept }).nodes T.born ((T.nodes k).child conn)
    have hacc := count_set (p := Node.accepts) (s := { T.nodes k with pc := .accept })
      (x := 1) (y := 1) hk (by simp [Node.accepts, hp]) rfl
    have hhan := count_set (p := Node.handles) (s := { T.nodes k with pc := .accept })
      (x := 0) (y := 0) hk (by simp [Node.handles, hp]) rfl
    have hend := count_set (p := Node.ended) (s := { T.nodes k with pc := .accept })
      (x := 0) (y := 0) hk (by simp [Node.ended, hp]) rfl
    have ha : countMembers Node.accepts _ (T.born + 1) = _ + 0 := hpush Node.accepts
    have hh : countMembers Node.handles _ (T.born + 1) = _ + 1 := hpush Node.handles
    have he : countMembers Node.ended _ (T.born + 1) = _ + 0 := hpush Node.ended
    refine h.next (b := 1) (r := 0) rfl rfl rfl ?_ ?_
    · simp only [Tree.count, Tree.set] at *
      omega
    · simp only [Tree.count, Tree.set] at *
      omega

/-- In every run of the tree, with `accept` and `fork` working and `engine.conf` readable: every
fork adds a process, and none ends but by a crash; each handler that returns is one more process
in the accept loop. -/
theorem processes_accounted
    (h : (tree env).RunIn (fun _ _ x ↦ x.2.Succeeds) (Tree.start t) τ T) : Accounted τ T := by
  have hinv := h.invariant (fun τ T ↦ T.Sound env ∧ Accounted τ T)
    ⟨Tree.start_sound env t, rfl, rfl, rfl⟩
    (fun _ _ _ _ _ _ _ hT hc hs ↦ ⟨hT.1.step hs, accounted_step hT.1 hT.2 hc hs⟩)
  exact hinv.2

/-- Two connections, of which the first has ended: two processes accept, one handles. -/
theorem processes_accounted_one_ended :
    let env : Env := ⟨['d'], fun _ ↦ ['1']⟩
    ∃ τ T, (tree env).RunIn (fun _ _ x ↦ x.2.Succeeds) (Tree.start (fun _ ↦ {})) τ T ∧
      T.count Node.accepts = 2 ∧ T.count Node.handles = 1 ∧ Accounted τ T := by
  intro env
  let w : World := ⟨∅, ⟨∅, fun _ ↦ none⟩⟩
  obtain ⟨τ, T, hrun, hacc, hhan⟩ := Machine.exec_observe (tree env)
    (fun _ _ x ↦ decide x.2.Succeeds) (Tree.start (fun _ ↦ {}))
    [(w, 0, .accept (some (4, ['p']))), (w, 0, .fork true), (w, 1, .run (.main {})),
      (w, 1, .leave), (w, 0, .accept (some (5, ['q']))), (w, 0, .fork true)]
    (fun T _ ↦ T.count Node.accepts = 2 ∧ T.count Node.handles = 1)
    (fun _ _ _ ↦ of_decide_eq_true) (by decide +kernel)
  exact ⟨τ, T, hrun, hacc, hhan, processes_accounted hrun⟩

/-! ### Descriptors -/

/-- The descriptor that process `k` got from `accept`. -/
def acceptedFd (k : Nat) : Nat × TreeEvent → Option Int
  | (j, .accepted _ fd) => if j = k then some fd else none
  | _ => none

/-- The descriptors that process `k` got from `accept`, in order. -/
def acceptedBy (k : Nat) (τ : List (Nat × TreeEvent)) : List Int := τ.filterMap (acceptedFd k)

/-- `accept` returns a descriptor below the limit. -/
def NodeAct.Below (limit : Nat) : NodeAct → Prop
  | .accept (some (fd, _)) => 0 ≤ fd ∧ fd < limit
  | _ => True

instance (limit : Nat) : (a : NodeAct) → Decidable (a.Below limit)
  | .accept none => inferInstanceAs (Decidable True)
  | .accept (some (_, _)) => inferInstanceAs (Decidable (_ ∧ _))
  | .fork _ => inferInstanceAs (Decidable True)
  | .run _ => inferInstanceAs (Decidable True)
  | .leave => inferInstanceAs (Decidable True)

/-- What a process accepted is open in it until it ends; a handler has accepted nothing yet. -/
structure Hoards (limit : Nat) (fds : List Int) (s : Node) : Prop where
  nodup : fds.Nodup
  below : ∀ fd ∈ fds, 0 ≤ fd ∧ fd < limit
  kept : s.pc ≠ .gone → ∀ fd ∈ fds, s.files fd ≠ none
  early : s.accepts = false → s.pc ≠ .gone → fds = []

variable {limit : Nat} {fds : List Int} {s : Node}

private theorem Hoards.nil (s : Node) : Hoards limit [] s :=
  ⟨.nil, by simp, by simp, fun _ _ ↦ rfl⟩

private theorem Hoards.exit (h : Hoards limit fds s) (s' : Node) : Hoards limit fds s'.exit :=
  ⟨h.nodup, h.below, fun hp ↦ absurd rfl hp, fun _ hp ↦ absurd rfl hp⟩

private theorem Hoards.accept (h : Hoards limit fds s) (hp : s.pc = .accept) {fd : Int}
    (hfd : s.files fd = none) (hb : 0 ≤ fd ∧ fd < limit) (conn : Nat) (address : CString) :
    Hoards limit (fds ++ [fd]) (s.accepted conn fd address) := by
  have hopen := h.kept (by simp [hp])
  have hnew : fd ∉ fds := fun hm ↦ hopen fd hm hfd
  refine ⟨?_, ?_, fun _ fd' hm ↦ ?_, fun ha ↦ ?_⟩
  · rw [List.nodup_append]
    refine ⟨h.nodup, List.nodup_singleton fd, ?_⟩
    rintro x hx y hy rfl
    exact hnew (List.mem_singleton.mp hy ▸ hx)
  · intro fd' hm
    rcases List.mem_append.mp hm with hm | hm
    · exact h.below fd' hm
    · rwa [List.mem_singleton.mp hm]
  · rcases List.mem_append.mp hm with hm | hm
    · have hne : fd' ≠ fd := fun heq ↦ hnew (heq ▸ hm)
      simpa only [Node.accepted, Function.update_of_ne hne] using hopen fd' hm
    · simp [Node.accepted, List.mem_singleton.mp hm]
  · simp [Node.accepts, Node.accepted] at ha

private theorem acceptedBy_append (j : Nat) (τ τ' : List (Nat × TreeEvent)) :
    acceptedBy j (τ ++ τ') = acceptedBy j τ ++ acceptedBy j τ' := List.filterMap_append

/-- A step of process `k` that accepts nothing. -/
private theorem hoards_quiet (h : ∀ j, Hoards limit (acceptedBy j τ) (T.nodes j))
    (hes : ∀ j, acceptedBy j es = []) (hs : Hoards limit (acceptedBy k τ) s) (j : Nat) :
    Hoards limit (acceptedBy j (τ ++ es)) ((T.set k s).nodes j) := by
  rw [acceptedBy_append, hes, List.append_nil]
  exact (Function.forall_update_iff T.nodes
    (fun j s ↦ Hoards limit (acceptedBy j τ) s)).mpr ⟨hs, fun j _ ↦ h j⟩ j

private theorem acceptedBy_proc (j : Nat) (es : List Event) :
    acceptedBy j (es.map (fun e ↦ (k, TreeEvent.proc e))) = [] := by
  rw [acceptedBy, List.filterMap_map, List.filterMap_eq_nil_iff]
  exact fun _ _ ↦ rfl

private theorem hoards_step {a : NodeAct} (hT : T.Sound env)
    (h : ∀ j, Hoards limit (acceptedBy j τ) (T.nodes j)) (ha : a.Below limit)
    (hs : T.step env w (k, a) = some (T', w', es)) (j : Nat) :
    Hoards limit (acceptedBy j (τ ++ es)) (T'.nodes j) := by
  cases Tree.does_of_step hs with
  | refused => exact hoards_quiet h (fun _ ↦ rfl) ((h k).exit _) j
  | notForked => exact hoards_quiet h (fun _ ↦ rfl) ((h k).exit _) j
  | crashed conn a p' w₁ es' =>
    exact hoards_quiet h (fun j ↦ acceptedBy_proc j es') ((h k).exit _) j
  | ran conn a p' w₁ es' =>
    have hk := h k
    exact hoards_quiet (s := { T.nodes k with proc := p' }) h (fun j ↦ acceptedBy_proc j es')
      ⟨hk.nodup, hk.below, hk.kept, hk.early⟩ j
  | left conn hp =>
    have hnil : acceptedBy k τ = [] := (h k).early (by simp [Node.accepts, hp]) (by simp [hp])
    refine hoards_quiet h (fun _ ↦ rfl) ?_ j
    rw [hnil]
    exact .nil _
  | accepted fd address hp hfd =>
    rw [acceptedBy_append]
    by_cases hj : j = k
    · subst hj
      simpa [acceptedBy, acceptedFd] using (h j).accept hp hfd ha T.conns address
    · have hes : acceptedBy j [(k, TreeEvent.accepted T.conns fd)] = [] := by
        simp [acceptedBy, acceptedFd, Ne.symm hj]
      rw [hes, List.append_nil]
      simpa only [T.set_nodes_of_ne hj] using h j
  | forked conn hp =>
    have hk : k < T.born := hT.born (by simp [hp])
    have hkeep := h k
    have hnone (j : Nat) : acceptedBy j [(k, .forked T.born)] = [] := rfl
    have hparent := hoards_quiet (s := { T.nodes k with pc := .accept }) h hnone ⟨hkeep.nodup,
      hkeep.below, fun _ ↦ hkeep.kept (by simp [hp]), fun ha ↦ by simp [Node.accepts] at ha⟩
    by_cases hj : j = T.born
    · -- The child has not accepted anything, as there was no process of that number.
      subst hj
      have hfresh := hT.fresh T.born (Nat.le_refl _)
      have hnil : acceptedBy T.born τ = [] :=
        (h T.born).early (by simp [Node.accepts, hfresh]) (by simp [hfresh])
      rw [acceptedBy_append, hnil]
      exact .nil _
    · simpa only [Tree.set_nodes_of_ne hj] using hparent j

/-- In every run of the tree in which `accept` gives descriptors below a limit: no process ever
accepts more connections than that, because it closes none of the descriptors it got. -/
theorem accepts_at_most_limit
    (h : (tree env).RunIn (fun _ _ x ↦ x.2.Below limit) (Tree.start t) τ T) (k : Nat) :
    (acceptedBy k τ).length ≤ limit := by
  have hinv := h.invariant
    (fun τ T ↦ T.Sound env ∧ ∀ j, Hoards limit (acceptedBy j τ) (T.nodes j))
    ⟨Tree.start_sound env t, fun j ↦ .nil _⟩
    (fun _ _ _ _ _ _ _ hT hc hs ↦ ⟨hT.1.step hs, hoards_step hT.1 hT.2 hc hs⟩)
  obtain ⟨hnodup, hbelow, -, -⟩ := hinv.2 k
  have hrange : acceptedBy k τ ⊆ (List.range limit).map Int.ofNat := by
    intro fd hm
    obtain ⟨hnonneg, hlt⟩ := hbelow fd hm
    exact List.mem_map.mpr ⟨fd.toNat, List.mem_range.mpr (by omega), Int.toNat_of_nonneg hnonneg⟩
  have hlength := (List.subperm_of_subset hnodup hrange).length_le
  rwa [List.length_map, List.length_range] at hlength

/-- Two connections one after the other, both ended: the second one gets another descriptor, as
the first is still open in the original process. -/
theorem accepts_at_most_limit_two_connections :
    let env : Env := ⟨['d'], fun _ ↦ ['1']⟩
    ∃ τ T, (tree env).RunIn (fun _ _ x ↦ x.2.Below 5) (Tree.start (fun _ ↦ {})) τ T ∧
      acceptedBy 0 τ = [3, 4] ∧ (acceptedBy 0 τ).length ≤ 5 := by
  intro env
  let w : World := ⟨∅, ⟨∅, fun _ ↦ none⟩⟩
  let connection (child : Nat) (fd : Int) : List (World × Nat × NodeAct) :=
    [(w, 0, .accept (some (fd, ['p']))), (w, 0, .fork true), (w, child, .run (.main {})),
      (w, child, .leave)]
  obtain ⟨τ, T, hrun, hfds⟩ := Machine.exec_observe (tree env)
    (fun _ _ x ↦ decide (x.2.Below 5)) (Tree.start (fun _ ↦ {})) (connection 1 3 ++ connection 2 4)
    (fun _ τ ↦ acceptedBy 0 τ = [3, 4]) (fun _ _ _ ↦ of_decide_eq_true) (by decide +kernel)
  exact ⟨τ, T, hrun, hfds, accepts_at_most_limit hrun 0⟩

end DupDistribute.Server

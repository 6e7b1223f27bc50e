import DupDistribute.Distribute.Completion

/-!
# Segmentation of the stream

TCP delivers a stream of bytes, and `recv` cuts it anywhere. `distribute_receive` classifies
every chunk by its own first bytes (`util.c:162-188`) and keeps nothing from one `recv` to
the next, so a chunk that continues a message is dropped unless it happens to begin with a
live head. The bytes recorded are those of the live chunks and no others.
-/

namespace DupDistribute.Distribute

open DupDistribute.Base DupDistribute.Wire DupDistribute.Record DupDistribute.Playback

/-- The bytes an event writes to a record file. -/
def Event.recorded : Event → List UInt8
  | .record (.write _ bytes) => bytes
  | _ => []

/-- The bytes an event hands to `send` for client `i`. -/
def Event.sentTo (i : Nat) : Event → List UInt8
  | .client _ k (.send _ bytes _) => if k = i then bytes else []
  | _ => []

/-- All of the stream was recorded and sent to every client, in order. -/
structure Whole (t : Table) (bytes : List UInt8) (τ : List Event) : Prop where
  recorded : τ.flatMap Event.recorded = bytes
  sent : ∀ i, 1 ≤ i → i ≤ (t 0).clientNum → τ.flatMap (Event.sentTo i) = bytes

/-- A run of a process with table `t` that received the chunks in this order and has handled
them all, with nothing in its way: every `pthread_create` works, too. -/
structure Segmented (env : Env) (t : Table) (chunks : List (List UInt8)) (τ : List Event)
    (p : Proc) : Prop where
  run : ∃ p₀ : Proc, p₀.Waiting ∧ p₀.tcpInfo = t ∧
    (process env).RunIn (fun _ _ a ↦ a.Creates True) p₀ τ p
  received : τ.filterMap Event.received = chunks
  handled : p.main = .recv
  benign : ∀ e ∈ τ, e.benign = true

variable {env : Env} {t : Table} {chunk : List UInt8}

/-! ### One chunk -/

private theorem flatMap_client {β : Type} {f : Event → List β} {k i : Nat}
    (hf : ∀ e, f (.client k i e) = []) (υ : List ClientEvent) :
    (υ.map (Event.client k i)).flatMap f = [] := by
  simp [List.flatMap_map, hf]

private theorem Fanout.flatMap_recorded {P : Nat → List ClientEvent → Prop} {m : Nat}
    {σ : List Event} (h : Fanout P m σ) : σ.flatMap Event.recorded = [] := by
  induction h with
  | zero => rfl
  | succ m σ υ _ _ ih =>
    rw [List.flatMap_append, ih, flatMap_client (fun _ ↦ rfl), List.append_nil]

private theorem Fanout.filterMap_received {P : Nat → List ClientEvent → Prop} {m : Nat}
    {σ : List Event} (h : Fanout P m σ) : σ.filterMap Event.received = [] := by
  induction h with
  | zero => rfl
  | succ m σ υ _ _ ih => simp [ih, Event.received]

private theorem flatMap_sentTo_other {i k m : Nat} (h : k ≠ i) (υ : List ClientEvent) :
    (υ.map (Event.client m k)).flatMap (Event.sentTo i) = [] := by
  apply flatMap_client
  intro e
  cases e with
  | send => exact if_neg h
  | _ => rfl

/-- With nothing in the way a client is sent the chunk. -/
private theorem Offered.flatMap_sentTo {info : TcpInfo} {m i : Nat} {υ : List ClientEvent}
    (h : Offered info chunk υ) (hb : ∀ e ∈ υ.map (Event.client m i), e.benign = true) :
    (υ.map (Event.client m i)).flatMap (Event.sentTo i) = chunk := by
  cases h with
  | unreachable res hres =>
    have hbad := hb (.client m i (.socket info.address info.port res)) (by simp)
    cases res with
    | connected fd => exact absurd rfl (hres fd)
    | _ => cases hbad
  | suspended fd w hw =>
    have hbad := hb (.client m i (.access w (shmFile info.address))) (by simp)
    exact absurd hw (of_decide_eq_true hbad)
  | sent fd w res hw => simp [Event.sentTo, headerCopy]

private theorem Fanout.flatMap_sentTo {n i : Nat} {σ : List Event}
    (h : Fanout (fun k ↦ Offered (t k) chunk) n σ) (hb : ∀ e ∈ σ, e.benign = true) :
    σ.flatMap (Event.sentTo i) = if 1 ≤ i ∧ i ≤ n then chunk else [] := by
  induction h with
  | zero => rw [if_neg (by omega), List.flatMap_nil]
  | succ m σ υ _ hu ih =>
    have hlast := hu.flatMap_sentTo (fun e he ↦ hb e (List.mem_append_right _ he))
    rw [List.flatMap_append, ih (fun e he ↦ hb e (List.mem_append_left _ he))]
    by_cases hi : i = m + 1
    · subst hi
      rw [hlast, if_neg (by omega), if_pos (by omega), List.nil_append]
    · rw [flatMap_sentTo_other (Ne.symm hi), List.append_nil]
      congr 1
      simp only [eq_iff_iff]
      omega

private theorem Quiet.flatMap_recorded {ρ : List Record.Event} (h : Quiet ρ) :
    (ρ.map Event.record).flatMap Event.recorded = [] := by
  simp only [List.flatMap_map, List.flatMap_eq_nil_iff]
  intro e he
  cases e with
  | write path bytes => exact absurd rfl ((h _ he).2.2 path bytes)
  | _ => rfl

private theorem Recorded.flatMap_recorded {ρ : List Record.Event} (h : Recorded chunk ρ) :
    (ρ.map Event.record).flatMap Event.recorded = chunk := by
  obtain ⟨ρ', c, path, hq, rfl⟩ := h
  rw [List.map_append, List.flatMap_append, hq.flatMap_recorded]
  simp [Event.recorded]

/-- The events of a chunk tell which chunk it was. -/
theorem Served.filterMap_received {σ : List Event} (h : Served t chunk σ) :
    σ.filterMap Event.received = [chunk] := by
  cases h with
  | useless | unrecorded => simp [receiveEvents, Event.received]
  | forwarded ρ σ _ _ hf =>
    rw [List.filterMap_append, hf.filterMap_received]
    have hρ : (ρ.map Event.record).filterMap Event.received = [] := by
      simp [Event.received]
    rw [List.append_nil, List.filterMap_append, List.filterMap_append, hρ]
    rfl
  | playback σ _ hf =>
    rw [List.filterMap_append, hf.filterMap_received]
    rfl

/-- With nothing in the way a live chunk is recorded, and another is not. -/
theorem Served.flatMap_recorded {σ : List Event} (h : Served t chunk σ)
    (hb : ∀ e ∈ σ, e.benign = true) :
    σ.flatMap Event.recorded = if IsLive chunk then chunk else [] := by
  cases h with
  | useless hl hp => simp [receiveEvents, Event.recorded, hl]
  | unrecorded ρ hl hr =>
    obtain ⟨ρ', -, rfl⟩ := hr
    have hbad := hb (.record (.returned none)) (by simp)
    cases hbad
  | forwarded ρ σ hl hr hf =>
    simp only [List.flatMap_append, hr.flatMap_recorded, hf.flatMap_recorded, if_pos hl]
    simp [receiveEvents, prepareEvents, Event.recorded]
  | playback σ hp hf =>
    simp only [List.flatMap_append, hf.flatMap_recorded, if_neg hp.not_live]
    simp [receiveEvents, prepareEvents, Event.recorded]

/-- With nothing in the way a live chunk is sent to every client. -/
theorem Served.flatMap_sentTo {σ : List Event} {i : Nat} (h : Served t chunk σ)
    (hb : ∀ e ∈ σ, e.benign = true) (hl : IsLive chunk) (h1 : 1 ≤ i)
    (hn : i ≤ (t 0).clientNum) : σ.flatMap (Event.sentTo i) = chunk := by
  cases h with
  | useless hl' => exact absurd hl hl'
  | playback σ hp => exact absurd hl hp.not_live
  | unrecorded ρ _ hr =>
    obtain ⟨ρ', -, rfl⟩ := hr
    have hbad := hb (.record (.returned none)) (by simp)
    cases hbad
  | forwarded ρ σ _ hr hf =>
    have hs := hf.flatMap_sentTo (i := i) (fun e he ↦ hb e (List.mem_append_right _ he))
    rw [if_pos ⟨h1, hn⟩] at hs
    rw [List.flatMap_append, hs]
    simp [receiveEvents, prepareEvents, Event.sentTo, List.flatMap_map]

/-! ### The whole stream -/

/-- The parts of a stream that `keep` selects are the stream only if it selects them all. -/
private theorem all_of_flatten_filter {keep : List UInt8 → Bool} {chunks : List (List UInt8)}
    (hpos : ∀ c ∈ chunks, 0 < c.length)
    (h : (chunks.filter keep).flatten = chunks.flatten) : ∀ c ∈ chunks, keep c = true := by
  have hle (cs : List (List UInt8)) :
      (cs.filter keep).flatten.length ≤ cs.flatten.length := by
    induction cs with
    | nil => exact Nat.le_refl _
    | cons c cs ih =>
      rw [List.filter_cons]
      split <;> simp only [List.flatten_cons, List.length_append] <;> omega
  intro c hc
  by_contra hk
  obtain ⟨a, b, rfl⟩ := List.append_of_mem hc
  have hlen := congrArg List.length h
  have hc0 := hpos c hc
  have ha := hle a
  have hb := hle b
  rw [List.filter_append, List.filter_cons_of_neg (by simpa using hk)] at hlen
  simp only [List.flatten_append, List.flatten_cons, List.length_append] at hlen
  omega

private theorem flatMap_recorded_of_served {done : List (List UInt8 × List Event)}
    (hs : ∀ c ∈ done, Served t c.1 c.2)
    (hb : ∀ e ∈ (done.map Prod.snd).flatten, e.benign = true) :
    (done.map Prod.snd).flatten.flatMap Event.recorded =
      ((done.map Prod.fst).filter (fun c ↦ IsLive c)).flatten := by
  induction done with
  | nil => rfl
  | cons c rest ih =>
    simp only [List.map_cons, List.flatten_cons] at hb ⊢
    have hc := (hs c (by simp)).flatMap_recorded (fun e he ↦ hb e (List.mem_append_left _ he))
    have hrest := ih (fun c hc ↦ hs c (List.mem_cons_of_mem _ hc))
      (fun e he ↦ hb e (List.mem_append_right _ he))
    rw [List.flatMap_append, hc, hrest, List.filter_cons]
    by_cases hl : IsLive c.1 <;> simp [hl]

private theorem flatMap_sentTo_of_served {done : List (List UInt8 × List Event)} {i : Nat}
    (hs : ∀ c ∈ done, Served t c.1 c.2)
    (hb : ∀ e ∈ (done.map Prod.snd).flatten, e.benign = true)
    (hl : ∀ c ∈ done.map Prod.fst, IsLive c) (h1 : 1 ≤ i) (hn : i ≤ (t 0).clientNum) :
    (done.map Prod.snd).flatten.flatMap (Event.sentTo i) = (done.map Prod.fst).flatten := by
  induction done with
  | nil => rfl
  | cons c rest ih =>
    simp only [List.map_cons, List.flatten_cons] at hb hl ⊢
    have hc := (hs c (by simp)).flatMap_sentTo
      (fun e he ↦ hb e (List.mem_append_left _ he)) (hl c.1 (by simp)) h1 hn
    have hrest := ih (fun c hc ↦ hs c (List.mem_cons_of_mem _ hc))
      (fun e he ↦ hb e (List.mem_append_right _ he))
      (fun c hc ↦ hl c (List.mem_cons_of_mem _ hc))
    rw [List.flatMap_append, hc, hrest]

private theorem filterMap_received_of_served {done : List (List UInt8 × List Event)}
    (hs : ∀ c ∈ done, Served t c.1 c.2) :
    (done.map Prod.snd).flatten.filterMap Event.received = done.map Prod.fst := by
  induction done with
  | nil => rfl
  | cons c rest ih =>
    simp only [List.map_cons, List.flatten_cons]
    rw [List.filterMap_append, (hs c (by simp)).filterMap_received,
      ih (fun c hc ↦ hs c (List.mem_cons_of_mem _ hc)), List.singleton_append]

private theorem Segmented.served {chunks : List (List UInt8)} {τ : List Event} {p : Proc}
    (h : Segmented env t chunks τ p) :
    ∃ done : List (List UInt8 × List Event), τ = (done.map Prod.snd).flatten ∧
      chunks = done.map Prod.fst ∧ ∀ c ∈ done, Served t c.1 c.2 := by
  obtain ⟨⟨p₀, hw, rfl, hrun⟩, hrec, hm, -⟩ := h
  obtain ⟨-, done, cur, rfl, hdone, hst⟩ := chunked_of_run hw hrun
  obtain rfl := hst.nil_of_recv hm
  rw [List.append_nil] at hrec ⊢
  have hs (c : List UInt8 × List Event) (hc : c ∈ done) : Served p₀.tcpInfo c.1 c.2 :=
    (hdone c hc).served
  exact ⟨done, rfl, hrec.symm.trans (filterMap_received_of_served hs), hs⟩

private theorem Segmented.whole_iff {chunks : List (List UInt8)} {τ : List Event} {p : Proc}
    (hpos : ∀ c ∈ chunks, 0 < c.length) (h : Segmented env t chunks τ p) :
    Whole t chunks.flatten τ ↔ ∀ c ∈ chunks, IsLive c := by
  obtain ⟨done, rfl, rfl, hs⟩ := h.served
  have hrec := flatMap_recorded_of_served hs h.benign
  constructor
  · intro hw c hc
    rw [hw.recorded] at hrec
    exact of_decide_eq_true (all_of_flatten_filter hpos hrec.symm c hc)
  · intro hl
    have hall : (done.map Prod.fst).filter (fun c ↦ IsLive c) = done.map Prod.fst :=
      List.filter_eq_self.mpr (fun c hc ↦ decide_eq_true (hl c hc))
    rw [hall] at hrec
    exact ⟨hrec, fun i h1 hn ↦ flatMap_sentTo_of_served hs h.benign hl h1 hn⟩

/-! ### Every segmentation occurs -/

/-- A chunk can be handled with nothing in the way. -/
private theorem chunk_completes (env : Env) {p : Proc} (hw : p.Waiting)
    (hpos : 0 < chunk.length) (hb : chunk.length ≤ MAX_BUFFER_SIZE) :
    ∃ τ p', (process env).RunIn (fun _ _ a ↦ a.Creates True) p τ p' ∧ p'.Waiting ∧
      (∀ e ∈ τ, e.benign = true) ∧ τ.filterMap Event.received = [chunk] := by
  obtain ⟨hm, hr, hq⟩ := hw
  let w : World := ⟨∅, ⟨∅, fun _ ↦ none⟩⟩
  have hs : (process env).step w p (.main { chunk := some chunk }) =
      some (p.receive chunk, w, receiveEvents chunk) := by
    simp only [process, Proc.step, Proc.mainStep, hm, hpos, hb, and_self, if_true]
  have hrest : (p.receive chunk).Completes env := by
    cases hk : classify ((p.receiveBuf.memset MAX_BUFFER_SIZE).store chunk) with
    | live | playback =>
      exact run_completes (by simp [Proc.receive, hk]) (by simp [Proc.receive, hk, hr])
    | useless =>
      simp only [Proc.receive, hk]
      exact ⟨[], _, .refl, ⟨hm, hr, hq⟩, .nil⟩
  obtain ⟨τ, p', hrun, hw', hc⟩ := hrest
  have hben : ∀ e ∈ receiveEvents chunk, e.benign = true := by
    simp [receiveEvents, Event.benign]
  have hfirst := Machine.RunIn.single (C := fun _ _ (a : Act) ↦ a.Creates True)
    (a := .main { chunk := some chunk }) (fun _ ↦ rfl) hs
  refine ⟨_, p', hfirst.trans hrun, hw', fun e he ↦ ?_, ?_⟩
  · rcases List.mem_append.mp he with he | he
    · exact hben e he
    · exact hc.benign e he
  · rw [List.filterMap_append, hc.received]
    rfl

private theorem segmented_exists (env : Env) {chunks : List (List UInt8)} {p : Proc}
    (hlen : ∀ c ∈ chunks, 0 < c.length ∧ c.length ≤ MAX_BUFFER_SIZE) (hw : p.Waiting) :
    ∃ τ p', Segmented env p.tcpInfo chunks τ p' := by
  have steps : ∃ τ p', (process env).RunIn (fun _ _ a ↦ a.Creates True) p τ p' ∧ p'.Waiting ∧
      (∀ e ∈ τ, e.benign = true) ∧ τ.filterMap Event.received = chunks := by
    induction chunks generalizing p with
    | nil => exact ⟨[], p, .refl, hw, by simp, rfl⟩
    | cons c rest ih =>
      obtain ⟨hpos, hb⟩ := hlen c (List.mem_cons_self ..)
      obtain ⟨τ, q, hrun, hq, hben, hrec⟩ := chunk_completes env hw hpos hb
      obtain ⟨τ', q', hrun', hq', hben', hrec'⟩ :=
        ih (fun c hc ↦ hlen c (List.mem_cons_of_mem _ hc)) hq
      refine ⟨τ ++ τ', q', hrun.trans hrun', hq', fun e he ↦ ?_, ?_⟩
      · rcases List.mem_append.mp he with he | he
        · exact hben e he
        · exact hben' e he
      · rw [List.filterMap_append, hrec, hrec', List.singleton_append]
  obtain ⟨τ, p', hrun, hw', hben, hrec⟩ := steps
  exact ⟨τ, p', ⟨p, hw, rfl, hrun⟩, hrec, hw'.main, hben⟩

/-- For every table and however a stream is cut into chunks: the chunks can all be handled
with nothing in the way, and whenever they are, the whole stream has been recorded and sent
to every client exactly if every chunk by itself begins with a live head. -/
theorem whole_iff_chunks_live (env : Env) (t : Table) (chunks : List (List UInt8))
    (hlen : ∀ c ∈ chunks, 0 < c.length ∧ c.length ≤ MAX_BUFFER_SIZE) :
    (∃ τ p, Segmented env t chunks τ p) ∧ ∀ τ p, Segmented env t chunks τ p →
      (Whole t chunks.flatten τ ↔ ∀ c ∈ chunks, IsLive c) := by
  refine ⟨segmented_exists env hlen (Proc.forked_waiting t 0), fun τ p h ↦ ?_⟩
  exact h.whole_iff (fun c hc ↦ (hlen c hc).1)

/-- A Sea message of six bytes whose last byte comes with a second `recv`: that byte is
neither recorded nor sent. -/
theorem cut_message_loses_tail :
    let env : Env := ⟨['d'], fun _ ↦ ['1']⟩
    let t := oneClient ['x']
    let chunks : List (List UInt8) := [[0x66, 0x66, 0x66, 0x66, 1], [2]]
    [0x66, 0x66, 0x66, 0x66] <+: chunks.flatten ∧ ∃ τ p, Segmented env t chunks τ p ∧
      (τ.flatMap Event.recorded = [0x66, 0x66, 0x66, 0x66, 1] ∧
        τ.flatMap (Event.sentTo 1) = [0x66, 0x66, 0x66, 0x66, 1]) ∧
      ¬ Whole t chunks.flatten τ := by
  intro env t chunks
  let w : World := ⟨∅, ⟨{env.dayDir 0}, fun _ ↦ none⟩⟩
  let main : World × Act := (w, .main {})
  obtain ⟨τ, p, hrun, hm, hrec, hben, hw, hs⟩ :=
    Machine.exec_observe (process env) (fun _ _ a ↦ decide (a.Creates True)) (Proc.forked t 0)
      ((w, .main { chunk := some [0x66, 0x66, 0x66, 0x66, 1] }) :: List.replicate 11 main ++
        List.replicate 6 (w, .client 0 { socket := .connected 5, send := .sent 5 }) ++
        List.replicate 4 main ++ [(w, .main { chunk := some [2] })])
      (fun p τ ↦ p.main = .recv ∧ τ.filterMap Event.received = chunks ∧
        τ.all Event.benign = true ∧
        τ.flatMap Event.recorded = [0x66, 0x66, 0x66, 0x66, 1] ∧
        τ.flatMap (Event.sentTo 1) = [0x66, 0x66, 0x66, 0x66, 1])
      (fun _ _ _ ha ↦ of_decide_eq_true ha) (by decide)
  refine ⟨by decide, τ, p, ⟨⟨_, Proc.forked_waiting t 0, rfl, hrun⟩, hrec, hm,
    List.all_eq_true.mp hben⟩, ⟨hw, hs⟩, fun hwhole ↦ ?_⟩
  exact absurd (hw.symm.trans hwhole.recorded) (by decide)

/-- A Sea message cut where a BD head follows arrives whole. -/
theorem whole_of_two_live_chunks :
    let env : Env := ⟨['d'], fun _ ↦ ['1']⟩
    let chunks : List (List UInt8) := [[0x66, 0x66, 0x66, 0x66, 1], [0xEB, 2]]
    (∀ c ∈ chunks, 0 < c.length ∧ c.length ≤ MAX_BUFFER_SIZE) ∧
      ∃ τ p, Segmented env (oneClient ['x']) chunks τ p ∧
        Whole (oneClient ['x']) chunks.flatten τ := by
  intro env chunks
  have hlen : ∀ c ∈ chunks, 0 < c.length ∧ c.length ≤ MAX_BUFFER_SIZE := by decide
  obtain ⟨⟨τ, p, hseg⟩, hiff⟩ := whole_iff_chunks_live env (oneClient ['x']) chunks hlen
  exact ⟨hlen, τ, p, hseg, (hiff τ p hseg).mpr (by decide)⟩

end DupDistribute.Distribute

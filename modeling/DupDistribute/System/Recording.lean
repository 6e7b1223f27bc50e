import DupDistribute.Distribute.Forward
import DupDistribute.Distribute.Requests
import DupDistribute.Record.DayChange
import DupDistribute.System.Sessions

/-!
# Recording by many processes

The day directory is tested and created in two steps (`recordData.c:31-38`). When another
process creates it in between, `mkdir` fails, `initDataRecord` returns no file, and
`distribute_run` returns before it creates a client thread (`util.c:215-218`): the message
is neither recorded nor forwarded.
-/

namespace DupDistribute.System

open DupDistribute.Base DupDistribute.Wire
open DupDistribute.Record (Env Recorder)
open DupDistribute.Playback DupDistribute.Distribute

variable {ι : Type} [DecidableEq ι] {env : Env} {S S₀ S' : Sys ι World Proc} {x : ι × Act}
  {p p' : Proc} {w w' : World} {a : Act} {es : List Event}

/-- The file system does not fail, except that `mkdir` fails on an existing directory. -/
def FileSystemWorks : Act → Prop
  | .main i => i.record.ok = true
  | .client _ _ => True

instance : (a : Act) → Decidable (FileSystemWorks a)
  | .main i => inferInstanceAs (Decidable (i.record.ok = true))
  | .client _ _ => inferInstanceAs (Decidable True)

/-- If the process is about to call `mkdir`, it finds the directory still missing. -/
def MkdirFresh (w : World) (p : Proc) : Act → Prop
  | .main _ => p.main = .record → p.recorder.pc.Fresh w.store.dirs
  | .client _ _ => True

instance (w : World) (p : Proc) : (a : Act) → Decidable (MkdirFresh w p a)
  | .main _ => inferInstanceAs (Decidable (p.main = .record → p.recorder.pc.Fresh w.store.dirs))
  | .client _ _ => inferInstanceAs (Decidable True)

/-- A step of a process never removes a directory, and with a fresh `mkdir` it keeps the
call of `initDataRecord` ready and returns a file. -/
private theorem process_ready (hready : p.recorder.pc.Ready w.store.dirs)
    (hok : FileSystemWorks a) (hfresh : MkdirFresh w p a)
    (hs : p.step env w a = some (p', w', es)) :
    p'.recorder.pc.Ready w'.store.dirs ∧ w.store.dirs ⊆ w'.store.dirs ∧
      Event.record (.returned none) ∉ es := by
  cases a with
  | client j i =>
    obtain ⟨pc', t', shm', es', hc, rfl, rfl, rfl⟩ := Proc.client_step hs
    have hrec : (p.afterClient j pc' t').recorder = p.recorder := by
      simp only [Proc.afterClient]
      split <;> rfl
    rw [hrec]
    exact ⟨hready, Finset.Subset.refl _, by simp⟩
  | main i =>
    cases Proc.mainDoes_of_step hs with
    | record s' st' es' hm hr =>
      obtain ⟨hready', hnone⟩ := Recorder.step_ready hready (by exact hok) (hfresh hm) hr
      exact ⟨hready', Recorder.step_dirs hr, by simpa using hnone⟩
    | received chunk =>
      have hrec : (p.receive chunk).recorder = p.recorder := by
        simp only [Proc.receive]
        split <;> rfl
      rw [hrec]
      exact ⟨hready, Finset.Subset.refl _, by simp [receiveEvents]⟩
    | distribute => exact ⟨trivial, Finset.Subset.refl _, by simp⟩
    | _ => exact ⟨hready, Finset.Subset.refl _, by simp⟩

/-- A `mkdir` that meets the directory makes `initDataRecord` return without a file. -/
private theorem race_drops (hrace : ¬ MkdirFresh w p a)
    (hs : p.step env w a = some (p', w', es)) : Event.record (.returned none) ∈ es := by
  cases a with
  | client => exact absurd trivial hrace
  | main i =>
    obtain ⟨hm, hrace⟩ := Classical.not_imp.mp hrace
    cases Proc.mainDoes_of_step hs with
    | record s' st' es' _ hr => exact List.mem_map_of_mem (Recorder.step_race hrace hr)
    | _ => simp_all

/-- On a working file system, with each `mkdir` fresh, no call has returned without a file. -/
private theorem no_call_fails {sure : Prop} {τ : List (ι × Event)}
    (h₀ : ∀ i, (S₀.procs i).Waiting)
    (h : ((process env).interleave ι).RunIn
      (fun _ S x ↦ FileSystemWorks x.2 ∧ MkdirFresh S.world (S.procs x.1) x.2 ∧
        x.2.Creates sure) S₀ τ S) :
    ∀ i, (i, Event.record (.returned none)) ∉ τ := by
  have hinv := h.invariant
    (fun τ S ↦ (∀ i, (S.procs i).recorder.pc.Ready S.world.store.dirs) ∧
      ∀ i, (i, Event.record (.returned none)) ∉ τ)
    ⟨fun i ↦ by rw [(h₀ i).recorder]; trivial, by simp⟩ ?_
  · exact hinv.2
  rintro τ S u ⟨k, a⟩ S' u' es ⟨hready, hnone⟩ ⟨hok, hfresh, -⟩ hs
  obtain ⟨p', w', es', hp, rfl, rfl⟩ := Machine.interleave_step hs
  obtain ⟨hready', hdirs, hnone'⟩ := process_ready (hready k) hok hfresh hp
  refine ⟨fun i ↦ ?_, fun i hm ↦ ?_⟩
  · by_cases hi : i = k
    · subst hi
      simpa using hready'
    · simpa [Function.update_of_ne hi] using (hready i).mono hdirs
  · rcases List.mem_append.mp hm with hm | hm
    · exact hnone i hm
    · obtain ⟨e, he, heq⟩ := List.mem_map.mp hm
      obtain ⟨rfl, rfl⟩ := Prod.mk.inj heq
      exact hnone' he

/-- A process inside `initDataRecord` gets back to `recv`, whatever the others do. -/
private theorem recording_inevitable {t₀ : Table} (h : p.Sound env t₀) (hm : p.main = .record) :
    (process env).Inevitably (fun _ ↦ True) (Act.Creates True) (fun p ↦ p.main = .recv) p := by
  obtain ⟨hag, cur, hst⟩ := h
  cases hst with
  | recording chunk ρ hm' hq hl hk hr =>
    exact Delivering.inevitably ⟨hag, chunk, _, hk, rfl, .recording chunk ρ hm' hq hl hk hr⟩
  | idle hw => simp [hw.main] at hm
  | between _ _ _ _ _ _ _ _ _ hb => cases hb <;> simp_all
  | working _ _ _ _ _ _ _ _ _ _ _ _ hb => cases hb <;> simp_all
  | missing _ _ _ _ _ _ _ _ _ hb => cases hb <;> simp_all
  | closed | running | preparing | dead => simp_all

/-- A live chunk that was recorded and then offered to every client. Where `pthread_create`
may fail, the last client may have been left out: the join of its missing thread returned. -/
def Delivered (sure : Prop) (t : Table) (chunk : List UInt8) (σ : List Event) : Prop :=
  ∃ ρ m fanned, Recorded chunk ρ ∧ Fanout (fun i ↦ Offered (t i) chunk) m fanned ∧
    (m = (t 0).clientNum ∨ ¬ sure ∧ m + 1 = (t 0).clientNum) ∧
    σ = receiveEvents chunk ++ ρ.map .record ++ prepareEvents chunk ++ fanned

/-- A handled live chunk was delivered, unless `initDataRecord` returned no file. -/
private theorem delivered_of_handled {sure : Prop} {t : Table} {chunk : List UInt8}
    {σ : List Event} (h : Handled env sure t chunk σ) (hl : IsLive chunk)
    (hn : .record (.returned none) ∉ σ) : Delivered sure t chunk σ := by
  cases h with
  | useless hno => exact absurd hl hno
  | unrecorded ρ _ hr =>
    obtain ⟨ρ', -, rfl⟩ := hr
    simp at hn
  | fanned pre m fanned ho hf hm =>
    cases ho with
    | live ρ _ hr => exact ⟨ρ, m, fanned, hr, hf.mono (fun _ _ hu ↦ hu.offered hl), hm, rfl⟩
    | playback hp => exact absurd hl hp.not_live

/-- No message is dropped at a day change as long as each `mkdir` finds its directory still
missing: no call of `initDataRecord` returns without a file, every call returns, and every
live chunk is recorded and then offered to the clients. A `mkdir` that meets the directory
makes its call return without a file. With `sure`, every `pthread_create` works. -/
theorem no_message_dropped {sure : Prop} {τ : List (ι × Event)}
    (h₀ : ∀ i, (S₀.procs i).Waiting)
    (h : ((process env).interleave ι).RunIn
      (fun _ S x ↦ FileSystemWorks x.2 ∧ MkdirFresh S.world (S.procs x.1) x.2 ∧
        x.2.Creates sure) S₀ τ S) :
    (∀ i, (i, Event.record (.returned none)) ∉ τ) ∧
    (∀ i, (S.procs i).main = .record → (process env).Inevitably (fun _ ↦ True)
      (Act.Creates True) (fun p ↦ p.main = .recv) (S.procs i)) ∧
    (∀ i, ∃ (done : List (List UInt8 × List Event)) (cur : List Event),
      Machine.eventsOf i τ = (done.map Prod.snd).flatten ++ cur ∧
      (∀ c ∈ done, IsLive c.1 → Delivered sure (S₀.procs i).tcpInfo c.1 c.2) ∧
      ((S.procs i).main = .recv → cur = []) ∧
      (cur = [] ∨ cur = [.closed] ∨ ∃ chunk rest, cur.head? = some (.recv chunk) ∧
        Served (S₀.procs i).tcpInfo chunk (cur ++ rest))) ∧
    ∀ x S' es, ((process env).interleave ι).step () S x = some (S', (), es) →
      ¬ MkdirFresh S.world (S.procs x.1) x.2 → (x.1, Event.record (.returned none)) ∈ es := by
  have hnone := no_call_fails h₀ h
  have hsound := soundSys_of_run h₀ h
  refine ⟨hnone, fun i hm ↦ recording_inevitable (hsound i) hm, fun i ↦ ?_, ?_⟩
  · obtain ⟨-, done, cur, hτ, hdone, hst⟩ :=
      chunked_of_run (h₀ i) (h.project_of (fun _ _ hc ↦ hc.2.2) i)
    refine ⟨done, cur, hτ, fun c hc hl ↦ delivered_of_handled (hdone c hc) hl ?_, hst.nil_of_recv,
      hst.extends⟩
    intro hm
    have hmem : Event.record (.returned none) ∈ Machine.eventsOf i τ := by
      rw [hτ]
      exact List.mem_append_left _ (List.mem_flatten.mpr ⟨c.2, List.mem_map_of_mem hc, hm⟩)
    exact hnone i (Machine.mem_eventsOf.mp hmem)
  · intro x S' es hs hrace
    obtain ⟨p', w', es', hp, -, rfl⟩ := Machine.interleave_step hs
    exact List.mem_map_of_mem (race_drops hrace hp)

/-- Two processes find the day directory missing; both create it, and the second one drops
its chunk: nothing is recorded and no client thread is created. -/
theorem mkdir_race_drops :
    let env : Env := ⟨['d'], fun _ ↦ ['1']⟩
    IsLive [0xEB] ∧ ∃ τ S, ((process env).interleave Bool).RunIn
        (fun _ _ x ↦ FileSystemWorks x.2) (forkedSys Bool (oneClient ['c'])) τ S ∧
      (S.procs true).main = .recv ∧
      Machine.eventsOf true τ = receiveEvents [0xEB] ++ [.record (.readDate 0),
        .record (.access (env.dayDir 0) false), .record (.mkdir (env.dayDir 0) false),
        .record (.returned none)] := by
  intro env
  let recvs (i : Bool) : List (Unit × Bool × Act) :=
    ((), i, .main { chunk := some [0xEB] }) :: List.replicate 4 ((), i, .main {})
  obtain ⟨τ, S, hrun, hobs⟩ := Machine.exec_observe ((process env).interleave Bool)
    (fun _ _ x ↦ decide (FileSystemWorks x.2)) (forkedSys Bool (oneClient ['c']))
    (recvs false ++ recvs true ++ [((), false, .main {}), ((), true, .main {})])
    (fun S τ ↦ (S.procs true).main = .recv ∧
      Machine.eventsOf true τ = receiveEvents [0xEB] ++ [.record (.readDate 0),
        .record (.access (env.dayDir 0) false), .record (.mkdir (env.dayDir 0) false),
        .record (.returned none)])
    (fun _ _ _ h ↦ of_decide_eq_true h) (by decide)
  exact ⟨by decide, τ, S, hrun, hobs⟩

/-- One process creates the day directory and serves its chunk before the other looks. -/
theorem no_message_dropped_in_turn :
    let M := (process ⟨['d'], fun _ ↦ ['1']⟩).interleave Bool
    let t := oneClient ['c']
    ∃ τ S, M.RunIn
        (fun _ S x ↦ FileSystemWorks x.2 ∧ MkdirFresh S.world (S.procs x.1) x.2 ∧
          x.2.Creates True) (forkedSys Bool t) τ S ∧
      (true, Event.client 0 1 (.send 5 [0xEB] (.sent 1))) ∈ τ ∧
      (∀ i, (i, Event.record (.returned none)) ∉ τ) ∧
      (∀ i, (S.procs i).main = .record → (process ⟨['d'], fun _ ↦ ['1']⟩).Inevitably
        (fun _ ↦ True) (Act.Creates True) (fun p ↦ p.main = .recv) (S.procs i)) ∧
      (∀ i, ∃ (done : List (List UInt8 × List Event)) (cur : List Event),
        Machine.eventsOf i τ = (done.map Prod.snd).flatten ++ cur ∧
        (∀ c ∈ done, IsLive c.1 → Delivered True t c.1 c.2) ∧
        ((S.procs i).main = .recv → cur = []) ∧
        (cur = [] ∨ cur = [.closed] ∨ ∃ chunk rest, cur.head? = some (.recv chunk) ∧
          Served t chunk (cur ++ rest))) ∧
      ∀ x S' es, M.step () S x = some (S', (), es) →
        ¬ MkdirFresh S.world (S.procs x.1) x.2 →
          (x.1, Event.record (.returned none)) ∈ es := by
  intro M t
  let serves (i : Bool) : List (Unit × Bool × Act) :=
    ((), i, .main { chunk := some [0xEB] }) :: List.replicate 12 ((), i, .main {}) ++
      List.replicate 6 ((), i, .client 0 { socket := .connected 5, send := .sent 1 }) ++
      List.replicate 3 ((), i, .main {})
  obtain ⟨τ, S, hrun, hobs⟩ := Machine.exec_observe M
    (fun _ S x ↦ decide (FileSystemWorks x.2 ∧ MkdirFresh S.world (S.procs x.1) x.2 ∧
      x.2.Creates True))
    (forkedSys Bool t) (serves false ++ serves true)
    (fun _ τ ↦ (true, Event.client 0 1 (.send 5 [0xEB] (.sent 1))) ∈ τ)
    (fun _ _ _ h ↦ of_decide_eq_true h) (by decide)
  exact ⟨τ, S, hrun, hobs, no_message_dropped (fun _ ↦ Proc.forked_waiting t 0) hrun⟩

end DupDistribute.System

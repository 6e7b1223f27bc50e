import DupDistribute.Base.Ledger
import DupDistribute.Distribute.Requests

/-!
# Descriptors over a call of `distribute_run`

Handling a chunk opens descriptors in five places: `engine.conf` (`ConfigFile.c:28-53`), the
record file (`recordData.c:81`, closed at `util.c:223`), the clients' sockets
(`util.c:98-132`, closed at `util.c:305`), the lock file (`playback.c:182`) and the replayed
files with their directory (`playback.c:34-74`). Each event of a run says which of them it
opens and closes. The log file is opened and closed by every `LogWrite` and is left out with
it. What `creat` returns is compared with 0 and dropped, so nothing ever closes it; all the
rest is closed on every path.
-/

namespace DupDistribute.Distribute

open DupDistribute.Base DupDistribute.Wire DupDistribute.Record DupDistribute.Playback

/-- An open descriptor, by what was opened. A process is forked with the listening socket and
the accepted connection. -/
inductive Descriptor where
  | listening
  | accepted
  | config
  | record (path : CString)
  | socket (fd : Int)
  | unconnected
  | lock (path : CString)
  | directory
  | replayed
  deriving DecidableEq

/-! ### What the events open and close -/

/-- `loadFile_ConfigFile`, `ConfigFile.c:28-53`. -/
def loadConfig : List (LedgerOp Descriptor) := [.acquire .config, .release .config]

/-- `scandir` closes the directory before it returns; `fclose` is at `playback.c:74`. -/
def scanOps : ScanEvent → List (LedgerOp Descriptor)
  | .scandir _ => [.acquire .directory, .release .directory]
  | .fopen _ (some _) => [.acquire .replayed]
  | .stream .fclose true => [.release .replayed]
  | _ => []

/-- `creat` at `playback.c:182`; `myscandirServe` loads `engine.conf`. -/
def playbackOps : PlaybackEvent → List (LedgerOp Descriptor)
  | .creat path true => [.acquire (.lock path)]
  | .serve _ _ => loadConfig
  | .scan e => scanOps e
  | _ => []

/-- A socket that is not connected is closed where this is found, `util.c:110-129`. -/
def clientOps : ClientEvent → List (LedgerOp Descriptor)
  | .socket _ _ .socketFailed => []
  | .socket _ _ (.connected fd) => [.acquire (.socket fd)]
  | .socket _ _ _ => [.acquire .unconnected, .release .unconnected]
  | .playback e => playbackOps e
  | .close fd => [.release (.socket fd)]
  | _ => []

/-- `CreateDataDir` loads `engine.conf` before it reads the date; the `fclose` of
`util.c:223` belongs to the step of the write. -/
def recordOps : Record.Event → List (LedgerOp Descriptor)
  | .readDate _ => loadConfig
  | .fopen _ path => [.acquire (.record path)]
  | .write path _ => [.release (.record path)]
  | _ => []

/-- The descriptors an event of the process opens and closes. -/
def Event.ops : Event → List (LedgerOp Descriptor)
  | .record e => recordOps e
  | .client _ _ e => clientOps e
  | _ => []

/-- The descriptors open after these events, of those open before. -/
def openAfter (fds : Multiset Descriptor) (τ : List Event) : Multiset Descriptor :=
  heldAfter fds (τ.flatMap Event.ops)

/-- The lock file an event creates. -/
def ClientEvent.created : ClientEvent → List Descriptor
  | .playback (.creat path true) => [.lock path]
  | _ => []

/-- See `ClientEvent.created`. -/
def Event.created : Event → List Descriptor
  | .client _ _ e => e.created
  | _ => []

/-- Only a `creat` that works creates a lock file. -/
private theorem ClientEvent.created_eq_nil {e : ClientEvent}
    (h : ∀ path, e ≠ .playback (.creat path true)) : e.created = [] := by
  cases e with
  | playback e =>
    cases e with
    | creat path ok =>
      cases ok with
      | true => exact absurd rfl (h path)
      | false => rfl
    | _ => rfl
  | _ => rfl

/-! ### Playback -/

private theorem Scan.turns {args : ScanArgs} {w : Shm} {s s' : Scan} {a : ScanInput}
    {es : List ScanEvent} (h : s.step args w a = some (s', es)) :
    Turns (es.flatMap scanOps) 0 0 := by
  cases Scan.does_of_step h with
  | unlisted | listed => exact .brief _
  | passed | stopped | finished | aborted => exact .refl 0
  | crashed hp ha hc =>
    obtain ⟨path, he⟩ := (Scan.body_crashed args ha hc).2
    rw [he]
    exact .refl 0
  | worked buffer hp ha hc =>
    obtain ⟨path, rest, he, hr⟩ := Scan.body_events args ha hc
    have hops : (s.body args a).2.flatMap scanOps = [.acquire .replayed, .release .replayed] := by
      rcases hr with rfl | rfl <;> simp [he, scanOps]
    rw [hops]
    exact .brief _

/-- A step of `playback_run` keeps the lock file's descriptor and no other. -/
private theorem Session.turns {env : Env} {address : CString} {acceptfd : Int} {w w' : Shm}
    {a : SessionInput} {s s' : Session} {es : List PlaybackEvent}
    (h : Session.Does env address acceptfd w a s s' w' es) :
    Turns (es.flatMap playbackOps) 0 ((es.map .playback).flatMap ClientEvent.created) := by
  cases h with
  | created => exact .acquire _
  | notCreated | removed => exact .refl 0
  | served | notServed => exact .brief _
  | scanned sc sc' es' hp hs =>
    have hnone : ((es'.map PlaybackEvent.scan).map ClientEvent.playback).flatMap
        ClientEvent.created = [] := by
      simp [List.flatMap_map, ClientEvent.created]
    rw [hnone, List.flatMap_map]
    exact Scan.turns hs

/-! ### A client thread -/

/-- The descriptor a thread holds: its connected socket. -/
def ClientPc.held : ClientPc → Multiset Descriptor
  | .header fd | .playback fd _ | .check fd | .send fd | .close fd => {.socket fd}
  | _ => 0

/-- During the playback the thread holds its socket. -/
private theorem ClientPc.held_ofSession {fd : Int} {s : Session}
    (h : ClientPc.ofSession fd s ≠ .crashed) : (ClientPc.ofSession fd s).held = {.socket fd} := by
  simp only [ClientPc.ofSession] at h ⊢
  split at h <;> simp_all [ClientPc.held]

/-- A step that does not end the process turns the socket held before it into the one held
after it, and adds the lock files it creates. -/
private theorem ClientDoes.turns {env : Env} {param : ThreadParam} {w w' : Shm}
    {a : ClientInput} {t t' : Table} {pc pc' : ClientPc} {es : List ClientEvent}
    (h : ClientDoes env param w a t pc pc' t' w' es) (hc : pc' ≠ .crashed) :
    Turns (es.flatMap clientOps) pc.held (pc'.held + (es.flatMap ClientEvent.created)) := by
  cases h with
  | connected fd => exact .acquire _
  | notConnected hn =>
    cases hs : a.socket with
    | connected fd => exact absurd hs (hn fd)
    | socketFailed => exact .refl 0
    | setsockoptFailed | connectFailed => exact .brief _
  | close fd => exact .release _
  | session fd s s' w' es hs =>
    have hops : (es.map ClientEvent.playback).flatMap clientOps = es.flatMap playbackOps := by
      rw [List.flatMap_map]
      rfl
    rw [hops, ClientPc.held_ofSession hc]
    have hframed := (Session.turns hs).frame (ClientPc.playback fd s).held
    rwa [add_zero] at hframed
  | enter | skip | locked | unlocked | send | unlock => exact .refl _

/-- Up to its end a thread has opened its socket and the lock files. -/
private theorem client_turns {env : Env} {param : ThreadParam} {t : Table}
    {υ : List ClientEvent} {s : ClientPc × Table}
    (h : (client env param).Open (.start, t) υ s) (hc : s.1 ≠ .crashed) :
    Turns (υ.flatMap clientOps) 0 (s.1.held + (υ.flatMap ClientEvent.created)) := by
  induction h with
  | refl => exact .refl 0
  | @snoc υ s s' w w' a es hrun _ hs ih =>
    have hd := clientDoes_of_step hs
    have hpre : s.1 ≠ .crashed := by
      intro hcr
      rw [hcr] at hd
      cases hd
    have hstep := (hd.turns hc).frame (υ.flatMap ClientEvent.created : List Descriptor)
    have hbefore := ih hpre
    rw [add_comm] at hbefore
    have hboth := hbefore.append hstep
    rw [List.flatMap_append, List.flatMap_append, ← Multiset.coe_add, add_left_comm]
    exact hboth

/-! ### The process -/

/-- Events that account for what they open: they leave open the lock files they create. -/
private def Accounts (τ : List Event) : Prop :=
  Turns (τ.flatMap Event.ops) 0 (τ.flatMap Event.created)

private theorem Accounts.append {τ τ' : List Event} (h : Accounts τ) (h' : Accounts τ') :
    Accounts (τ ++ τ') := by
  have hboth := h.add h'
  rwa [Multiset.coe_add, ← List.flatMap_append, ← List.flatMap_append] at hboth

private theorem accounts_received (chunk : List UInt8) : Accounts (receiveEvents chunk) :=
  .refl 0

private theorem accounts_flatten {l : List (List Event)} (h : ∀ τ ∈ l, Accounts τ) :
    Accounts l.flatten := by
  induction l with
  | nil => exact .refl 0
  | cons τ l ih =>
    rw [List.flatten_cons]
    exact (h τ List.mem_cons_self).append (ih (fun σ hσ ↦ h σ (List.mem_cons_of_mem _ hσ)))

private theorem Quiet.accounts {ρ : List Record.Event} (h : Quiet ρ) :
    Accounts (ρ.map .record) := by
  induction ρ with
  | nil => exact .refl 0
  | cons e ρ ih =>
    have hrest := ih (fun d hd ↦ h d (List.mem_cons_of_mem _ hd))
    obtain ⟨hopen, -, hwrite⟩ := h e List.mem_cons_self
    have hfirst : Accounts [Event.record e] := by
      cases e with
      | readDate => exact .brief _
      | fopen c path => exact absurd rfl (hopen c path)
      | write path bytes => exact absurd rfl (hwrite path bytes)
      | access | mkdir | readTime | returned => exact .refl 0
    exact hfirst.append hrest

private theorem Opening.accounts {chunk : List UInt8} {pre : List Event}
    (h : Opening chunk pre) : Accounts pre := by
  cases h with
  | live ρ hl hr =>
    obtain ⟨ρ', c, path, hq, rfl⟩ := hr
    have hfile : Accounts ([.fopen c path, .returned (some path), .write path chunk].map
        Event.record) := .brief _
    rw [List.map_append]
    exact (accounts_received chunk).append (hq.accounts.append hfile)
  | playback => exact accounts_received chunk

private theorem Fanout.accounts {env : Env} {t₀ : Table} {chunk : List UInt8} {m : Nat}
    {σ : List Event} (h : Fanout (ThreadTrace env t₀ chunk) m σ) : Accounts σ := by
  induction h with
  | zero => exact .refl 0
  | succ m σ υ _ hu ih =>
    obtain ⟨t', param, t, -, -, -, hrun⟩ := hu
    have hthread := client_turns hrun (by simp)
    have hlast : Accounts (υ.map (.client m (m + 1))) := by
      rw [Accounts, List.flatMap_map, List.flatMap_map]
      exact hthread
    exact ih.append hlast

private theorem Handled.accounts {env : Env} {sure : Prop} {t₀ : Table} {chunk : List UInt8}
    {τ : List Event} (h : Handled env sure t₀ chunk τ) : Accounts τ := by
  cases h with
  | useless => exact accounts_received chunk
  | unrecorded ρ hl hr =>
    obtain ⟨ρ', hq, rfl⟩ := hr
    have hend : Accounts ([.returned none].map Event.record) := .refl 0
    rw [List.map_append]
    exact (accounts_received chunk).append (hq.accounts.append hend)
  | fanned pre m σ ho hf =>
    have hcopy : Accounts (prepareEvents chunk) := .refl 0
    exact (ho.accounts.append hcopy).append hf.accounts

/-- At the entry of `distribute_run` and at its return the events so far account for what
they opened. -/
private theorem accounts_of_run {env : Env} {p₀ p : Proc} {τ : List Event} (h₀ : p₀.Waiting)
    (h : (process env).Open p₀ τ p) (hm : p.main = .run ∨ p.main = .recv) : Accounts τ := by
  obtain ⟨-, done, cur, rfl, hdone, hst⟩ := chunked_of_open h₀ h
  have hcur : Accounts cur := by
    rcases hm with hm | hm
    · obtain ⟨chunk, rfl⟩ := hst.receiveEvents_of_run hm
      exact accounts_received chunk
    · rw [hst.nil_of_recv hm]
      exact .refl 0
  refine (accounts_flatten ?_).append hcur
  intro σ hσ
  obtain ⟨c, hc, rfl⟩ := List.mem_map.mp hσ
  exact (hdone c hc).accounts

/-- For every call of `distribute_run` in every run of a process, whatever the chunk, the
client table and the outcomes: the descriptors open when it has returned are those that were
open when it was called exactly if no lock file was created in between. -/
theorem descriptors_kept_iff {env : Env} {p₀ p p' : Proc} {τ₀ τ : List Event}
    (h₀ : p₀.Waiting) (hcall : (process env).Open p₀ τ₀ p) (hrun : p.main = .run)
    (hreturn : (process env).Open p τ p') (hrecv : p'.main = .recv)
    (fds : Multiset Descriptor) :
    openAfter fds (τ₀ ++ τ) = openAfter fds τ₀ ↔
      ∀ k i path, Event.client k i (.playback (.creat path true)) ∉ τ := by
  have hbefore : openAfter fds τ₀ = fds + (τ₀.flatMap Event.created) :=
    (accounts_of_run h₀ hcall (.inl hrun)).heldAfter_eq fds
  have hafter : openAfter fds (τ₀ ++ τ) = fds + ((τ₀ ++ τ).flatMap Event.created) :=
    (accounts_of_run h₀ (hcall.trans hreturn) (.inr hrecv)).heldAfter_eq fds
  rw [hafter, hbefore, List.flatMap_append, ← Multiset.coe_add, ← add_assoc, add_eq_left,
    Multiset.coe_eq_zero, List.flatMap_eq_nil_iff]
  constructor
  · intro hnone k i path hmem
    cases hnone _ hmem
  · intro hnone e hmem
    cases e with
    | client k i e =>
      refine ClientEvent.created_eq_nil ?_
      rintro path rfl
      exact hnone k i path hmem
    | _ => rfl

private theorem open_receive (env : Env) (t : Table) (chunk : List UInt8)
    (hlen : 0 < chunk.length ∧ chunk.length ≤ MAX_BUFFER_SIZE) :
    (process env).Open (Proc.forked t 0) (receiveEvents chunk)
      ((Proc.forked t 0).receive chunk) := by
  let w : World := ⟨∅, ⟨∅, fun _ ↦ none⟩⟩
  have hstep : (process env).step w (Proc.forked t 0) (.main { chunk := some chunk }) =
      some ((Proc.forked t 0).receive chunk, w, receiveEvents chunk) := if_pos hlen
  exact .single trivial hstep

/-- A START request of the client, replayed to its end from an empty listing: when
`distribute_run` has returned, the descriptor of the lock file is open beside the two that
were open when it was called. -/
theorem start_request_leaves_lock_open :
    let env : Env := ⟨['d'], fun _ ↦ ['1']⟩
    let fds : Multiset Descriptor := {.listening, .accepted}
    ∃ p τ p', (process env).Open (Proc.forked (oneClient ['c']) 0)
        (receiveEvents startRequest) p ∧ p.main = .run ∧
      (process env).Open p τ p' ∧ p'.main = .recv ∧
      openAfter fds (receiveEvents startRequest) = fds ∧
      openAfter fds (receiveEvents startRequest ++ τ) = fds + {.lock (shmFile ['c'])} ∧
      fds + {.lock (shmFile ['c'])} ≠ fds := by
  intro env fds
  let w : World := ⟨∅, ⟨{env.dayDir 0}, fun _ ↦ none⟩⟩
  let locked : World := { w with shm := {shmFile ['c']} }
  let thread (w : World) : World × Act := (w, .client 0 { socket := .connected 5 })
  have hcall := open_receive env (oneClient ['c']) startRequest (by decide)
  obtain ⟨τ, p', hrun, hm, ho⟩ := Machine.exec_observe (process env) (fun _ _ _ ↦ true)
    ((Proc.forked (oneClient ['c']) 0).receive startRequest)
    (List.replicate 5 (w, .main {}) ++ List.replicate 3 (thread w) ++
      List.replicate 6 (thread locked) ++ List.replicate 4 (locked, .main {}))
    (fun p τ ↦ p.main = .recv ∧ openAfter fds (receiveEvents startRequest ++ τ) =
      fds + {.lock (shmFile ['c'])})
    (fun _ _ _ _ ↦ trivial) (by decide +kernel)
  exact ⟨_, τ, p', hcall, by decide, hrun, hm, by decide, ho, by decide⟩

/-- A live message, recorded and sent: what was opened for it is closed again. -/
theorem descriptors_kept_live :
    let env : Env := ⟨['d'], fun _ ↦ ['1']⟩
    let fds : Multiset Descriptor := {.listening, .accepted}
    let chunk : List UInt8 := [0x66, 0x66, 0x66, 0x66, 1]
    ∃ p τ p', (process env).Open (Proc.forked (oneClient ['x']) 0) (receiveEvents chunk) p ∧
      p.main = .run ∧ (process env).Open p τ p' ∧ p'.main = .recv ∧
      Event.client 0 1 (.send 5 chunk (.sent 5)) ∈ τ ∧
      openAfter fds (receiveEvents chunk ++ τ) = openAfter fds (receiveEvents chunk) := by
  intro env fds chunk
  let w : World := ⟨∅, ⟨{env.dayDir 0}, fun _ ↦ none⟩⟩
  have hcall := open_receive env (oneClient ['x']) chunk (by decide)
  have hcalled : ((Proc.forked (oneClient ['x']) 0).receive chunk).main = .run := by decide
  obtain ⟨τ, p', hrun, hm, hs, hnone⟩ := Machine.exec_observe (process env)
    (fun _ _ _ ↦ true) ((Proc.forked (oneClient ['x']) 0).receive chunk)
    (List.replicate 11 (w, .main {}) ++
      List.replicate 6 (w, .client 0 { socket := .connected 5, send := .sent 5 }) ++
      List.replicate 4 (w, .main {}))
    (fun p τ ↦ p.main = .recv ∧ Event.client 0 1 (.send 5 chunk (.sent 5)) ∈ τ ∧
      τ.flatMap Event.created = [])
    (fun _ _ _ _ ↦ trivial) (by decide +kernel)
  refine ⟨_, τ, p', hcall, hcalled, hrun, hm, hs, ?_⟩
  refine (descriptors_kept_iff (Proc.forked_waiting _ 0) hcall hcalled hrun hm fds).mpr ?_
  intro k i path hmem
  cases List.flatMap_eq_nil_iff.mp hnone _ hmem

end DupDistribute.Distribute

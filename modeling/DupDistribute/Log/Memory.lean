import DupDistribute.Base.Ledger
import DupDistribute.Log.LogWrite

/-!
# What logging leaves allocated

For every message `ReadLogConfig` (`log.c:41-72`) loads `engine.conf` anew. `loadFile_ConfigFile`
allocates an array of pointers and a block for every line, `parseFile_ConfigFile` allocates the
entries and frees the lines, and `destroInfo_ConfigFile` frees the entries. Nobody frees the array
of pointers (`ConfigFile.c:36`), so every message that reads the configuration leaves one behind.
Allocations are taken to succeed, as the source does not look.
-/

namespace DupDistribute.Log

open DupDistribute.Base DupDistribute.Config

/-! ### Allocations and streams -/

/-- What a process that logs acquires: for the reading with number `n` the stream of
`engine.conf`, the array of pointers with its number of lines, a block for line `i`, and the
entries; and the stream of the log file. -/
inductive LogResource where
  | confStream (n : Nat)
  | fileData (n lines : Nat)
  | line (n i : Nat)
  | info (n : Nat)
  | logStream
  deriving DecidableEq

/-- Uses of what is acquired. -/
abbrev LogOp := LedgerOp LogResource

/-- The loop of `loadFile_ConfigFile`, `ConfigFile.c:39-51`. -/
def lineOps (n : Nat) : Loading → List (List Char) → List LogOp
  | _, [] => []
  | l, piece :: pieces =>
    if isValid (cstr (fgets l.buf piece)) then
      .acquire (.line n l.index) :: lineOps n (l.storeLine piece) pieces
    else lineOps n (l.storeLine piece) pieces

/-- `loadFile_ConfigFile` of a file that can be opened. -/
def loadOps (n : Nat) (text : List Char) : List LogOp :=
  .acquire (.confStream n) :: .acquire (.fileData n (getLines text)) ::
    (lineOps n (.start text) (filePieces text) ++ [.release (.confStream n)])

/-- The second loop of `parseFile_ConfigFile` from slot `i` on, `ConfigFile.c:76-81`. -/
def freeOps (n : Nat) : Nat → List (Option CString) → List LogOp
  | _, [] => []
  | i, none :: slots => freeOps n (i + 1) slots
  | i, some _ :: slots => .release (.line n i) :: freeOps n (i + 1) slots

/-- `parseFile_ConfigFile`. -/
def parseOps (n : Nat) (fileData : List (Option CString)) : List LogOp :=
  .acquire (.info n) :: freeOps n 0 fileData

/-- `ReadLogConfig`; a lookup that fails ends the process before `destroInfo_ConfigFile`. -/
def readOps (n : Nat) (w : Surroundings) (content : List Char) (set : LogSet) : List LogOp :=
  loadOps n content ++ parseOps n (loadFile content) ++
    match readLogConfig w content set with
    | .error _ => []
    | .ok _ => [.release (.info n)]

/-- What a step of `LogWrite` acquires and releases. -/
def logOps (n : Nat) (w : Surroundings) (l : Logger) : List LogOp :=
  match l.pc with
  | .idle =>
    match w.conf with
    | .text content => readOps n w content l.set
    | _ => []
  | .configured call =>
    match initLog w l.set call.loglevel with
    | .ok (_, some _) => [.acquire .logStream]
    | _ => []
  | .opened call _ =>
    match printfLog call.format call.args with
    | .ok _ => [.release .logStream]
    | .error _ => []
  | .stopped _ => []

/-- The texts of `engine.conf` that have been read, after a step. -/
def textsAfter (texts : List (List Char)) (w : Surroundings) (l : Logger) : List (List Char) :=
  match l.pc, w.conf with
  | .idle, .text content => texts ++ [content]
  | _, _ => texts

/-- The calls of one process with what they acquire and release. -/
def logLedger : Machine Surroundings (Logger × List (List Char)) LogCall LogOp where
  step w s call := (logWrite w s.1 call).map (fun r ↦
    ((r.1, textsAfter s.2 w s.1), w, logOps s.2.length w s.1))

/-! ### One reading -/

private theorem lineOps_eq (n : Nat) (l : Loading) (pieces : List (List Char)) :
    lineOps n l pieces = ((List.range' l.index
      ((pieces.foldl Loading.storeLine l).index - l.index)).map (LogResource.line n)).map
        LedgerOp.acquire ∧ l.index ≤ (pieces.foldl Loading.storeLine l).index := by
  induction pieces generalizing l with
  | nil => simp [lineOps]
  | cons piece pieces ih =>
    obtain ⟨heq, hle⟩ := ih (l.storeLine piece)
    rw [List.foldl_cons, lineOps]
    by_cases hv : isValid (cstr (fgets l.buf piece)) = true
    · have hindex : (l.storeLine piece).index = l.index + 1 := by
        simp only [Loading.storeLine, hv, ↓reduceIte]
      rw [hindex] at heq hle
      refine ⟨?_, by omega⟩
      obtain ⟨m, hm⟩ : ∃ m, (pieces.foldl Loading.storeLine (l.storeLine piece)).index =
          l.index + 1 + m := Nat.exists_eq_add_of_le hle
      rw [if_pos hv, heq, hm, show l.index + 1 + m - (l.index + 1) = m by omega,
        show l.index + 1 + m - l.index = m + 1 by omega, List.range'_succ]
      rfl
    · have hindex : (l.storeLine piece).index = l.index := by
        simp only [Loading.storeLine, hv, Bool.false_eq_true, ↓reduceIte]
      rw [hindex] at heq hle
      exact ⟨by rw [if_neg hv, heq], hle⟩

private theorem freeOps_eq (n i : Nat) (lines : List CString) :
    freeOps n i (lines.map some) =
      ((List.range' i lines.length).map (LogResource.line n)).map LedgerOp.release := by
  induction lines generalizing i with
  | nil => rfl
  | cons line lines ih =>
    rw [List.map_cons, freeOps, ih, List.length_cons, List.range'_succ]
    rfl

/-- The blocks for the lines of a text. -/
def lineBlocks (n : Nat) (text : List Char) : List LogResource :=
  (List.range' 0 (keptLines text).length).map (.line n)

/-- A block for each line that is kept. -/
theorem lineOps_start (n : Nat) (text : List Char) :
    lineOps n (.start text) (filePieces text) = (lineBlocks n text).map .acquire := by
  obtain ⟨buf, -, hfold⟩ := foldl_start (List.append_nil (filePieces text)).symm
  rw [(lineOps_eq n (.start text) (filePieces text)).1, hfold]
  rfl

/-- All of them are freed. -/
theorem freeOps_loadFile (n : Nat) (text : List Char) :
    freeOps n 0 (loadFile text) = (lineBlocks n text).map .release := by
  rw [loadFile_eq, freeOps_eq, lineBlocks]

/-- `loadFile_ConfigFile` leaves the array and the lines. -/
theorem loadOps_settles (n : Nat) (text : List Char) :
    Settles (loadOps n text) 0
      ((.fileData n (getLines text) :: lineBlocks n text : List LogResource) :
        Multiset LogResource) := by
  have hopen := Settles.acquire
    (.confStream n :: .fileData n (getLines text) :: lineBlocks n text)
  have hclose := (Settles.release [LogResource.confStream n]).frame
    ((.fileData n (getLines text) :: lineBlocks n text : List LogResource) :
      Multiset LogResource)
  have hmid : ((.fileData n (getLines text) :: lineBlocks n text : List LogResource) :
        Multiset LogResource) + ([LogResource.confStream n] : List LogResource) =
      ((.confStream n :: .fileData n (getLines text) :: lineBlocks n text : List LogResource) :
        Multiset LogResource) := by
    rw [Multiset.coe_add]
    exact Multiset.coe_eq_coe.mpr (List.perm_append_singleton _ _)
  rw [hmid, add_zero] at hclose
  have hload := hopen.append hclose
  rw [loadOps, lineOps_start]
  exact hload

/-- `parseFile_ConfigFile` takes the lines and leaves the entries. -/
theorem parseOps_settles (n : Nat) (text : List Char) :
    Settles (parseOps n (loadFile text)) (lineBlocks n text : Multiset LogResource)
      {.info n} := by
  have hinfo := (Settles.acquire [LogResource.info n]).frame
    (lineBlocks n text : Multiset LogResource)
  have hfree := (Settles.release (lineBlocks n text)).frame {LogResource.info n}
  rw [add_zero] at hinfo hfree
  rw [add_comm] at hfree
  have hparse := hinfo.append hfree
  rw [parseOps, freeOps_loadFile]
  exact hparse

/-- A reading that returns leaves the array of pointers, and nothing else. -/
theorem readOps_settles {w : Surroundings} {content : List Char} {set set' : LogSet}
    {reading : Reading} (n : Nat) (h : readLogConfig w content set = .ok (set', reading)) :
    Settles (readOps n w content set) 0 {.fileData n (getLines content)} := by
  have hparse := (parseOps_settles n content).frame {LogResource.fileData n (getLines content)}
  have hdestroy := (Settles.release [LogResource.info n]).frame
    {LogResource.fileData n (getLines content)}
  rw [Multiset.singleton_add, Multiset.cons_coe] at hparse
  rw [add_zero] at hdestroy
  rw [readOps, h]
  exact ((loadOps_settles n content).append hparse).append hdestroy

/-! ### All calls -/

/-- The arrays of pointers of all readings. -/
def arrays (texts : List (List Char)) : List LogResource :=
  texts.mapIdx (fun n text ↦ .fileData n (getLines text))

/-- The stream of the message that is being written. -/
def Logger.stream (l : Logger) : List LogResource :=
  match l.pc with
  | .opened _ _ => [.logStream]
  | _ => []

private theorem arrays_concat (texts : List (List Char)) (content : List Char) :
    arrays (texts ++ [content]) = arrays texts ++ [.fileData texts.length (getLines content)] := by
  simp [arrays]

/-- What the process holds between two steps. -/
def logHeld (l : Logger) (texts : List (List Char)) : Multiset LogResource :=
  (arrays texts : Multiset LogResource) + (l.stream : Multiset LogResource)

/-- A step that does not stop the process accounts for what it acquires. -/
private theorem logOps_settles {w : Surroundings} {l l' : Logger} {call : LogCall}
    {es : List LogEvent} (texts : List (List Char)) (hs : logWrite w l call = some (l', es))
    (hrun : ∀ stop, l'.pc ≠ .stopped stop) :
    Settles (logOps texts.length w l) (logHeld l texts) (logHeld l' (textsAfter texts w l)) := by
  cases logDoes_of_step hs with
  | unread set hconf =>
    simp only [logOps, textsAfter, hconf]
    exact Settles.refl _
  | read set set' content reading hconf hread =>
    have hops := (readOps_settles texts.length hread).frame (logHeld ⟨set, .idle⟩ texts)
    have harrays : logHeld ⟨set', .configured call⟩ (texts ++ [content]) =
        logHeld ⟨set, .idle⟩ texts + {.fileData texts.length (getLines content)} := by
      rw [logHeld, arrays_concat, ← Multiset.coe_add, add_right_comm]
      rfl
    simp only [logOps, textsAfter, hconf]
    rw [add_zero] at hops
    rw [harrays]
    exact hops
  | refused set set' begun hinit =>
    simp only [logOps, textsAfter, hinit]
    exact Settles.refl _
  | begins set set' begun file text hinit =>
    have hops := (Settles.acquire [LogResource.logStream]).frame
      (arrays texts : Multiset LogResource)
    simp only [logOps, textsAfter, hinit]
    exact hops
  | prints set begun file printed hprint =>
    have hops := (Settles.release [LogResource.logStream]).frame
      (arrays texts : Multiset LogResource)
    simp only [logOps, textsAfter, hprint]
    exact hops
  | stops l stop => exact absurd rfl (hrun stop)

/-- In every run of `LogWrite` calls of a process that has not stopped, whatever `engine.conf`,
the clock, `HOME` and the outcomes of `fopen` are: no block is freed twice and no stream closed
twice, and what is left is the array of pointers of each reading of `engine.conf`, and the stream
of the message that is being written. -/
theorem every_reading_leaves_array {l : Logger} {texts : List (List Char)} {ops : List LogOp}
    (h : logLedger.Open (Logger.start, []) ops (l, texts)) (hrun : ∀ stop, l.pc ≠ .stopped stop) :
    settle 0 ops = some ((arrays texts : Multiset LogResource) + l.stream) := by
  refine h.invariant (fun ops s ↦ (∀ stop, s.1.pc ≠ .stopped stop) →
    settle 0 ops = some (logHeld s.1 s.2)) (fun _ ↦ rfl) ?_ hrun
  rintro ops ⟨l, texts⟩ w call ⟨l', texts'⟩ w' ops' hi - hs hrun
  obtain ⟨⟨l'', es⟩, hstep, he⟩ := Option.map_eq_some_iff.mp hs
  obtain ⟨⟨rfl, rfl⟩, -, rfl⟩ : (l'' = l' ∧ textsAfter texts w l = texts') ∧ w = w' ∧
      logOps texts.length w l = ops' := by simpa using he
  have hbefore : ∀ stop, l.pc ≠ .stopped stop := by
    intro stop hpc
    simp [logWrite, hpc] at hstep
  have hnext := logOps_settles texts hstep hrun 0
  rw [settle_append, hi hbefore]
  simpa using hnext

/-- Two messages, of which the second has a level that is not written. -/
theorem every_reading_leaves_array_two_messages :
    let text : List Char := "log-path=.\nlog-level=INFO\n".toList
    ∃ ops l, logLedger.Open (Logger.start, []) ops (l, [text, text]) ∧ l.pc = .idle ∧
      settle 0 ops = some ({.fileData 0 2, .fileData 1 2} : Multiset LogResource) := by
  intro text
  let w : Surroundings := ⟨.text text, [], ⟨['1'], by decide, by decide⟩, 0, 0, 0, none, true⟩
  obtain ⟨ops, ⟨l, texts⟩, hrun, htexts, hidle⟩ := Machine.exec_observe logLedger
    (fun _ _ _ ↦ true) (Logger.start, [])
    (List.replicate 3 (w, ⟨1, ['a'], []⟩) ++ List.replicate 2 (w, ⟨4, ['b'], []⟩))
    (fun s _ ↦ s.2 = [text, text] ∧ (match s.1.pc with | .idle => true | _ => false) = true)
    (fun _ _ _ _ ↦ trivial) (by decide +kernel)
  have hl : l.pc = .idle := by
    cases hpc : l.pc with
    | idle => rfl
    | _ => simp [hpc] at hidle
  obtain rfl : texts = [text, text] := htexts
  have harrays : arrays [text, text] = [.fileData 0 2, .fileData 1 2] := by decide +kernel
  have hleft := every_reading_leaves_array hrun (fun stop ↦ by simp [hl])
  rw [harrays, Logger.stream, hl] at hleft
  exact ⟨ops, l, hrun, hl, hleft⟩

end DupDistribute.Log

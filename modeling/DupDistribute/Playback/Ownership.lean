import DupDistribute.Playback.Scan

/-!
# Ownership of entries and streams in the replay loop

`playback.c:53-107` frees an entry and then reads its name, and uses the stream of a
failed `fopen`. So the loop respects ownership only as long as it never gets past its
first lock-file check.
-/

namespace DupDistribute.Playback

open DupDistribute.Base

/-- Each entry is freed at most once, no name is read from a freed entry, and no operation
is applied to a stream that `fopen` did not give. -/
structure Owned (τ : List ScanEvent) : Prop where
  freedOnce : ∀ i, τ.count (.freeEntry i) ≤ 1
  readLive : ∀ i pre post, τ = pre ++ .readName i :: post → ScanEvent.freeEntry i ∉ pre
  usable : ∀ op, ScanEvent.stream op false ∉ τ

/-- The state in which the loop starts on a listing. -/
def Scan.start (names : List CString) (playtime : UInt32) : Scan :=
  { pc := .check, namelist := names, playtime := playtime }

/-- The body reads the name of the entry it has freed, or uses a null stream. -/
theorem body_not_owned (args : ScanArgs) {s : Scan} (a : ScanInput) (hf : s.i ∉ s.freed)
    (before after : List ScanEvent) : ¬ Owned (before ++ (s.body args a).2 ++ after) := by
  intro h
  have ha := Scan.aborts_of_notMem a hf
  cases hc : a.content with
  | none =>
    obtain ⟨path, he⟩ := (Scan.body_crashed args ha hc).2
    exact h.usable .fseek (by simp [he])
  | some buffer =>
    obtain ⟨path, rest, he, -⟩ := Scan.body_events args ha hc
    apply h.readLive s.i (before ++ [.readName s.i, .freeEntry s.i, .fopen path (some buffer),
      .stream .fseek true, .stream .ftell true, .stream .rewind true, .stream .fread true,
      .stream .fclose true]) (rest ++ after)
    · simp only [he, List.append_assoc, List.cons_append]
    · simp

/-- A run that leaves the loop at its first check touches no entry. -/
theorem owned_access (present : Bool) : Owned [.access present] := by
  refine ⟨by simp, ?_, by simp⟩
  intro i pre post he
  cases pre with
  | nil => simp at he
  | cons e pre => simp at he

/-- For every non-empty listing and every sequence of outcomes, after any number of
iterations: ownership holds exactly when no iteration was made, or the first lock-file
check found no lock file. -/
theorem owned_iterations_iff (args : ScanArgs) (names : List CString) (playtime : UInt32)
    (outcomes : List (Shm × ScanInput)) (hn : 1 ≤ names.length) :
    Owned ((Scan.start names playtime).iterations args outcomes).2 ↔
      ∀ o ∈ outcomes.head?, shmFile args.address ∉ o.1 := by
  cases outcomes with
  | nil =>
    simp only [Scan.iterations, List.head?_nil, Option.mem_def, reduceCtorEq, false_implies,
      implies_true, iff_true]
    refine ⟨by simp, ?_, by simp⟩
    intro i pre post he
    simp at he
  | cons o rest =>
    obtain ⟨w, a⟩ := o
    have hi : (Scan.start names playtime).i < (Scan.start names playtime).namelist.length := hn
    simp only [List.head?_cons, Option.mem_def, Option.some.injEq, forall_eq']
    by_cases hl : shmFile args.address ∈ w
    · have hc := Scan.check_present hi hl
      simp only [Scan.start] at hc
      simp only [hl, not_true_eq_false, iff_false, Scan.iterations, Scan.start, hc]
      exact body_not_owned args a List.not_mem_nil _ _
    · simp only [hl, not_false_eq_true, iff_true]
      have he : ((Scan.start names playtime).iterations args ((w, a) :: rest)).2 =
          [.access false] := by
        have hc := Scan.check_absent hi hl
        simp only [Scan.start] at hc
        simp only [Scan.iterations, Scan.start, hc]
        cases rest <;> rfl
      rw [he]
      exact owned_access false

/-- A lock file that is there, one record, and two iterations whose pacing gate is closed:
the entry is freed twice. -/
theorem entry_freed_twice :
    let args : ScanArgs := ⟨['d'], ['0'], 1, ['c'], 5⟩
    let w : Shm := {shmFile ['c']}
    ¬ Owned ((Scan.start [['1', '_', '0']] 0).iterations args [(w, {}), (w, {})]).2 := by
  intro args w h
  have hcount := h.freedOnce 0
  revert hcount
  decide

/-- The same listing with the lock file missing at the first check. -/
theorem owned_iterations_no_lock :
    let args : ScanArgs := ⟨['d'], ['0'], 1, ['c'], 5⟩
    1 ≤ [['1', '_', '0']].length ∧
      (Owned ((Scan.start [['1', '_', '0']] 0).iterations args [(∅, {}), (∅, {})]).2 ↔
        ∀ o ∈ [((∅ : Shm), ({} : ScanInput)), (∅, {})].head?, shmFile args.address ∉ o.1) := by
  intro args
  exact ⟨by decide, owned_iterations_iff args _ 0 [(∅, {}), (∅, {})] (by decide)⟩

end DupDistribute.Playback

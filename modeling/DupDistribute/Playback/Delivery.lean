import DupDistribute.Playback.Scan

/-!
# What a replay delivers

The index of `scanAndSend` advances only after a `send` that took bytes (`playback.c:100-102`).
So the records that the socket has accepted are the first ones of the listing, in order; a
transient failure or a closed pacing gate comes back to the same record, any other failure ends
the replay, and so, in effect, does a record without bytes.
-/

namespace DupDistribute.Playback

open DupDistribute.Base

/-- `scanAndSend` as a machine of its own, from the call of `scandir`. -/
def scanAndSend (args : ScanArgs) : Machine Shm Scan ScanInput ScanEvent where
  step w s a := (s.step args w a).map (fun r ↦ (r.1, w, r.2))

/-- The buffer and the outcome of a `send`. -/
def ScanEvent.sendOf : ScanEvent → Option (List UInt8 × SendResult)
  | .send _ buffer res => some (buffer, res)
  | _ => none

/-- The calls of `send`, in order. -/
def sends (τ : List ScanEvent) : List (List UInt8 × SendResult) :=
  τ.filterMap ScanEvent.sendOf

theorem sends_append (τ τ' : List ScanEvent) : sends (τ ++ τ') = sends τ ++ sends τ' :=
  List.filterMap_append

/-- The buffer that a call of `send` accepted, if it has bytes. -/
def acceptedBy : List UInt8 × SendResult → Option (List UInt8)
  | (buffer, .sent _) => if buffer = [] then none else some buffer
  | (_, .failed _) => none

/-- The non-empty buffers accepted, in order. -/
def accepted (calls : List (List UInt8 × SendResult)) : List (List UInt8) :=
  calls.filterMap acceptedBy

/-- The listing is `names`, a name reads as it was listed, the record files can be read and do
not change, and a `send` takes the whole buffer or fails. The clock, the lock file and the
`errno` of a failed `send` are as they may be. -/
def Undamaged (names : List CString) (content : CString → List UInt8) (s : Scan)
    (a : ScanInput) : Prop :=
  (s.pc = .scandir → a.listing = some names) ∧
  (s.pc = .body →
    let name := s.namelist.getD s.i []
    a.stalePath = name ∧ a.staleTime = name ∧ a.content = some (content name) ∧
      (a.send = .sent (content name).length ∨ ∃ errno, a.send = .failed errno))

/-- The accepted buffers are the contents of the first records; every `send` offers the first
record not yet accepted; and nothing is sent after a failure that is not transient. -/
structure Delivers (names : List CString) (content : CString → List UInt8)
    (calls : List (List UInt8 × SendResult)) : Prop where
  inOrder : ∃ k ≤ names.length, accepted calls = (names.take k).map content
  next : Always (fun before call ↦ ∃ name, names[(accepted before).length]? = some name ∧
    call.1 = content name) calls
  stops : Always (fun before _ ↦ ∀ buffer errno, (buffer, .failed errno) ∈ before →
    transient errno = true) calls

/-! ### The loop -/

/-- The invariant of the loop: the index counts the accepted records. -/
private structure Delivering (names : List CString) (content : CString → List UInt8)
    (calls : List (List UInt8 × SendResult)) (s : Scan) : Prop extends
    Delivers names content calls where
  index : accepted calls = (names.take s.i).map content
  le : s.i ≤ names.length
  started : s.pc = .scandir → s.i = 0
  listed : s.pc = .check ∨ s.pc = .body → s.namelist = names
  inside : s.pc = .body → s.i < names.length
  linked : s.pc ≠ .returned .fail → ∀ buffer errno, (buffer, .failed errno) ∈ calls →
    transient errno = true

/-- A step without a `send`, which keeps the index. -/
private theorem Delivering.quiet {names : List CString} {content : CString → List UInt8}
    {calls : List (List UInt8 × SendResult)} {s s' : Scan} (h : Delivering names content calls s)
    (hi : s'.i = s.i) (hpc : s.pc ≠ .returned .fail) (hstart : s'.pc ≠ .scandir)
    (hlist : s'.pc = .check ∨ s'.pc = .body → s'.namelist = names)
    (hin : s'.pc = .body → s.i < names.length) : Delivering names content calls s' where
  toDelivers := h.toDelivers
  index := by rw [hi]; exact h.index
  le := by rw [hi]; exact h.le
  started hp := absurd hp hstart
  listed := hlist
  inside := by rw [hi]; exact hin
  linked _ := h.linked hpc

private theorem accepted_concat (calls : List (List UInt8 × SendResult))
    (call : List UInt8 × SendResult) :
    accepted (calls ++ [call]) = accepted calls ++ (acceptedBy call).toList := by
  rw [accepted, List.filterMap_append]
  cases h : acceptedBy call <;> simp [accepted, h]

section
variable {names : List CString} {content : CString → List UInt8}
  {calls : List (List UInt8 × SendResult)} {s : Scan}

/-- Every `send` offers the record at the index. -/
private theorem Delivering.offer (h : Delivering names content calls s) (hp : s.pc = .body)
    (res : SendResult) :
    Always (fun before call ↦ ∃ name, names[(accepted before).length]? = some name ∧
        call.1 = content name) (calls ++ [(content (names.getD s.i []), res)]) ∧
      Always (fun before _ ↦ ∀ buffer errno, (buffer, .failed errno) ∈ before →
        transient errno = true) (calls ++ [(content (names.getD s.i []), res)]) := by
  have hi := h.inside hp
  have hlen : (accepted calls).length = s.i := by
    rw [h.index, List.length_map, List.length_take]
    omega
  have hname : names[(accepted calls).length]? = some (names.getD s.i []) := by
    rw [hlen]
    simp [hi]
  exact ⟨always_concat.mpr ⟨h.next, _, hname, rfl⟩,
    always_concat.mpr ⟨h.stops, h.linked (by simp [hp])⟩⟩

/-- A `send` that accepts the record. -/
private theorem Delivering.sent (h : Delivering names content calls s) (hp : s.pc = .body) :
    let buffer := content (names.getD s.i [])
    Delivering names content (calls ++ [(buffer, .sent buffer.length)])
      (Scan.afterSend { s with freed := s.i :: s.freed } (.sent buffer.length)) := by
  intro buffer
  have hi := h.inside hp
  obtain ⟨hnext, hstops⟩ := h.offer hp (.sent buffer.length)
  have hlinked : ∀ b errno, (b, SendResult.failed errno) ∈ calls ++
      [(buffer, .sent buffer.length)] → transient errno = true := by
    intro b errno hm
    have hm : (b, SendResult.failed errno) ∈ calls := by simpa using hm
    exact h.linked (by simp [hp]) b errno hm
  have hindex : accepted (calls ++ [(buffer, .sent buffer.length)]) =
      (names.take (if 0 < buffer.length then s.i + 1 else s.i)).map content := by
    rw [accepted_concat, h.index]
    by_cases hb : buffer = []
    · simp [acceptedBy, hb]
    · have hpos : 0 < buffer.length := List.length_pos_iff.mpr hb
      have hname : names.getD s.i [] = names[s.i] := by simp [hi]
      rw [if_pos hpos, List.take_succ_eq_append_getElem hi, List.map_append, ← hname]
      change _ = _ ++ [buffer]
      simp only [acceptedBy, hb, Option.toList]
      rfl
  have hle : (if 0 < buffer.length then s.i + 1 else s.i) ≤ names.length := by
    split <;> omega
  exact ⟨⟨⟨_, hle, hindex⟩, hnext, hstops⟩, hindex, hle, fun hs ↦ (by cases hs),
    fun _ ↦ h.listed (.inr hp), fun hs ↦ (by cases hs), fun _ ↦ hlinked⟩

/-- A `send` that fails. -/
private theorem Delivering.failed (h : Delivering names content calls s) (hp : s.pc = .body)
    (errno : Nat) :
    Delivering names content (calls ++ [(content (names.getD s.i []), .failed errno)])
      (Scan.afterSend { s with freed := s.i :: s.freed } (.failed errno)) := by
  obtain ⟨hnext, hstops⟩ := h.offer hp (.failed errno)
  have hindex : accepted (calls ++ [(content (names.getD s.i []), .failed errno)]) =
      (names.take s.i).map content := by
    rw [accepted_concat, h.index]
    simp [acceptedBy]
  have hlinked (ht : transient errno = true) : ∀ b errno', (b, SendResult.failed errno') ∈ calls ++
      [(content (names.getD s.i []), .failed errno)] → transient errno' = true := by
    intro b errno' hm
    simp only [List.mem_append, List.mem_singleton, Prod.mk.injEq, SendResult.failed.injEq] at hm
    rcases hm with hm | ⟨-, rfl⟩
    · exact h.linked (by simp [hp]) b errno' hm
    · exact ht
  refine ⟨⟨⟨s.i, h.le, hindex⟩, hnext, hstops⟩, hindex, h.le, ?_, fun _ ↦ h.listed (.inr hp), ?_,
    ?_⟩
  · simp only [Scan.afterSend]
    split <;> simp
  · simp only [Scan.afterSend]
    split <;> simp
  · simp only [Scan.afterSend]
    split
    · next ht => exact fun _ ↦ hlinked ht
    · simp

/-- The calls of `send` in an iteration. -/
private theorem sends_body (args : ScanArgs) {a : ScanInput} {buffer : List UInt8}
    (ha : s.aborts a = false) (hc : a.content = some buffer) :
    sends (s.body args a).2 = [(buffer, a.send)] ∧
        (s.body args a).1 = Scan.afterSend { s with freed := s.i :: s.freed } a.send ∨
      sends (s.body args a).2 = [] ∧
        (s.body args a).1 = { s with freed := s.i :: s.freed, pc := .check } := by
  simp only [Scan.body, ha, hc, Bool.false_eq_true, ↓reduceIte]
  split
  · exact .inl ⟨rfl, rfl⟩
  · exact .inr ⟨rfl, rfl⟩

private theorem Scan.Does.delivering {args : ScanArgs} {w : Shm} {a : ScanInput} {s' : Scan}
    {es : List ScanEvent} (hd : Scan.Does args w a s s' es) (hu : Undamaged names content s a)
    (h : Delivering names content calls s) :
    Delivering names content (calls ++ sends es) s' := by
  cases hd with
  | unlisted hp hn => simp [hu.1 hp] at hn
  | listed names' hp hn =>
    obtain rfl : names = names' := by simpa [hu.1 hp] using hn
    simp only [sends, List.filterMap_cons, ScanEvent.sendOf, List.filterMap_nil, List.append_nil]
    exact h.quiet (h.started hp).symm (by simp [hp]) (by simp) (fun _ ↦ rfl) (by simp)
  | passed hp hi hl =>
    have hlist := h.listed (.inl hp)
    simp only [sends, List.filterMap_cons, ScanEvent.sendOf, List.filterMap_nil, List.append_nil]
    exact h.quiet rfl (by simp [hp]) (by simp) (fun _ ↦ hlist) (fun _ ↦ hlist ▸ hi)
  | stopped hp hi hl =>
    simp only [sends, List.filterMap_cons, ScanEvent.sendOf, List.filterMap_nil, List.append_nil]
    exact h.quiet rfl (by simp [hp]) (by simp) (by simp) (by simp)
  | finished hp hi =>
    simp only [sends, List.filterMap_nil, List.append_nil]
    exact h.quiet rfl (by simp [hp]) (by simp) (by simp) (by simp)
  | aborted hp =>
    simp only [sends, List.filterMap_cons, ScanEvent.sendOf, List.filterMap_nil, List.append_nil]
    exact h.quiet rfl (by simp [hp]) (by simp) (by simp) (by simp)
  | crashed hp ha hc => simp [(hu.2 hp).2.2.1] at hc
  | worked buffer hp ha hc =>
    obtain ⟨-, -, hcontent, hres⟩ := hu.2 hp
    have hlist := h.listed (.inr hp)
    rw [hlist] at hcontent hres
    rcases sends_body args ha hcontent with ⟨hsend, hstate⟩ | ⟨hsend, hstate⟩
    · rw [hsend, hstate]
      rcases hres with hres | ⟨errno, hres⟩
      · rw [hres]
        exact h.sent hp
      · rw [hres]
        exact h.failed hp errno
    · rw [hsend, hstate, List.append_nil]
      exact h.quiet rfl (by simp [hp]) (by simp) (fun _ ↦ hlist) (by simp)

end

/-! ### Whole runs -/

/-- For every listing and every replay of it, whatever the clock, the lock file and the outcomes
of `send` are: at every point the accepted buffers are the contents of the first records, every
`send` offers the first record not yet accepted, and nothing is sent after a failure that is not
transient. -/
theorem delivers_prefix (args : ScanArgs) (names : List CString)
    (content : CString → List UInt8) {τ : List ScanEvent} {s : Scan}
    (h : (scanAndSend args).RunIn (fun _ s a ↦ Undamaged names content s a) {} τ s) :
    Delivers names content (sends τ) := by
  have hstart : Delivering names content (sends []) {} :=
    ⟨⟨⟨0, Nat.zero_le _, rfl⟩, always_nil _, always_nil _⟩, rfl, Nat.zero_le _, fun _ ↦ rfl,
      by simp, by simp, by simp [sends]⟩
  have hinv := h.invariant (fun τ s ↦ Delivering names content (sends τ) s) hstart ?_
  · exact hinv.toDelivers
  intro τ s w a s' w' es hi hu hs
  obtain ⟨⟨t, es'⟩, hstep, he⟩ := Option.map_eq_some_iff.mp hs
  simp only [Prod.mk.injEq] at he
  obtain ⟨rfl, -, rfl⟩ := he
  rw [sends_append]
  exact (Scan.does_of_step hstep).delivering hu hi

/-- A replay that returned success without having seen the lock file missing is through. -/
private def Through (names : List CString) (τ : List ScanEvent) (s : Scan) : Prop :=
  s.pc = .returned .success → ScanEvent.access false ∉ τ → names.length ≤ s.i

private theorem Scan.Does.through {names : List CString} {content : CString → List UInt8}
    {args : ScanArgs} {w : Shm} {a : ScanInput} {s s' : Scan} {τ es : List ScanEvent}
    (hd : Scan.Does args w a s s' es) (hu : Undamaged names content s a)
    (h : Delivering names content (sends τ) s) : Through names (τ ++ es) s' := by
  cases hd with
  | unlisted hp hn => simp [hu.1 hp] at hn
  | listed | passed | aborted => simp [Through]
  | stopped => simp [Through]
  | finished hp hi =>
    intro _ _
    rw [h.listed (.inl hp)] at hi
    exact Nat.le_of_not_lt hi
  | crashed hp ha hc => simp [(hu.2 hp).2.2.1] at hc
  | worked buffer hp ha hc =>
    intro hr
    rcases sends_body args ha hc with ⟨-, hstate⟩ | ⟨-, hstate⟩
    · rw [hstate] at hr
      cases hs : a.send with
      | sent n => simp [hs, Scan.afterSend] at hr
      | failed errno => cases ht : transient errno <;> simp [hs, Scan.afterSend, ht] at hr
    · simp [hstate] at hr

/-- At every point of a replay the contents of the first records have been accepted, and all of
them when it has returned success and the lock file was always there. -/
theorem accepted_of_run {args : ScanArgs} {names : List CString}
    {content : CString → List UInt8} {τ : List ScanEvent} {s : Scan}
    (h : (scanAndSend args).RunIn (fun _ s a ↦ Undamaged names content s a) {} τ s) :
    accepted (sends τ) <+: names.map content ∧
      (s.pc = .returned .success → ScanEvent.access false ∉ τ →
        accepted (sends τ) = names.map content) := by
  have hinv := h.invariant
    (fun τ s ↦ Delivering names content (sends τ) s ∧ Through names τ s) ?_ ?_
  · obtain ⟨hd, hthrough⟩ := hinv
    rw [hd.index]
    refine ⟨(List.take_prefix s.i names).map content, fun hr ha ↦ ?_⟩
    rw [List.take_of_length_le (hthrough hr ha)]
  · refine ⟨⟨⟨⟨0, Nat.zero_le _, rfl⟩, always_nil _, always_nil _⟩, rfl, Nat.zero_le _,
      fun _ ↦ rfl, by simp, by simp, by simp [sends]⟩, by simp [Through]⟩
  · rintro τ s w a s' w' es ⟨hd, -⟩ hu hs
    obtain ⟨⟨t, es'⟩, hstep, he⟩ := Option.map_eq_some_iff.mp hs
    simp only [Prod.mk.injEq] at he
    obtain ⟨rfl, -, rfl⟩ := he
    have hdoes := Scan.does_of_step hstep
    rw [sends_append]
    exact ⟨hdoes.delivering hu hd, hdoes.through hu hd⟩

/-- Two records: the first is refused once with `EAGAIN` and then accepted, the gate of the
second is closed at first, and its `send` finds the link down. -/
theorem delivers_after_retry :
    let args : ScanArgs := ⟨['d'], ['0'], 5, [], 3⟩
    let names : List CString := [['4'], ['9']]
    let content (name : CString) : List UInt8 := if name = ['4'] then [1, 2] else [3]
    ∃ τ s, (scanAndSend args).RunIn (fun _ s a ↦ Undamaged names content s a) {} τ s ∧
      (s.pc = .returned .fail ∧
        sends τ = [([1, 2], .failed 11), ([1, 2], .sent 2), ([3], .failed 104)]) ∧
      Delivers names content (sends τ) := by
  intro args names content
  let ok (w : Shm) (s : Scan) (a : ScanInput) : Bool :=
    let name := s.namelist.getD s.i []
    (s.pc ≠ .scandir || a.listing = some names) && (s.pc ≠ .body ||
      (a.stalePath = name && a.staleTime = name && a.content = some (content name) &&
        (a.send = .sent (content name).length || a.send = .failed 11 || a.send = .failed 104)))
  have hok (w : Shm) (s : Scan) (a : ScanInput) (h : ok w s a = true) :
      Undamaged names content s a := by
    simp only [ok, Bool.and_eq_true, Bool.or_eq_true, decide_eq_true_eq, ne_eq] at h
    refine ⟨fun hp ↦ h.1.resolve_left (not_not.mpr hp), fun hp ↦ ?_⟩
    obtain ⟨⟨⟨hpath, htime⟩, hcontent⟩, hsend⟩ := h.2.resolve_left (not_not.mpr hp)
    refine ⟨hpath, htime, hcontent, ?_⟩
    rcases hsend with (hs | hs) | hs
    · exact .inl hs
    · exact .inr ⟨11, hs⟩
    · exact .inr ⟨104, hs⟩
  let reading (name : CString) (now : Nat) (res : SendResult) : ScanInput :=
    ⟨none, now, some (content name), name, name, res, false⟩
  let lock : Shm := {shmFile []}
  obtain ⟨τ, s, hrun, hobs⟩ := (scanAndSend args).exec_observe ok {}
    [(lock, ⟨some names, 100, none, [], [], .sent 0, false⟩),
      (lock, reading [] 101 (.sent 0)), (lock, reading ['4'] 101 (.failed 11)),
      (lock, reading [] 101 (.sent 0)), (lock, reading ['4'] 101 (.sent 2)),
      (lock, reading [] 101 (.sent 0)), (lock, reading ['9'] 101 (.sent 1)),
      (lock, reading [] 102 (.sent 0)), (lock, reading ['9'] 102 (.failed 104))]
    (fun s τ ↦ s.pc = .returned .fail ∧
      sends τ = [([1, 2], .failed 11), ([1, 2], .sent 2), ([3], .failed 104)]) hok
    (by decide +kernel)
  exact ⟨τ, s, hrun, hobs, delivers_prefix args names content hrun⟩

end DupDistribute.Playback

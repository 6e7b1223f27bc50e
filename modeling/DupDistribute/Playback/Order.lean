import DupDistribute.Base.TextFile
import DupDistribute.Playback.Filing
import DupDistribute.Playback.Window
import DupDistribute.Record.Sequence

/-!
# Order of a replay

`scandir` hands the names to the replay in the order of `alphasort`. For ten-digit times and the
counters that `CreateDataFile` uses, that is the order of the pairs of time and counter, so the
order of reception is kept as long as the counter grows within a second. It runs on across
seconds and goes from 999 to zero wherever that falls.
-/

namespace DupDistribute.Playback

open DupDistribute.Base DupDistribute.Wire DupDistribute.Record

variable {env : Env}

/-! ### Names as strings -/

theorem nul_notMem_recordName (timestamp uuid : UInt32) :
    nul ∉ recordName timestamp uuid :=
  notMem_recordName (by decide) (by decide) timestamp uuid

private theorem length_time {t : UInt32} (hlow : 1000000000 ≤ t.toNat)
    (hhigh : t.toNat < 2147483648) : (printD 0 t.toInt32).length = 10 := by
  have hx : t.toInt32.toInt = t.toNat := by rw [toInt_toInt32, if_pos hhigh]
  have hle : (Nat.toDigits 10 t.toNat).length ≤ 10 :=
    (Nat.length_toDigits_le_iff (by decide) (by decide)).mpr (by omega)
  have hge : ¬(Nat.toDigits 10 t.toNat).length ≤ 9 := by
    rw [Nat.length_toDigits_le_iff (by decide) (by decide)]
    omega
  rw [length_printD (by omega), hx, Int.natAbs_natCast]
  omega

private theorem length_counter {u : UInt32} (h : u.toNat ≤ 999) :
    (printD 3 u.toInt32).length = 3 := by
  have hx : u.toInt32.toInt = u.toNat := by rw [toInt_toInt32, if_pos (by omega)]
  have hle : (Nat.toDigits 10 u.toNat).length ≤ 3 :=
    (Nat.length_toDigits_le_iff (by decide) (by decide)).mpr (by omega)
  rw [length_printD (by omega), hx, Int.natAbs_natCast]
  omega

private theorem strcmp_number_neg_iff {width : Nat} {x y : UInt32} (hx : x.toNat < 2147483648)
    (hy : y.toNat < 2147483648)
    (hlen : (printD width x.toInt32).length = (printD width y.toInt32).length) :
    strcmp (printD width x.toInt32) (printD width y.toInt32) < 0 ↔ x < y := by
  have toInt {z : UInt32} (hz : z.toNat < 2147483648) : z.toInt32.toInt = z.toNat := by
    rw [toInt_toInt32, if_pos hz]
  rw [strcmp_printD_neg_iff (by rw [toInt hx]; omega) (by rw [toInt hy]; omega) hlen, toInt hx,
    toInt hy, UInt32.lt_iff_toNat_lt]
  omega

/-- For ten-digit times the names are ordered like the pairs of time and counter. -/
theorem strcmp_recordName_neg_iff {t t' u u' : UInt32} (ht : 1000000000 ≤ t.toNat)
    (ht2 : t.toNat < 2147483648) (ht' : 1000000000 ≤ t'.toNat) (ht2' : t'.toNat < 2147483648)
    (hu : u.toNat ≤ 999) (hu' : u'.toNat ≤ 999) :
    strcmp (recordName t u) (recordName t' u') < 0 ↔ t < t' ∨ t = t' ∧ u < u' := by
  have htime : (printD 0 t.toInt32).length = (printD 0 t'.toInt32).length := by
    rw [length_time ht ht2, length_time ht' ht2']
  have hcount : (printD 3 u.toInt32).length = (printD 3 u'.toInt32).length := by
    rw [length_counter hu, length_counter hu']
  have hsame : printD 0 t.toInt32 = printD 0 t'.toInt32 ↔ t = t' := by
    constructor
    · intro h
      simpa using congrArg Int32.toUInt32 (printD_inj h)
    · rintro rfl
      rfl
  have htail : strcmp ['.', 'd', 'a', 't', 'a'] ['.', 'd', 'a', 't', 'a'] = 0 := by decide
  rw [recordName, recordName, strcmp_append_neg_iff _ _ htime, strcmp_number_neg_iff ht2 ht2' htime,
    hsame, strcmp, if_pos rfl, strcmp_append_neg_iff _ _ hcount,
    strcmp_number_neg_iff (by omega) (by omega) hcount, htail]
  simp

/-- For ten-digit times and the counters in use, the ten characters that `filter_fn` and
`scanAndSend` copy spell the time, and the names are ordered like the pairs of time and counter. -/
theorem recordName_faithful {t t' u u' : UInt32} (ht : 1000000000 ≤ t.toNat)
    (ht2 : t.toNat < 2147483648) (ht' : 1000000000 ≤ t'.toNat) (ht2' : t'.toNat < 2147483648)
    (hu : u.toNat ≤ 999) (hu' : u'.toNat ≤ 999) :
    (atoi (strncpy (recordName t u) 10)).toInt = t.toNat ∧
      (strcmp (recordName t u) (recordName t' u') < 0 ↔ t < t' ∨ t = t' ∧ u < u') ∧
      (strcmp (recordName t u) (recordName t' u') = 0 ↔ t = t' ∧ u = u') ∧
      (strcmp (recordName t u) (recordName t' u') > 0 ↔ t' < t ∨ t' = t ∧ u' < u) ∧
      (recordName t u = recordName t' u' ↔ t = t' ∧ u = u') := by
  have hsame : recordName t u = recordName t' u' ↔ t = t' ∧ u = u' := by
    constructor
    · intro h
      have hpath : dataFile [] t u = dataFile [] t' u' := by rw [dataFile_eq, dataFile_eq, h]
      exact (dataFile_inj hpath).2
    · rintro ⟨rfl, rfl⟩
      rfl
  have hswap := strcmp_swap (recordName t u) (recordName t' u')
  refine ⟨realTime_of_lt u ht2, strcmp_recordName_neg_iff ht ht2 ht' ht2' hu hu', ?_, ?_, hsame⟩
  · rw [strcmp_eq_zero_iff (nul_notMem_recordName t u) (nul_notMem_recordName t' u'), hsame]
  · rw [← strcmp_recordName_neg_iff ht' ht2' ht ht2 hu' hu, hswap]
    omega

/-- Two records of one second, the first with a counter of one digit. -/
theorem recordName_faithful_within_second :
    (atoi (strncpy "1700000000_009.data".toList 10)).toInt = 1700000000 ∧
      strcmp (recordName 1700000000 9) (recordName 1700000000 10) < 0 := by
  obtain ⟨hnumber, horder, -⟩ := @recordName_faithful 1700000000 1700000000 9 10
    (by decide) (by decide) (by decide) (by decide) (by decide) (by decide)
  have hname : recordName 1700000000 9 = "1700000000_009.data".toList := by decide +kernel
  rw [hname] at hnumber
  exact ⟨hnumber, horder.mpr (by decide)⟩

/-! ### Sorted listings -/

/-- The names of directory entries as `scandir` sorts them. -/
def sortedNames (entries : List Dirent) : List CString :=
  (entries.mergeSort (fun a b ↦ decide (alphasort a b ≤ 0))).map Dirent.d_name

/-- However `readdir` delivers the files with these names, sorting them gives this order. -/
def ListedInOrder (names : List CString) : Prop :=
  ∀ entries : List Dirent, (entries.map Dirent.d_name).Nodup →
    (∀ name, name ∈ entries.map Dirent.d_name ↔ name ∈ names) → sortedNames entries = names

/-- The order that `strcmp` sees, on names up to a NUL. -/
private def notAfter (a b : CString) : Bool := decide (strcmp (cstr a) (cstr b) ≤ 0)

private theorem notAfter_eq {a b : CString} (ha : nul ∉ a) (hb : nul ∉ b) :
    notAfter a b = decide (strcmp a b ≤ 0) := by
  rw [notAfter, cstr_of_notMem ha, cstr_of_notMem hb]

private theorem sortedNames_eq {entries : List Dirent}
    (hnul : ∀ name ∈ entries.map Dirent.d_name, nul ∉ name) :
    sortedNames entries = (entries.map Dirent.d_name).mergeSort notAfter := by
  apply List.map_mergeSort
  intro a ha b hb
  rw [notAfter_eq (hnul _ (List.mem_map_of_mem ha)) (hnul _ (List.mem_map_of_mem hb)), alphasort]

private theorem pairwise_notAfter (names : List CString) :
    (names.mergeSort notAfter).Pairwise (fun a b ↦ notAfter a b = true) := by
  apply List.pairwise_mergeSort
  · intro a b c hab hbc
    simp only [notAfter, decide_eq_true_eq] at hab hbc ⊢
    exact strcmp_trans (nul_notMem_cstr a) (nul_notMem_cstr b) hab hbc
  · intro a b
    have hswap := strcmp_swap (cstr a) (cstr b)
    simp only [notAfter, Bool.or_eq_true, decide_eq_true_eq]
    omega

/-- Names are listed in their order exactly if each is less than those behind it. -/
theorem listedInOrder_iff {names : List CString} (hnul : ∀ name ∈ names, nul ∉ name) :
    ListedInOrder names ↔ names.Pairwise (fun a b ↦ strcmp a b < 0) := by
  constructor
  · intro h
    -- A directory has each name once.
    let entries : List Dirent := names.dedup.map (fun name ↦ ⟨8, name⟩)
    have hnames : entries.map Dirent.d_name = names.dedup := by
      simp [entries, Function.comp_def]
    have hsorted := h entries (by rw [hnames]; exact List.nodup_dedup names)
      (fun name ↦ by rw [hnames, List.mem_dedup])
    rw [sortedNames_eq (fun name hm ↦ hnul name (by rwa [hnames, List.mem_dedup] at hm)), hnames]
      at hsorted
    have hnodup : names.Nodup := by
      rw [← hsorted, (List.mergeSort_perm _ _).nodup_iff]
      exact List.nodup_dedup names
    have hle := pairwise_notAfter names.dedup
    rw [hsorted] at hle
    refine (hle.and hnodup).imp_of_mem ?_
    rintro a b ha hb ⟨hab, hne⟩
    rw [notAfter_eq (hnul a ha) (hnul b hb), decide_eq_true_eq] at hab
    have hzero := mt (strcmp_eq_zero_iff (hnul a ha) (hnul b hb)).mp hne
    omega
  · intro h entries hnodup hmem
    have hnul' : ∀ name ∈ entries.map Dirent.d_name, nul ∉ name :=
      fun name hm ↦ hnul name ((hmem name).mp hm)
    have hperm : (entries.map Dirent.d_name).Perm names := by
      apply (List.perm_ext_iff_of_nodup hnodup ?_).mpr hmem
      refine h.imp ?_
      rintro a b hab rfl
      have hswap := strcmp_swap a a
      omega
    rw [sortedNames_eq hnul']
    refine List.Perm.eq_of_pairwise ?_ (pairwise_notAfter _) ?_
      ((List.mergeSort_perm _ _).trans hperm)
    · intro a b ha hb hab hba
      have ha := hnul a (hperm.mem_iff.mp (List.mem_mergeSort.mp ha))
      rw [notAfter_eq ha (hnul b hb), decide_eq_true_eq] at hab
      rw [notAfter_eq (hnul b hb) ha, decide_eq_true_eq, strcmp_swap a b] at hba
      exact (strcmp_eq_zero_iff ha (hnul b hb)).mp (by omega)
    · refine h.imp_of_mem ?_
      intro a b ha hb hab
      rw [notAfter_eq (hnul a ha) (hnul b hb), decide_eq_true_eq]
      omega

/-! ### Records of one day -/

/-- The name of the record of a call; its path is this name in its directory. -/
def callName (c : Call) : CString := recordName c.timestamp c.counter

/-- One record comes before another by time and counter. -/
private def Precedes (c d : Call) : Prop :=
  c.timestamp < d.timestamp ∨ c.timestamp = d.timestamp ∧ c.counter < d.counter

private instance : IsTrans Call Precedes where
  trans c d e hcd hde := by
    simp only [Precedes, UInt32.lt_iff_toNat_lt, ← UInt32.toNat_inj] at *
    omega

/-- Of two neighbours in one directory the first precedes, unless the counter starts again within
the second. -/
private theorem precedes_iff_of_follows {c d : Call} (h : Follows env c d)
    (hdir : d.dir = c.dir) : Precedes c d ↔ (c.timestamp = d.timestamp → d.uuid < 999) := by
  have hcount := h.counter hdir
  have hle := c.counter_le
  have hlater := h.later
  have h999 : (999 : UInt32).toNat = 999 := rfl
  simp only [Precedes, h.carried, UInt32.lt_iff_toNat_lt, UInt32.le_iff_toNat_le,
    ← UInt32.toNat_inj, hcount, h999] at hlater ⊢
  omega

private theorem chain_precedes_iff {cs : List Call} (h : cs.IsChain (Follows env))
    (hdir : ∀ c ∈ cs, ∀ d ∈ cs, d.dir = c.dir) :
    cs.IsChain Precedes ↔ cs.IsChain (fun c d ↦ c.timestamp = d.timestamp → d.uuid < 999) := by
  induction cs with
  | nil => simp
  | cons c cs ih =>
    cases cs with
    | nil => simp
    | cons d cs =>
      obtain ⟨hfirst, hrest⟩ := List.isChain_cons_cons.mp h
      have ih := ih hrest (fun x hx y hy ↦
        hdir x (List.mem_cons_of_mem _ hx) y (List.mem_cons_of_mem _ hy))
      rw [List.isChain_cons_cons, List.isChain_cons_cons, ih,
        precedes_iff_of_follows hfirst (hdir c (by simp) d (by simp))]

/-- The readings of a call that got a file are in the trace. -/
theorem readings_of_call {ρ : List Record.Event} (h : OpensRead env ρ) {c : Call}
    (hc : c ∈ calls ρ) : ∃ date time, Record.Event.readDate date ∈ ρ ∧
      Record.Event.readTime time ∈ ρ ∧ c.dir = env.dayDir date ∧
      c.timestamp = UInt32.ofNat time := by
  obtain ⟨e, he, hcall⟩ := List.mem_filterMap.mp hc
  cases e with
  | fopen call path =>
    obtain rfl : call = c := by simpa [Record.Event.call] using hcall
    obtain ⟨before, after, rfl, date, time, hdate, htime, hdir, htimestamp⟩ := readBy_of_mem h he
    refine ⟨date, time, List.mem_append_left _ ?_, List.mem_append_left _ ?_, hdir, htimestamp⟩
    · obtain ⟨e, he, heq⟩ := List.mem_filterMap.mp (List.mem_of_getLast? hdate)
      cases e <;> simp_all
    · obtain ⟨e, he, heq⟩ := List.mem_filterMap.mp (List.mem_of_getLast? htime)
      cases e <;> simp_all
  | _ => simp [Record.Event.call] at hcall

/-- Of one process alone, with a clock that never goes back and has ten digits: the calls follow
each other, and their names are ordered like the pairs of time and counter. -/
private theorem calls_ordered {x₀ x : Recorder × Store} {ρ : List Record.Event}
    (h₀ : x₀.1.pc = .idle) (h : (recorder env).closed.Open x₀ ρ x)
    (hok : Record.Event.returned none ∉ ρ)
    (hclock : (ρ.filterMap Record.Event.reading).Pairwise (· ≤ ·))
    (hrange : ∀ now ∈ ρ.filterMap Record.Event.reading, 1000000000 ≤ now ∧ now < 2147483648) :
    (calls ρ).IsChain (Follows env) ∧ ∀ c ∈ calls ρ, ∀ d ∈ calls ρ,
      (strcmp (callName c) (callName d) < 0 ↔ Precedes c d) := by
  have hread := opensRead_of_open h₀ h.open_of_closed
  have htime (now : Nat) (hm : Record.Event.readTime now ∈ ρ) :
      1000000000 ≤ now ∧ now < 2147483648 := hrange now (List.mem_filterMap.mpr ⟨_, hm, rfl⟩)
  have hheld : readings ρ = ρ.filterMap Record.Event.reading :=
    readings_of_small (fun now hm ↦ Nat.lt_trans (htime now hm).2 (by decide))
  have htime : ∀ c ∈ calls ρ, 1000000000 ≤ c.timestamp.toNat ∧ c.timestamp.toNat < 2147483648 := by
    intro c hc
    obtain ⟨-, time, -, hm, -, hc⟩ := readings_of_call hread hc
    have hrange := htime time hm
    rwa [hc, UInt32.toNat_ofNat_of_lt' (Nat.lt_trans hrange.2 (by decide))]
  refine ⟨(sequenced_of_closed h₀ h hok (by rwa [hheld])).chain, fun c hc d hd ↦ ?_⟩
  exact strcmp_recordName_neg_iff (htime c hc).1 (htime c hc).2 (htime d hd).1 (htime d hd).2
    c.counter_le d.counter_le

/-- One process alone that records messages on one day, with a clock that never goes back and has
ten digits: sorting the names gives the order of reception exactly if no call that falls into the
second of the record before it begins with the counter at 999. -/
theorem listedInOrder_iff_noWrap {x₀ x : Recorder × Store} {ρ : List Record.Event}
    (h₀ : x₀.1.pc = .idle) (h : (recorder env).closed.Open x₀ ρ x)
    (hok : Record.Event.returned none ∉ ρ)
    (hclock : (ρ.filterMap Record.Event.reading).Pairwise (· ≤ ·))
    (hrange : ∀ now ∈ ρ.filterMap Record.Event.reading, 1000000000 ≤ now ∧ now < 2147483648)
    (hday : ∀ date date', Record.Event.readDate date ∈ ρ → Record.Event.readDate date' ∈ ρ →
      env.localDate date = env.localDate date') :
    ListedInOrder ((calls ρ).map callName) ↔
      (calls ρ).IsChain (fun c d ↦ c.timestamp = d.timestamp → d.uuid < 999) := by
  have hread := opensRead_of_open h₀ h.open_of_closed
  obtain ⟨hchain, hnames⟩ := calls_ordered h₀ h hok hclock hrange
  have hdir : ∀ c ∈ calls ρ, ∀ d ∈ calls ρ, d.dir = c.dir := by
    intro c hc d hd
    obtain ⟨date, -, hdate, -, hcdir, -⟩ := readings_of_call hread hc
    obtain ⟨date', -, hdate', -, hddir, -⟩ := readings_of_call hread hd
    rw [hcdir, hddir, Env.dayDir, Env.dayDir, hday date date' hdate hdate']
  rw [listedInOrder_iff, List.pairwise_map, ← chain_precedes_iff hchain hdir,
    List.isChain_iff_pairwise]
  · apply List.Pairwise.iff_of_mem
    intro c d hc hd
    exact hnames c hc d hd
  · intro name hname
    obtain ⟨c, -, rfl⟩ := List.mem_map.mp hname
    exact nul_notMem_recordName _ _

/-- Under the same conditions, and if the counter does not start again within a second, the names
increase in the order of reception. -/
theorem callNames_increase {x₀ x : Recorder × Store} {ρ : List Record.Event}
    (h₀ : x₀.1.pc = .idle) (h : (recorder env).closed.Open x₀ ρ x)
    (hok : Record.Event.returned none ∉ ρ)
    (hclock : (ρ.filterMap Record.Event.reading).Pairwise (· ≤ ·))
    (hrange : ∀ now ∈ ρ.filterMap Record.Event.reading, 1000000000 ≤ now ∧ now < 2147483648)
    (hdir : ∀ c ∈ calls ρ, ∀ d ∈ calls ρ, d.dir = c.dir)
    (hwrap : (calls ρ).IsChain (fun c d ↦ c.timestamp = d.timestamp → d.uuid < 999)) :
    (calls ρ).Pairwise (fun c d ↦ strcmp (callName c) (callName d) < 0) := by
  obtain ⟨hchain, hnames⟩ := calls_ordered h₀ h hok hclock hrange
  have hprecedes := List.isChain_iff_pairwise.mp ((chain_precedes_iff hchain hdir).mpr hwrap)
  refine hprecedes.imp_of_mem ?_
  intro c d hc hd hcd
  exact (hnames c hc d hd).mpr hcd

/-- Two messages in one second with the counter at 998 before: the second record is listed first. -/
theorem wrapped_record_listed_first :
    let env : Env := ⟨['d'], fun _ ↦ ['1']⟩
    ∃ ρ x, (recorder env).closed.Open (⟨998, .idle⟩, ⟨{env.dayDir 0}, fun _ ↦ none⟩) ρ x ∧
      Record.Event.returned none ∉ ρ ∧
      ρ.filterMap Record.Event.reading = List.replicate 4 1000000000 ∧
      (calls ρ).map Call.counter = [999, 0] ∧ ¬ListedInOrder ((calls ρ).map callName) := by
  intro env
  let first : Call := ⟨env.dayDir 0, true, 998, 1000000000⟩
  let second : Call := ⟨env.dayDir 0, true, 999, 1000000000⟩
  obtain ⟨ρ, x, hrun, hok, hclock, hcalls⟩ :=
    Machine.exec_observe (recorder env).closed (fun _ _ _ ↦ true)
      (⟨998, .idle⟩, ⟨{env.dayDir 0}, fun _ ↦ none⟩)
      (List.replicate 14 ((), { now := 1000000000 }))
      (fun _ ρ ↦ Record.Event.returned none ∉ ρ ∧
        ρ.filterMap Record.Event.reading = List.replicate 4 1000000000 ∧
        calls ρ = [first, second])
      (fun _ _ _ _ ↦ trivial) (by decide +kernel)
  refine ⟨ρ, x, hrun, hok, hclock, by rw [hcalls]; decide, ?_⟩
  rw [hcalls, listedInOrder_iff (by decide +kernel)]
  decide +kernel

/-- Two messages in one second with the counter at 5 before. -/
theorem listedInOrder_within_second :
    let env : Env := ⟨['d'], fun _ ↦ ['1']⟩
    ∃ ρ x, (recorder env).closed.Open (⟨5, .idle⟩, ⟨{env.dayDir 0}, fun _ ↦ none⟩) ρ x ∧
      (calls ρ).map Call.counter = [6, 7] ∧ ListedInOrder ((calls ρ).map callName) := by
  intro env
  let first : Call := ⟨env.dayDir 0, true, 5, 1000000000⟩
  let second : Call := ⟨env.dayDir 0, true, 6, 1000000000⟩
  obtain ⟨ρ, x, hrun, hok, hclock, hcalls⟩ :=
    Machine.exec_observe (recorder env).closed (fun _ _ _ ↦ true)
      (⟨5, .idle⟩, ⟨{env.dayDir 0}, fun _ ↦ none⟩)
      (List.replicate 14 ((), { now := 1000000000 }))
      (fun _ ρ ↦ Record.Event.returned none ∉ ρ ∧
        ρ.filterMap Record.Event.reading = List.replicate 4 1000000000 ∧
        calls ρ = [first, second])
      (fun _ _ _ _ ↦ trivial) (by decide +kernel)
  refine ⟨ρ, x, hrun, by rw [hcalls]; decide, ?_⟩
  refine (listedInOrder_iff_noWrap rfl hrun hok (by rw [hclock]; decide) ?_
    (fun _ _ _ _ ↦ rfl)).mpr ?_
  · rw [hclock]
    decide
  · rw [hcalls]
    decide

end DupDistribute.Playback

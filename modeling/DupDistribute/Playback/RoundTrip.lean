import DupDistribute.Playback.Delivery
import DupDistribute.Playback.Order
import DupDistribute.Record.Contents

/-!
# From reception to replay

Recording and replay as one system. What the processes record is in the store, `scandir` lists
the records of the day that lie in the window of the request, and `myscandirServe`
(`playback.c:117-158`) sends what the listed files hold. So as long as no two records share a
path, a replay of the day sends the messages of the window, each of them once; and it sends the
messages of one process in the order in which they were received.
-/

namespace DupDistribute.Playback

open DupDistribute.Base DupDistribute.Wire DupDistribute.Record

variable {ι : Type} {env : Env}

/-! ### The directory and the store -/

/-- `readdir` gives every file of the directory once. -/
structure Directory.Shows (dir : Directory) (st : Store) (path : CString) : Prop where
  once : (dir.entries.map Dirent.d_name).Nodup
  files : ∀ name, (∃ ent ∈ dir.entries, ent.d_type ≠ DT_DIR ∧ ent.d_name = name) ↔
    '/' ∉ name ∧ (st.files (path ++ '/' :: name)).isSome

/-- The content of a file of the directory. -/
def contentIn (st : Store) (path name : CString) : List UInt8 :=
  (st.files (path ++ '/' :: name)).getD []

/-- The record lies in the directory and in the window. -/
def Wanted (request : ReplayProtocol) (path : CString) (c : Call) : Prop :=
  c.dir = path ∧ InWindow request c.timestamp

instance (request : ReplayProtocol) (path : CString) : DecidablePred (Wanted request path) :=
  fun c ↦ inferInstanceAs (Decidable (c.dir = path ∧ request.StartTime ≤ c.timestamp ∧
    c.timestamp ≤ request.EndTime))

/-- The calls of all processes that got a file, in order. -/
def allCalls (τ : List (ι × Record.Event)) : List Call := τ.filterMap (fun e ↦ e.2.call)

/-- The bytes that were written to the record of a call. -/
def bytesOf (τ : List (ι × Record.Event)) (c : Call) : List UInt8 :=
  ((messages τ).lookup c.path).getD []

/-- The environment of a replay at the time `now` of an unchanging store: the directory of the
day is read as `dir`, and then as in `Undamaged`. -/
def FromStore (st : Store) (dir : Directory) (now : Nat) (_ : Shm) (s : Session)
    (a : SessionInput) : Prop :=
  match s.pc with
  | .serve => a.now = now
  | .scan sc =>
    Undamaged (((scandir dir s.request).getD []).map Dirent.d_name)
      (contentIn st s.dir) sc a.scan
  | _ => True

/-- The events of `scanAndSend` inside a session. -/
def scans (σ : List PlaybackEvent) : List ScanEvent :=
  σ.filterMap (fun | .scan e => some e | _ => none)

/-! ### The session -/

private theorem ofScan_eq_scan {sc sc' : Scan} (h : SessionPc.ofScan sc = .scan sc') :
    sc = sc' := by
  simp only [SessionPc.ofScan] at h
  split at h <;> cases h
  rfl

private theorem ofScan_ne_serve (sc : Scan) : SessionPc.ofScan sc ≠ .serve := by
  simp only [SessionPc.ofScan]
  split <;> simp

private theorem returned_of_ofScan {sc : Scan} (h : SessionPc.ofScan sc = .returned) :
    sc.pc = .returned .success := by
  simp only [SessionPc.ofScan] at h
  split at h <;> first
  | assumption
  | cases h

private theorem scans_append (σ σ' : List PlaybackEvent) :
    scans (σ ++ σ') = scans σ ++ scans σ' := List.filterMap_append

private theorem scans_map (es : List ScanEvent) : scans (es.map .scan) = es := by
  rw [scans, List.filterMap_map]
  exact List.filterMap_some

section
variable {address : CString} {acceptfd : Int} {now : Nat} {st : Store} {dir : Directory}
  {request : ReplayProtocol}

/-- A session of `myscandirServe` has not listed the directory, or is in a replay of its own. -/
private def Inside (env : Env) (address : CString) (acceptfd : Int) (now : Nat) (st : Store)
    (dir : Directory) (request : ReplayProtocol) (σ : List PlaybackEvent) (s : Session) : Prop :=
  s.request = request ∧ ((s.pc = .serve ∨ s.pc = .removeFailed) ∧ scans σ = [] ∨
    s.dir = env.dayDir now ∧ ∃ sc, s.pc = .ofScan sc ∧
      (scanAndSend (s.scanArgs address acceptfd)).RunIn
        (fun _ s a ↦ Undamaged (((scandir dir request).getD []).map Dirent.d_name)
          (contentIn st (env.dayDir now)) s a) {} (scans σ) sc)

private theorem inside_step {w w' : Shm} {a : SessionInput} {s s' : Session}
    {σ es : List PlaybackEvent} (h : Inside env address acceptfd now st dir request σ s)
    (ha : FromStore st dir now w s a)
    (hs : (myscandirServe env address acceptfd).step w s a = some (s', w', es)) :
    Inside env address acceptfd now st dir request (σ ++ es) s' := by
  simp only [myscandirServe, Option.ite_none_right_eq_some] at hs
  obtain ⟨hrep, hs⟩ := hs
  obtain ⟨hreq, h⟩ := h
  rw [Inside, scans_append]
  cases Session.does_of_step hs with
  | served hp hok =>
    simp only [FromStore, hp] at ha
    rcases h with ⟨-, hnone⟩ | ⟨-, sc, hsc, -⟩
    · rw [hnone]
      exact ⟨hreq, .inr ⟨by rw [ha], {}, rfl, .refl⟩⟩
    · exact absurd (hsc.symm.trans hp) (ofScan_ne_serve sc)
  | notServed hp hok =>
    rcases h with ⟨-, hnone⟩ | ⟨-, sc, hsc, -⟩
    · rw [hnone]
      exact ⟨hreq, .inl ⟨.inr rfl, rfl⟩⟩
    · exact absurd (hsc.symm.trans hp) (ofScan_ne_serve sc)
  | scanned sc sc' es hp hsc' =>
    simp only [FromStore, hp] at ha
    rcases h with ⟨hp' | hp', -⟩ | ⟨hdir, sc₀, hsc, hrun⟩
    · simp [hp] at hp'
    · simp [hp] at hp'
    · obtain rfl := ofScan_eq_scan (hsc.symm.trans hp)
      rw [hdir, hreq] at ha
      have hstep : (scanAndSend (s.scanArgs address acceptfd)).step w sc₀ a.scan =
          some (sc', w, es) := by
        simp only [scanAndSend, hsc', Option.map_some]
      rw [scans_map]
      exact ⟨hreq, .inr ⟨hdir, sc', rfl, .snoc hrun ha hstep⟩⟩
  | created hp | notCreated hp => rw [hp] at hrep; cases hrep
  | removed hp => rcases hp with hp | hp | hp <;> rw [hp] at hrep <;> cases hrep

/-- What a replay of an unchanging store has sent, in terms of the listing. -/
private theorem sent_of_run {index : Nat} {σ : List PlaybackEvent} {s : Session}
    (h : (myscandirServe env address acceptfd).RunIn (FromStore st dir now)
      (Session.serving index request) σ s) :
    let names := ((scandir dir request).getD []).map Dirent.d_name
    accepted (sends (scans σ)) <+: names.map (contentIn st (env.dayDir now)) ∧
      (s.pc = .returned → ScanEvent.access false ∉ scans σ →
        accepted (sends (scans σ)) = names.map (contentIn st (env.dayDir now))) := by
  have hinside : Inside env address acceptfd now st dir request σ s :=
    h.invariant _ ⟨rfl, .inl ⟨.inl rfl, rfl⟩⟩
      (fun σ s w a s' w' es hi hc hs ↦ inside_step hi hc hs)
  rcases hinside.2 with ⟨hp, hnone⟩ | ⟨-, sc, hsc, hrun⟩
  · rw [hnone]
    refine ⟨List.nil_prefix, fun hr ↦ ?_⟩
    rcases hp with hp | hp <;> rw [hp] at hr <;> cases hr
  · obtain ⟨hfirst, hall⟩ := accepted_of_run hrun
    exact ⟨hfirst, fun hr ↦ hall (returned_of_ofScan (hsc.symm.trans hr))⟩

end

/-! ### The listing -/

section
variable {st : Store} {dir : Directory} {request : ReplayProtocol} {path : CString}
  {cs : List Call} {namelist : List Dirent}

/-- The path of a record is its name in its directory. -/
private theorem path_eq (c : Call) : c.path = c.dir ++ '/' :: callName c := rfl

/-- The files of the directory are the records of these calls. -/
private def Records (st : Store) (path : CString) (cs : List Call) : Prop :=
  ∀ name, '/' ∉ name →
    ((st.files (path ++ '/' :: name)).isSome ↔ ∃ c ∈ cs, c.dir = path ∧ callName c = name)

/-- The listing has the names of the wanted records. -/
private theorem mem_listing (hlist : scandir dir request = some namelist)
    (hshows : dir.Shows st path) (hrecords : Records st path cs)
    (hse : request.StartTime ≤ request.EndTime) (hend : request.EndTime.toNat < 2147483648)
    (name : CString) : name ∈ namelist.map Dirent.d_name ↔
      name ∈ (cs.filter (fun c ↦ Wanted request path c)).map callName := by
  rw [lists_of_scandir hlist hshows.files name, List.mem_map]
  constructor
  · rintro ⟨hslash, hfile, hsel⟩
    obtain ⟨c, hc, hdir, rfl⟩ := (hrecords name hslash).mp hfile
    refine ⟨c, List.mem_filter.mpr ⟨hc, decide_eq_true ⟨hdir, ?_⟩⟩, rfl⟩
    exact (selects_recordName hse hend).mp hsel
  · rintro ⟨c, hc, rfl⟩
    obtain ⟨hc, hwanted⟩ := List.mem_filter.mp hc
    obtain ⟨hdir, hwindow⟩ := of_decide_eq_true hwanted
    have hslash : '/' ∉ callName c := slash_notMem_recordName _ _
    exact ⟨hslash, (hrecords _ hslash).mpr ⟨c, hc, hdir, rfl⟩,
      (selects_recordName hse hend).mpr hwindow⟩

/-- The listing has each name once. -/
private theorem nodup_listing (hlist : scandir dir request = some namelist)
    (hshows : dir.Shows st path) : (namelist.map Dirent.d_name).Nodup := by
  rw [scandir_eq_some hlist, ((List.mergeSort_perm _ _).map Dirent.d_name).nodup_iff]
  exact hshows.once.sublist (List.filter_sublist.map Dirent.d_name)

/-- A listing of increasing names is in their order. -/
private theorem listing_eq (hlist : scandir dir request = some namelist)
    (hshows : dir.Shows st path) {names : List CString} (hnul : ∀ name ∈ names, nul ∉ name)
    (hincrease : names.Pairwise (fun a b ↦ strcmp a b < 0))
    (hmem : ∀ name, name ∈ namelist.map Dirent.d_name ↔ name ∈ names) :
    namelist.map Dirent.d_name = names := by
  have hsorted := scandir_eq_some hlist
  have hperm : (namelist.map Dirent.d_name).Perm
      ((dir.entries.filter (Dirent.selected request)).map Dirent.d_name) := by
    rw [hsorted]
    exact (List.mergeSort_perm _ _).map Dirent.d_name
  have horder := (listedInOrder_iff hnul).mpr hincrease
    (dir.entries.filter (Dirent.selected request))
    (hperm.nodup_iff.mp (nodup_listing hlist hshows))
    (fun name ↦ hperm.mem_iff.symm.trans (hmem name))
  rw [hsorted]
  exact horder

end

/-! ### The records of a run -/

section
variable [DecidableEq ι] {S₀ S : Sys ι Store Recorder} {τ : List (ι × Record.Event)}
  {path : CString}

/-- What is opened is the paths of the calls. -/
private theorem openedPaths_eq (h₀ : ∀ p, (S₀.procs p).pc = .idle)
    (h : ((recorder env).interleave ι).Open S₀ τ S) :
    openedPaths τ = (allCalls τ).map Call.path := by
  rw [openedPaths, allCalls, List.map_filterMap]
  apply List.filterMap_congr
  rintro ⟨p, e⟩ hm
  cases e with
  | fopen c path =>
    have hnamed := named_of_open (h₀ p) (h.project p)
    simp [Record.Event.openedPath, Record.Event.call,
      hnamed.opens c path (Machine.mem_eventsOf.mpr hm)]
  | _ => rfl

/-- After a run in which no path is opened twice, the record of a call holds its bytes. -/
private theorem files_path (h₀ : ∀ p, (S₀.procs p).pc = .idle)
    (h : ((recorder env).interleave ι).Open S₀ τ S) (hidle : ∀ p, (S.procs p).pc = .idle)
    (hnodup : (openedPaths τ).Nodup) {c : Call} (hc : c ∈ allCalls τ) :
    S.world.files c.path = some (bytesOf τ c) := by
  have hholds := holds_of_run h₀ h hnodup
  obtain ⟨⟨p, e⟩, hm, he⟩ := List.mem_filterMap.mp hc
  obtain ⟨path, rfl⟩ : ∃ path, e = .fopen c path := by
    cases e with
    | fopen c' path => exact ⟨path, by simpa [Record.Event.call] using he⟩
    | _ => simp [Record.Event.call] at he
  obtain rfl : path = c.path :=
    (named_of_open (h₀ p) (h.project p)).opens c path (Machine.mem_eventsOf.mpr hm)
  obtain ⟨bytes, hw⟩ := (hholds.pending p c _ hm).resolve_left (by simp [Opening, hidle p])
  have hmessage : (c.path, bytes) ∈ messages τ := mem_messages.mpr ⟨p, hw⟩
  cases hlookup : (messages τ).lookup c.path with
  | none =>
    rw [List.lookup_eq_none_iff] at hlookup
    simpa using hlookup _ hmessage
  | some bytes' =>
    obtain ⟨before, after, heq, -⟩ := List.lookup_eq_some_iff.mp hlookup
    have hfirst : (c.path, bytes') ∈ messages τ := by simp [heq]
    obtain ⟨q, hq⟩ := mem_messages.mp hfirst
    rw [bytesOf, hlookup]
    exact hholds.written q _ _ hq

/-- The files of a directory that was empty are the records that the run has put there. -/
private theorem records_of_run (h₀ : ∀ p, (S₀.procs p).pc = .idle)
    (h : ((recorder env).interleave ι).Open S₀ τ S) (hidle : ∀ p, (S.procs p).pc = .idle)
    (hnodup : (openedPaths τ).Nodup)
    (hempty : ∀ name, S₀.world.files (path ++ '/' :: name) = none) :
    Records S.world path (allCalls τ) := by
  intro name hslash
  constructor
  · intro hfile
    have hopened : path ++ '/' :: name ∈ openedPaths τ := by
      by_contra hnot
      rw [(holds_of_run h₀ h hnodup).untouched _ hnot, hempty] at hfile
      cases hfile
    rw [openedPaths_eq h₀ h] at hopened
    obtain ⟨c, hc, hpath⟩ := List.mem_map.mp hopened
    obtain ⟨hdir, hname⟩ := split_last (slash_notMem_recordName _ _) hslash
      ((path_eq c).symm.trans hpath)
    exact ⟨c, hc, hdir, hname⟩
  · rintro ⟨c, hc, rfl, rfl⟩
    rw [← path_eq, files_path h₀ h hidle hnodup hc]
    rfl

/-- What the listed files hold is what was written to the records of the calls. -/
private theorem content_of_run (h₀ : ∀ p, (S₀.procs p).pc = .idle)
    (h : ((recorder env).interleave ι).Open S₀ τ S) (hidle : ∀ p, (S.procs p).pc = .idle)
    (hnodup : (openedPaths τ).Nodup) {cs : List Call}
    (hcs : ∀ c ∈ cs, c ∈ allCalls τ ∧ c.dir = path) :
    (cs.map callName).map (contentIn S.world path) = cs.map (bytesOf τ) := by
  rw [List.map_map]
  apply List.map_congr_left
  intro c hc
  obtain ⟨hc, rfl⟩ := hcs c hc
  rw [Function.comp_apply, contentIn, ← path_eq, files_path h₀ h hidle hnodup hc]
  rfl

end

/-! ### Two messages of one second -/

/-- A directory for every day. -/
def oneDay : Env := ⟨['d'], fun _ ↦ ['1']⟩

/-- The second is asked for, at five times the speed. -/
def thatSecond : ReplayProtocol := ⟨0x88888888, PLAYBACK_START, 1000000000, 1000000000, 5⟩

def sixth : Call := ⟨oneDay.dayDir 0, true, 5, 1000000000⟩

def seventh : Call := ⟨oneDay.dayDir 0, true, 6, 1000000000⟩

/-- The directory as `readdir` may give it. -/
def twoRecords : Directory where
  entries := [⟨DT_DIR, ['.']⟩, ⟨8, callName sixth⟩, ⟨8, callName seventh⟩]

private theorem twoRecords_shows {st : Store}
    (h : Records st (oneDay.dayDir 0) [sixth, seventh]) :
    twoRecords.Shows st (oneDay.dayDir 0) := by
  refine ⟨by decide +kernel, fun name ↦ ?_⟩
  constructor
  · rintro ⟨ent, hm, htype, rfl⟩
    have hm : ent = ⟨DT_DIR, ['.']⟩ ∨ ent = ⟨8, callName sixth⟩ ∨ ent = ⟨8, callName seventh⟩ := by
      simpa [twoRecords] using hm
    rcases hm with rfl | rfl | rfl
    · exact absurd rfl htype
    · exact ⟨slash_notMem_recordName _ _, (h _ (slash_notMem_recordName _ _)).mpr
        ⟨sixth, by simp, rfl, rfl⟩⟩
    · exact ⟨slash_notMem_recordName _ _, (h _ (slash_notMem_recordName _ _)).mpr
        ⟨seventh, by simp, rfl, rfl⟩⟩
  · rintro ⟨hslash, hfile⟩
    obtain ⟨c, hc, -, rfl⟩ := (h name hslash).mp hfile
    have hc : c = sixth ∨ c = seventh := by simpa using hc
    rcases hc with rfl | rfl
    · exact ⟨⟨8, callName sixth⟩, by simp [twoRecords], by simp [DT_DIR], rfl⟩
    · exact ⟨⟨8, callName seventh⟩, by simp [twoRecords], by simp [DT_DIR], rfl⟩

private theorem scandir_twoRecords :
    scandir twoRecords thatSecond = some [⟨8, callName sixth⟩, ⟨8, callName seventh⟩] := by
  have hloop : scandirLoop twoRecords (Dirent.selected thatSecond) twoRecords.entries [] 0 =
      some [⟨8, callName sixth⟩, ⟨8, callName seventh⟩] := by decide +kernel
  have hopens : twoRecords.opens = true := rfl
  rw [scandir, scandirTail, if_pos hopens, hloop, Option.map_some,
    List.mergeSort_of_pairwise (by decide +kernel)]

/-- A replay of the two records to its end. -/
private theorem replay_twoRecords {st : Store}
    (h6 : contentIn st (oneDay.dayDir 0) (callName sixth) = [0xEB])
    (h7 : contentIn st (oneDay.dayDir 0) (callName seventh) = [0xEB, 1]) :
    ∃ σ s, (myscandirServe oneDay [] 3).RunIn (FromStore st twoRecords 0)
        (Session.serving 1 thatSecond) σ s ∧
      s.pc = .returned ∧ ScanEvent.access false ∉ scans σ := by
  let names := [callName sixth, callName seventh]
  let table (name : CString) : List UInt8 := if name = callName sixth then [0xEB] else [0xEB, 1]
  let ok (_ : Shm) (s : Session) (a : SessionInput) : Bool :=
    match s.pc with
    | .serve => a.now = 0
    | .scan sc =>
      let name := sc.namelist.getD sc.i []
      s.request = thatSecond && s.dir = oneDay.dayDir 0 &&
        (sc.pc ≠ .scandir || a.scan.listing = some names) && (sc.pc ≠ .body ||
          (decide (name ∈ names) && a.scan.stalePath = name && a.scan.staleTime = name &&
            a.scan.content = some (table name) && a.scan.send = .sent (table name).length))
    | _ => true
  have hok (w : Shm) (s : Session) (a : SessionInput) (h : ok w s a = true) :
      FromStore st twoRecords 0 w s a := by
    simp only [ok] at h
    simp only [FromStore]
    split at h
    · next hp => simpa [hp] using h
    · next sc hp =>
      simp only [Bool.and_eq_true, Bool.or_eq_true, decide_eq_true_eq, ne_eq] at h
      obtain ⟨⟨⟨hreq, hdir⟩, hlisting⟩, hbody⟩ := h
      simp only [hreq, hdir, scandir_twoRecords, Option.getD_some]
      refine ⟨fun hpc ↦ hlisting.resolve_left (not_not.mpr hpc), fun hpc ↦ ?_⟩
      obtain ⟨⟨⟨⟨hname, hpath⟩, htime⟩, hcontent⟩, hsend⟩ := hbody.resolve_left (not_not.mpr hpc)
      have htable : contentIn st (oneDay.dayDir 0) (sc.namelist.getD sc.i []) =
          table (sc.namelist.getD sc.i []) := by
        have hname : sc.namelist.getD sc.i [] = callName sixth ∨
            sc.namelist.getD sc.i [] = callName seventh := by simpa [names] using hname
        rcases hname with hname | hname
        · rw [hname, h6]
          decide +kernel
        · rw [hname, h7]
          decide +kernel
      simp only [htable]
      exact ⟨hpath, htime, hcontent, .inl hsend⟩
    · next hserve hscan => cases hp : s.pc <;> simp_all
  let lock : Shm := {shmFile []}
  let reading (name : CString) : SessionInput :=
    { scan := { now := 1, content := some (table name), stalePath := name, staleTime := name,
                send := .sent (table name).length } }
  exact (myscandirServe oneDay [] 3).exec_observe ok (Session.serving 1 thatSecond)
    [(lock, {}), (lock, { scan := { listing := some names } }), (lock, {}),
      (lock, reading (callName sixth)), (lock, {}), (lock, reading (callName seventh)), (lock, {})]
    (fun s σ ↦ s.pc = .returned ∧ ScanEvent.access false ∉ scans σ) hok (by decide +kernel)

/-- The two messages were recorded and nothing else: they can be replayed. -/
private theorem exists_replay [DecidableEq ι] {S₀ S : Sys ι Store Recorder}
    {τ : List (ι × Record.Event)} (h₀ : ∀ p, (S₀.procs p).pc = .idle)
    (h : ((recorder oneDay).interleave ι).Open S₀ τ S) (hidle : ∀ p, (S.procs p).pc = .idle)
    (hnodup : (openedPaths τ).Nodup) (hempty : ∀ path, S₀.world.files path = none)
    (hcalls : allCalls τ = [sixth, seventh])
    (hbytes : [sixth, seventh].map (bytesOf τ) = [[0xEB], [0xEB, 1]]) :
    twoRecords.Shows S.world (oneDay.dayDir 0) ∧
      ∃ σ s, (myscandirServe oneDay [] 3).RunIn (FromStore S.world twoRecords 0)
          (Session.serving 1 thatSecond) σ s ∧
        s.pc = .returned ∧ ScanEvent.access false ∉ scans σ := by
  have hrecords := records_of_run h₀ h hidle hnodup
    (fun name ↦ hempty (oneDay.dayDir 0 ++ '/' :: name))
  rw [hcalls] at hrecords
  have hcs : ∀ c ∈ [sixth, seventh], c ∈ allCalls τ ∧ c.dir = oneDay.dayDir 0 := by
    simp [hcalls, sixth, seventh]
  have hcontent := content_of_run h₀ h hidle hnodup hcs
  rw [hbytes] at hcontent
  simp only [List.map_cons, List.map_nil, List.cons.injEq, and_true] at hcontent
  exact ⟨twoRecords_shows hrecords, replay_twoRecords hcontent.1 hcontent.2⟩

private theorem filter_twoRecords :
    [sixth, seventh].filter (fun c ↦ Wanted thatSecond (oneDay.dayDir 0) c) = [sixth, seventh] := by
  decide +kernel

/-! ### Round trip -/

section
variable {request : ReplayProtocol} {dir : Directory} {namelist : List Dirent} {now index : Nat}
  {address : CString} {acceptfd : Int} {σ : List PlaybackEvent} {s : Session}

/-- For every interleaving of any number of processes that have finished recording, with no path
opened twice and a directory of the day that was empty before: a replay on that day of a window
that ends before 2038, undamaged (`FromStore`) and whatever the clock and the lock file are, has
sent the messages of some of the records in the window, none of them twice; and all of them, when
it has returned success and the lock file was always there. -/
theorem replay_sends_each_once [DecidableEq ι] {S₀ S : Sys ι Store Recorder}
    {τ : List (ι × Record.Event)} (h₀ : ∀ p, (S₀.procs p).pc = .idle)
    (h : ((recorder env).interleave ι).Open S₀ τ S) (hidle : ∀ p, (S.procs p).pc = .idle)
    (hnodup : (openedPaths τ).Nodup)
    (hempty : ∀ name, S₀.world.files (env.dayDir now ++ '/' :: name) = none)
    (hse : request.StartTime ≤ request.EndTime) (hend : request.EndTime.toNat < 2147483648)
    (hshows : dir.Shows S.world (env.dayDir now)) (hlist : scandir dir request = some namelist)
    (hreplay : (myscandirServe env address acceptfd).RunIn (FromStore S.world dir now)
      (Session.serving index request) σ s) :
    let wanted := ((allCalls τ).filter (fun c ↦ Wanted request (env.dayDir now) c)).map (bytesOf τ)
    (accepted (sends (scans σ))).Subperm wanted ∧
      (s.pc = .returned → ScanEvent.access false ∉ scans σ →
        (accepted (sends (scans σ))).Perm wanted) := by
  intro wanted
  have hrecords := records_of_run h₀ h hidle hnodup hempty
  have hcs : ∀ c ∈ (allCalls τ).filter (fun c ↦ Wanted request (env.dayDir now) c),
      c ∈ allCalls τ ∧ c.dir = env.dayDir now := by
    intro c hc
    obtain ⟨hc, hwanted⟩ := List.mem_filter.mp hc
    exact ⟨hc, (of_decide_eq_true hwanted).1⟩
  have hpaths : (((allCalls τ).filter (fun c ↦ Wanted request (env.dayDir now) c)).map
      callName).Nodup := by
    apply List.Nodup.of_map (fun name ↦ env.dayDir now ++ '/' :: name)
    rw [openedPaths_eq h₀ h] at hnodup
    have hsub := hnodup.sublist ((List.filter_sublist (l := allCalls τ)
      (p := fun c ↦ Wanted request (env.dayDir now) c)).map Call.path)
    rw [List.map_map]
    convert hsub using 1
    apply List.map_congr_left
    intro c hc
    rw [path_eq, (hcs c hc).2]
    rfl
  have hperm : (namelist.map Dirent.d_name).Perm
      (((allCalls τ).filter (fun c ↦ Wanted request (env.dayDir now) c)).map callName) :=
    (List.perm_ext_iff_of_nodup (nodup_listing hlist hshows) hpaths).mpr
      (mem_listing hlist hshows hrecords hse hend)
  have hsent := hperm.map (contentIn S.world (env.dayDir now))
  rw [content_of_run h₀ h hidle hnodup hcs] at hsent
  obtain ⟨hfirst, hall⟩ := sent_of_run hreplay
  rw [hlist, Option.getD_some] at hfirst hall
  refine ⟨hfirst.sublist.subperm.trans hsent.subperm, fun hr ha ↦ ?_⟩
  rw [hall hr ha]
  exact hsent

/-- Two processes record a message each in the same second. -/
theorem replay_sends_each_once_two_processes :
    ∃ (τ : List (Bool × Record.Event)) (S : Sys Bool Store Recorder) (σ : List PlaybackEvent)
      (s : Session), ((recorder oneDay).interleave Bool).Open
        ⟨fun p ↦ ⟨if p then 6 else 5, .idle⟩, ⟨{oneDay.dayDir 0}, fun _ ↦ none⟩⟩ τ S ∧
      (myscandirServe oneDay [] 3).RunIn (FromStore S.world twoRecords 0)
        (Session.serving 1 thatSecond) σ s ∧
      (accepted (sends (scans σ))).Perm [[0xEB], [0xEB, 1]] := by
  let steps (p : Bool) (bytes : List UInt8) : List (Unit × Bool × Record.Input) :=
    List.replicate 7 ((), p, { now := 1000000000, bytes := bytes })
  obtain ⟨τ, S, hrun, hfalse, htrue, hcalls, hbytes, hnodup⟩ :=
    Machine.exec_observe ((recorder oneDay).interleave Bool) (fun _ _ _ ↦ true)
      ⟨fun p ↦ ⟨if p then 6 else 5, .idle⟩, ⟨{oneDay.dayDir 0}, fun _ ↦ none⟩⟩
      (steps false [0xEB] ++ steps true [0xEB, 1])
      (fun S τ ↦ (S.procs false).pc = .idle ∧ (S.procs true).pc = .idle ∧
        allCalls τ = [sixth, seventh] ∧ [sixth, seventh].map (bytesOf τ) = [[0xEB], [0xEB, 1]] ∧
        (openedPaths τ).Nodup)
      (fun _ _ _ _ ↦ trivial) (by decide +kernel)
  have hidle : ∀ p, (S.procs p).pc = .idle := by
    intro p
    cases p with
    | false => exact hfalse
    | true => exact htrue
  obtain ⟨hshows, σ, s, hreplay, hreturned, hlock⟩ :=
    exists_replay (fun _ ↦ rfl) hrun hidle hnodup (fun _ ↦ rfl) hcalls hbytes
  refine ⟨τ, S, σ, s, hrun, hreplay, ?_⟩
  have hsent := (replay_sends_each_once (fun _ ↦ rfl) hrun hidle hnodup (fun _ ↦ rfl) (by decide)
    (by decide) hshows scandir_twoRecords hreplay).2 hreturned hlock
  rwa [hcalls, filter_twoRecords, hbytes] at hsent

/-- One process alone that records messages on one day, with a directory of the day that was empty
before, a clock that never goes back and has ten digits, and a counter that does not start again
within a second: an undamaged replay on that day of a window that ends before 2038 sends the
messages of the window in the order in which they were received, and all of them when it returns
success and the lock file was always there. -/
theorem replay_in_order_of_reception {x₀ x : Recorder × Store} {ρ : List Record.Event}
    (h₀ : x₀.1.pc = .idle) (h : (recorder env).closed.Open x₀ ρ x) (hidle : x.1.pc = .idle)
    (hok : Record.Event.returned none ∉ ρ)
    (hclock : (ρ.filterMap Record.Event.reading).Pairwise (· ≤ ·))
    (hrange : ∀ now ∈ ρ.filterMap Record.Event.reading, 1000000000 ≤ now ∧ now < 2147483648)
    (hday : ∀ date, Record.Event.readDate date ∈ ρ → env.localDate date = env.localDate now)
    (hwrap : (calls ρ).IsChain (fun c d ↦ c.timestamp = d.timestamp → d.uuid < 999))
    (hempty : ∀ name, x₀.2.files (env.dayDir now ++ '/' :: name) = none)
    (hse : request.StartTime ≤ request.EndTime) (hend : request.EndTime.toNat < 2147483648)
    (hshows : dir.Shows x.2 (env.dayDir now)) (hlist : scandir dir request = some namelist)
    (hreplay : (myscandirServe env address acceptfd).RunIn (FromStore x.2 dir now)
      (Session.serving index request) σ s) :
    let wanted := ((calls ρ).filter (fun c ↦ Wanted request (env.dayDir now) c)).map
      (bytesOf (ρ.map (fun e ↦ ((), e))))
    accepted (sends (scans σ)) <+: wanted ∧
      (s.pc = .returned → ScanEvent.access false ∉ scans σ →
        accepted (sends (scans σ)) = wanted) := by
  intro wanted
  have hrun := h.interleave_of_closed
  have hcalls : allCalls (ρ.map (fun e ↦ ((), e))) = calls ρ := List.filterMap_map
  have hdir : ∀ c ∈ calls ρ, c.dir = env.dayDir now := by
    intro c hc
    obtain ⟨date, -, hdate, -, hc, -⟩ :=
      readings_of_call (opensRead_of_open h₀ h.open_of_closed) hc
    rw [hc, Env.dayDir, Env.dayDir, hday date hdate]
  have hincrease := callNames_increase h₀ h hok hclock hrange
    (fun c hc d hd ↦ (hdir d hd).trans (hdir c hc).symm) hwrap
  have hnodup : (openedPaths (ρ.map (fun e ↦ ((), e)))).Nodup := by
    rw [openedPaths_eq (fun _ ↦ h₀) hrun, hcalls]
    refine List.pairwise_map.mpr (hincrease.imp_of_mem ?_)
    intro c d hc hd hlt heq
    rw [path_eq, path_eq, hdir c hc, hdir d hd] at heq
    have hsame : callName c = callName d := by simpa using heq
    have hswap := strcmp_swap (callName c) (callName c)
    rw [← hsame] at hlt
    omega
  have hrecords := records_of_run (fun _ ↦ h₀) hrun (fun _ ↦ hidle) hnodup hempty
  rw [hcalls] at hrecords
  have hnames : namelist.map Dirent.d_name =
      ((calls ρ).filter (fun c ↦ Wanted request (env.dayDir now) c)).map callName := by
    refine listing_eq hlist hshows ?_ ?_ (mem_listing hlist hshows hrecords hse hend)
    · intro name hname
      obtain ⟨c, -, rfl⟩ := List.mem_map.mp hname
      exact nul_notMem_recordName _ _
    · exact List.pairwise_map.mpr (hincrease.sublist List.filter_sublist)
  have hcs : ∀ c ∈ (calls ρ).filter (fun c ↦ Wanted request (env.dayDir now) c),
      c ∈ allCalls (ρ.map (fun e ↦ ((), e))) ∧ c.dir = env.dayDir now := by
    intro c hc
    have hc := (List.mem_filter.mp hc).1
    rw [hcalls]
    exact ⟨hc, hdir c hc⟩
  have hcontent := content_of_run (fun _ ↦ h₀) hrun (fun _ ↦ hidle) hnodup hcs
  obtain ⟨hfirst, hall⟩ := sent_of_run hreplay
  rw [hlist, Option.getD_some, hnames, hcontent] at hfirst hall
  exact ⟨hfirst, hall⟩

/-- One process records two messages in the same second. -/
theorem replay_in_order_two_messages :
    ∃ (ρ : List Record.Event) (x : Recorder × Store) (σ : List PlaybackEvent) (s : Session),
      (recorder oneDay).closed.Open (⟨5, .idle⟩, ⟨{oneDay.dayDir 0}, fun _ ↦ none⟩) ρ x ∧
      (myscandirServe oneDay [] 3).RunIn (FromStore x.2 twoRecords 0)
        (Session.serving 1 thatSecond) σ s ∧
      accepted (sends (scans σ)) = [[0xEB], [0xEB, 1]] := by
  let steps (bytes : List UInt8) : List (Unit × Record.Input) :=
    List.replicate 7 ((), { now := 1000000000, bytes := bytes })
  obtain ⟨ρ, x, hrun, hidle, hok, hclock, hcalls, hbytes, hnodup⟩ :=
    Machine.exec_observe (recorder oneDay).closed (fun _ _ _ ↦ true)
      (⟨5, .idle⟩, ⟨{oneDay.dayDir 0}, fun _ ↦ none⟩) (steps [0xEB] ++ steps [0xEB, 1])
      (fun x ρ ↦ x.1.pc = .idle ∧ Record.Event.returned none ∉ ρ ∧
        ρ.filterMap Record.Event.reading = List.replicate 4 1000000000 ∧
        calls ρ = [sixth, seventh] ∧
        [sixth, seventh].map (bytesOf (ρ.map (fun e ↦ ((), e)))) = [[0xEB], [0xEB, 1]] ∧
        (openedPaths (ρ.map (fun e ↦ ((), e)))).Nodup)
      (fun _ _ _ _ ↦ trivial) (by decide +kernel)
  obtain ⟨hshows, σ, s, hreplay, hreturned, hlock⟩ :=
    exists_replay (fun _ ↦ rfl) hrun.interleave_of_closed (fun _ ↦ hidle) hnodup (fun _ ↦ rfl)
      (List.filterMap_map.trans hcalls) hbytes
  refine ⟨ρ, x, σ, s, hrun, hreplay, ?_⟩
  have hsent := (replay_in_order_of_reception rfl hrun hidle hok (by rw [hclock]; decide)
    (by rw [hclock]; decide) (fun _ _ ↦ rfl) (by rw [hcalls]; decide) (fun _ ↦ rfl) (by decide)
    (by decide) hshows scandir_twoRecords hreplay).2 hreturned hlock
  rwa [hcalls, filter_twoRecords, hbytes] at hsent

end
end DupDistribute.Playback

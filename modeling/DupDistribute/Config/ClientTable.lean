import DupDistribute.Config.Settings
import DupDistribute.Distribute.Client
import DupDistribute.Log.Call

/-!
# The client table

`parseFile_distributeTcpInfo`, `util.c:315-378`: the number of clients comes from the setting
`client-num`, entry 0 of the table from `distribute-address` and `distribute-port`, entry `i` from
`client<i>-address` and `client<i>-port`. No lookup and no allocation is checked and the names of
the keys are built in small buffers. On its way the function calls `LogWrite`, which reads the
same file for the settings of the log. The model stops at the first step that has no meaning in
C; a table that it returns was built without one.
-/

namespace DupDistribute.Config

open DupDistribute.Base DupDistribute.Distribute
open DupDistribute.Log (Surroundings LogSet LogCall LogStop LogKeys logOnce logOnce_returns_iff)

/-! ### The code -/

/-- The heap: the largest block that `malloc` gives, which is enough for a table of 10000 entries,
and what is behind the array of settings. -/
structure Heap where
  available : Nat
  behind : List Char
  enough : 2720000 ≤ available

/-- `client-num`. -/
def clientNumKey : CString := ['c', 'l', 'i', 'e', 'n', 't', '-', 'n', 'u', 'm']

/-- `distribute-address`. -/
def distributeAddressKey : CString :=
  ['d', 'i', 's', 't', 'r', 'i', 'b', 'u', 't', 'e', '-', 'a', 'd', 'd', 'r', 'e', 's', 's']

/-- `distribute-port`. -/
def distributePortKey : CString :=
  ['d', 'i', 's', 't', 'r', 'i', 'b', 'u', 't', 'e', '-', 'p', 'o', 'r', 't']

/-- A string in a buffer of the given size, with its terminator. -/
def intoBuffer (buffer : Buffer) (size : Nat) (s : CString) : Except Stop CString :=
  if s.length < size then .ok s else .error (.overrun buffer)

/-- The result of a lookup is used as a string. -/
def useInfo (find : CString → Option CString) (key : CString) : Except Stop CString :=
  match find key with
  | none => .error (.nullLookup key)
  | some val => .ok val

/-- The bytes asked for: `clientNum + 1` is an `int` (it is taken to wrap around), the product a
`size_t`; an entry has 272 bytes. -/
def tableSize (clientNum : Int32) : Nat :=
  (272 * (clientNum + 1).toInt % 18446744073709551616).toNat

/-- An entry as `memset` leaves it. -/
def zeroed : TcpInfo := {}

/-- `malloc` and `memset` of the table, `util.c:334-336`. -/
def newTable (heap : Heap) (clientNum : Int32) : Except Stop (List TcpInfo) :=
  if heap.available < tableSize clientNum then .error .nullTable
  else .ok (List.replicate (clientNum + 1).toInt.toNat zeroed)

/-- Assignment to an entry. -/
def storeEntry (table : List TcpInfo) (index : Nat) (entry : TcpInfo) :
    Except Stop (List TcpInfo) :=
  if index < table.length then .ok (table.set index entry) else .error (.outsideTable index)

/-- The address and the port of an entry, copied to `address[INFO_LENGTH]` and read by `atoi`. -/
def readEntry (find : CString → Option CString) (addressName portName : CString) :
    Except Stop TcpInfo := do
  let address ← useInfo find addressName
  let address ← intoBuffer .address 128 address
  let port ← useInfo find portName
  return { address := address, port := (atoi port).toInt }

/-- The loop body up to the store, `util.c:352-369`. -/
def readClient (find : CString → Option CString) (i : Nat) : Except Stop TcpInfo := do
  let charValue ← intoBuffer .charValue 5 (printD 0 (Int32.ofInt i))
  let baseName ← intoBuffer .baseName 20 (['c', 'l', 'i', 'e', 'n', 't'] ++ charValue)
  let baseAddressName ← intoBuffer .baseAddressName 20
    (baseName ++ ['-', 'a', 'd', 'd', 'r', 'e', 's', 's'])
  let basePortName ← intoBuffer .basePortName 20 (baseName ++ ['-', 'p', 'o', 'r', 't'])
  readEntry find baseAddressName basePortName

/-- Why the function does not return: a step of its own, or a call of `LogWrite`. -/
inductive TableStop where
  | own (stop : Stop)
  | log (stop : LogStop)
  deriving DecidableEq, Repr

/-- A step of the function itself. -/
def own {α : Type} (x : Except Stop α) : Except TableStop α := x.mapError .own

/-- The log as the function finds it: `logsetting`, and for each of its calls of `LogWrite` what
is around when the call reads the settings and when it opens the file. -/
structure Logs where
  set : LogSet
  around : Nat → Surroundings × Surroundings

/-- What call number `k` of `LogWrite` finds. The file stays as it is while the function
runs. -/
def Logs.found (logs : Logs) (text : List Char) (k : Nat) : Surroundings × Surroundings :=
  ({ (logs.around k).1 with conf := .text text }, { (logs.around k).2 with conf := .text text })

/-- Call number `k` of `LogWrite`. -/
def Logs.write (logs : Logs) (text : List Char) (k : Nat) (set : LogSet) (call : LogCall) :
    Except TableStop LogSet :=
  (logOnce (logs.found text k) set call).mapError .log

/-- Several calls, from number `k` on. -/
def Logs.writeAll (logs : Logs) (text : List Char) :
    Nat → LogSet → List LogCall → Except TableStop LogSet
  | _, set, [] => .ok set
  | k, set, call :: calls => do
    let set ← logs.write text k set call
    logs.writeAll text (k + 1) set calls

/-- A message with a number: `util.c:332`, `util.c:346` and `util.c:348`. -/
def numberMessage (loglevel : UInt8) (line : Int32) (what : CString) (number : Int) : LogCall :=
  ⟨loglevel, "%d %s :%d".toList, [.int line, .string what, .int (Int32.ofInt number)]⟩

/-- The messages about entry 0, `util.c:344-349`. -/
def masterMessages (master : TcpInfo) : List LogCall :=
  [⟨2, "%d %s :%s".toList, [.int 344, .string "distribute address is".toList,
      .string master.address]⟩,
    numberMessage 2 346 "distribute port is".toList master.port,
    numberMessage 2 348 "distribute connected clients number are".toList master.clientNum]

/-- The messages about a client, `util.c:373-374`. -/
def clientMessages (i : Nat) (client : TcpInfo) : List LogCall :=
  let baseName := ['c', 'l', 'i', 'e', 'n', 't'] ++ printD 0 (Int32.ofInt i)
  [⟨2, "%d %s %s :%s".toList, [.int 373, .string baseName, .string "address is".toList,
      .string client.address]⟩,
    ⟨2, "%d %s %s :%d".toList, [.int 374, .string baseName, .string "port is".toList,
      .int (Int32.ofInt client.port)]⟩]

/-- The loop from `i` on, with so many clients left. -/
def readClients (logs : Logs) (text : List Char) (find : CString → Option CString) :
    Nat → Nat → LogSet → List TcpInfo → Except TableStop (List TcpInfo)
  | _, 0, _, table => .ok table
  | i, left + 1, set, table => do
    let client ← own (readClient find i)
    let table ← own (storeEntry table i client)
    let set ← logs.writeAll text (2 * i + 2) set (clientMessages i client)
    readClients logs text find (i + 1) left set table

/-- The rest of the function, once the settings can be looked up, `util.c:330-377`. -/
def readTable (heap : Heap) (logs : Logs) (text : List Char) (find : CString → Option CString) :
    Except TableStop (List TcpInfo) := do
  let num ← own (useInfo find clientNumKey)
  let clientNum := atoi num
  let set ← logs.write text 0 logs.set
    (numberMessage 1 332 "client number is".toList clientNum.toInt)
  let table ← own (newTable heap clientNum)
  let entry ← own (readEntry find distributeAddressKey distributePortKey)
  let master := { entry with clientNum := clientNum.toInt.toNat }
  let table ← own (storeEntry table 0 master)
  let set ← logs.writeAll text 1 set (masterMessages master)
  readClients logs text find 1 clientNum.toInt.toNat set table

/-- `parseFile_distributeTcpInfo` with the content of `engine.conf`; without the file the program
exits, `ConfigFile.c:28-31`. -/
def parseFileDistributeTcpInfo (heap : Heap) (logs : Logs) :
    Option (List Char) → Except TableStop (List TcpInfo)
  | none => .error (.own .exit)
  | some text => do
    let info ← own (parseFile heap.behind (loadFile text))
    readTable heap logs text (fun key ↦ getInfo key info (getLines text))

/-! ### What the table should hold -/

/-- The keys of the address and of the port of an entry. -/
def entryKeys (i : Nat) : CString × CString :=
  if i = 0 then (distributeAddressKey, distributePortKey)
  else
    let baseName := ['c', 'l', 'i', 'e', 'n', 't'] ++ printD 0 (Int32.ofInt i)
    (baseName ++ ['-', 'a', 'd', 'd', 'r', 'e', 's', 's'], baseName ++ ['-', 'p', 'o', 'r', 't'])

/-- Both settings of the log are there. -/
def LogSettings (find : CString → Option CString) : Prop :=
  (∃ path, find "log-path".toList = some path) ∧ ∃ level, find "log-level".toList = some level

/-- Both keys of an entry are set, and the address fits in its field. -/
def HasEntry (find : CString → Option CString) (i : Nat) : Prop :=
  (∃ address, find (entryKeys i).1 = some address ∧ address.length ≤ 127) ∧
    ∃ port, find (entryKeys i).2 = some port

/-- The settings name `n` clients and every entry is set. -/
structure Complete (find : CString → Option CString) (n : Nat) : Prop where
  num : ∃ val, find clientNumKey = some val ∧ (atoi val).toInt = n
  small : n ≤ 9999
  entries : ∀ i ≤ n, HasEntry find i

/-- The table has an entry for the server and for each client, and all its addresses and ports
come from keys that are set. -/
structure FromKeys (find : CString → Option CString) (table : List TcpInfo) : Prop where
  size : ∃ val, find clientNumKey = some val ∧ (table.length : Int) = (atoi val).toInt + 1 ∧
    ∀ master ∈ table.head?, (master.clientNum : Int) = (atoi val).toInt
  nonempty : 1 ≤ table.length
  entries : ∀ i entry, table[i]? = some entry →
    find (entryKeys i).1 = some entry.address ∧
      ∃ port, find (entryKeys i).2 = some port ∧ entry.port = (atoi port).toInt

/-- The configuration is used as a whole, or the program exits. -/
def UsedWhole (find : CString → Option CString)
    (result : Except TableStop (List TcpInfo)) : Prop :=
  (∃ table, result = .ok table ∧ FromKeys find table) ∨ result = .error (.own .exit)

private theorem nul_notMem_entryKeys (i : Nat) :
    nul ∉ (entryKeys i).1 ∧ nul ∉ (entryKeys i).2 := by
  have hdigits : nul ∉ printD 0 (Int32.ofInt i) := notMem_printD (by decide) (by decide)
  rw [entryKeys]
  split
  · decide
  · simp only [List.mem_append, hdigits]
    decide

private theorem Complete.congr {find find' : CString → Option CString} {n : Nat}
    (h : Complete find n) (hsame : ∀ key, nul ∉ key → find key = find' key) :
    Complete find' n := by
  obtain ⟨val, hval, hnum⟩ := h.num
  refine ⟨⟨val, by rw [← hsame _ (by decide), hval], hnum⟩, h.small, fun i hi ↦ ?_⟩
  obtain ⟨hnul, hnul'⟩ := nul_notMem_entryKeys i
  have hentry := h.entries i hi
  rwa [HasEntry, hsame _ hnul, hsame _ hnul'] at hentry

/-! ### One entry -/

private theorem intoBuffer_eq_ok {buffer : Buffer} {size : Nat} {s t : CString} :
    intoBuffer buffer size s = .ok t ↔ s.length < size ∧ t = s := by
  rw [intoBuffer]
  split
  · next h => simp [h, eq_comm]
  · next h => simp [h]

private theorem useInfo_eq_ok {find : CString → Option CString} {key val : CString} :
    useInfo find key = .ok val ↔ find key = some val := by
  rw [useInfo]
  split
  · next h => simp [h]
  · next h => simp [h]

private theorem storeEntry_eq_ok {table t : List TcpInfo} {index : Nat} {entry : TcpInfo} :
    storeEntry table index entry = .ok t ↔ index < table.length ∧ t = table.set index entry := by
  rw [storeEntry]
  split
  · next h => simp [h, eq_comm]
  · next h => simp [h]

/-- The entry that the settings give. -/
def entryOf (find : CString → Option CString) (i : Nat) : TcpInfo where
  address := (find (entryKeys i).1).getD []
  port := (atoi ((find (entryKeys i).2).getD [])).toInt

private theorem readEntry_eq_ok {find : CString → Option CString} {i : Nat} {entry : TcpInfo} :
    readEntry find (entryKeys i).1 (entryKeys i).2 = .ok entry ↔
      HasEntry find i ∧ entry = entryOf find i := by
  simp only [readEntry, bind_eq_ok, useInfo_eq_ok, intoBuffer_eq_ok, pure, Except.pure,
    Except.ok.injEq]
  constructor
  · rintro ⟨_, ha, address, ⟨hlen, rfl⟩, port, hp, rfl⟩
    exact ⟨⟨⟨address, ha, Nat.le_of_lt_succ hlen⟩, port, hp⟩, by simp [entryOf, ha, hp]⟩
  · rintro ⟨⟨⟨address, ha, hlen⟩, port, hp⟩, rfl⟩
    exact ⟨address, ha, address, ⟨Nat.lt_succ_of_le hlen, rfl⟩, port, hp, by
      simp [entryOf, ha, hp]⟩

/-- The number of a client has at most four digits exactly up to 9999. -/
private theorem length_charValue {i : Nat} (hi : i < 2147483648) :
    (printD 0 (Int32.ofInt i)).length < 5 ↔ i ≤ 9999 := by
  have hx : (Int32.ofInt i).toInt = i := Int32.toInt_ofInt_of_le (by omega) (by omega)
  rw [printD_of_nonneg (by omega), hx, Int.natAbs_natCast, Nat.lt_succ_iff,
    Nat.length_toDigits_le_iff (by decide) (by decide)]
  omega

/-- A client is read exactly if its number and its address fit and its keys are set. -/
private theorem readClient_eq_ok {find : CString → Option CString} {i : Nat} {entry : TcpInfo}
    (hpos : 1 ≤ i) (hi : i < 2147483648) :
    readClient find i = .ok entry ↔ i ≤ 9999 ∧ HasEntry find i ∧ entry = entryOf find i := by
  have hkeys : entryKeys i = (['c', 'l', 'i', 'e', 'n', 't'] ++ printD 0 (Int32.ofInt i) ++
      ['-', 'a', 'd', 'd', 'r', 'e', 's', 's'],
      ['c', 'l', 'i', 'e', 'n', 't'] ++ printD 0 (Int32.ofInt i) ++ ['-', 'p', 'o', 'r', 't']) := by
    rw [entryKeys, if_neg (by omega)]
  rw [← length_charValue hi, ← readEntry_eq_ok, hkeys]
  simp only [readClient, bind_eq_ok, intoBuffer_eq_ok]
  constructor
  · rintro ⟨_, ⟨hlen, rfl⟩, _, ⟨-, rfl⟩, _, ⟨-, rfl⟩, _, ⟨-, rfl⟩, h⟩
    exact ⟨hlen, h⟩
  · rintro ⟨hlen, h⟩
    refine ⟨_, ⟨hlen, rfl⟩, _, ⟨?_, rfl⟩, _, ⟨?_, rfl⟩, _, ⟨?_, rfl⟩, h⟩ <;>
      simp only [List.length_append, List.length_cons, List.length_nil] <;> omega

/-! ### The log -/

private theorem mapError_eq_ok {ε ε' α : Type} {f : ε → ε'} {x : Except ε α} {a : α} :
    x.mapError f = .ok a ↔ x = .ok a := by
  cases x <;> simp [Except.mapError]

private theorem own_eq_ok {α : Type} {x : Except Stop α} {a : α} : own x = .ok a ↔ x = .ok a :=
  mapError_eq_ok

/-- Every call of `LogWrite` finds the settings of the log. -/
def Logs.Configured (logs : Logs) (text : List Char) : Prop :=
  ∀ k, LogKeys (logs.around k).1 text

private theorem write_returns_iff (logs : Logs) (text : List Char) (k : Nat) (set : LogSet)
    {call : LogCall} (hcall : call.Sound) :
    (∃ set', logs.write text k set call = .ok set') ↔ LogKeys (logs.around k).1 text := by
  simp only [Logs.write, mapError_eq_ok]
  exact logOnce_returns_iff set rfl hcall

private theorem writeAll_returns {logs : Logs} {text : List Char} (hlogs : logs.Configured text)
    {calls : List LogCall} (hcalls : ∀ call ∈ calls, call.Sound) (k : Nat) (set : LogSet) :
    ∃ set', logs.writeAll text k set calls = .ok set' := by
  induction calls generalizing k set with
  | nil => exact ⟨set, rfl⟩
  | cons call calls ih =>
    obtain ⟨hcall, hcalls⟩ := List.forall_mem_cons.mp hcalls
    obtain ⟨set₁, h₁⟩ := (write_returns_iff logs text k set hcall).mpr (hlogs k)
    obtain ⟨set₂, h₂⟩ := ih hcalls (k + 1) set₁
    exact ⟨set₂, bind_eq_ok.mpr ⟨set₁, h₁, h₂⟩⟩

private theorem numberMessage_sound (line : Int32) (what : CString) (number : Int) :
    (numberMessage 1 line what number).Sound ∧ (numberMessage 2 line what number).Sound :=
  ⟨⟨⟨_, rfl⟩, _, rfl⟩, ⟨_, rfl⟩, _, rfl⟩

private theorem masterMessages_sound (master : TcpInfo) :
    ∀ call ∈ masterMessages master, call.Sound := by
  simp only [masterMessages, List.forall_mem_cons]
  exact ⟨⟨⟨_, rfl⟩, _, rfl⟩, (numberMessage_sound _ _ _).2, (numberMessage_sound _ _ _).2, by simp⟩

private theorem clientMessages_sound (i : Nat) (client : TcpInfo) :
    ∀ call ∈ clientMessages i client, call.Sound := by
  simp only [clientMessages, List.forall_mem_cons]
  exact ⟨⟨⟨_, rfl⟩, _, rfl⟩, ⟨⟨_, rfl⟩, _, rfl⟩, by simp⟩

/-! ### The loop -/

section
variable {logs : Logs} {text : List Char} {find : CString → Option CString}

/-- If the loop ends, every client was read and stored in its entry. -/
private theorem readClients_inv (done : List TcpInfo) {t : List TcpInfo} {left : Nat}
    {set : LogSet}
    (hpos : 1 ≤ done.length) (hsmall : done.length + left ≤ 2147483648)
    (h : readClients logs text find done.length left set
      (done ++ List.replicate left zeroed) = .ok t) :
    (∀ j, done.length ≤ j → j < done.length + left → j ≤ 9999 ∧ HasEntry find j) ∧
      t = done ++ (List.range' done.length left).map (entryOf find) := by
  induction left generalizing done set with
  | zero =>
    cases h
    exact ⟨fun j hlow hhigh ↦ absurd hlow (by omega), by simp⟩
  | succ left ih =>
    simp only [readClients, bind_eq_ok, own_eq_ok, storeEntry_eq_ok] at h
    obtain ⟨client, hclient, _, ⟨-, rfl⟩, set', -, hrest⟩ := h
    obtain ⟨hle, hhas, rfl⟩ := (readClient_eq_ok hpos (by omega)).mp hclient
    have hset : (done ++ List.replicate (left + 1) zeroed).set done.length
        (entryOf find done.length) =
          (done ++ [entryOf find done.length]) ++ List.replicate left zeroed := by
      simp [List.replicate_succ]
    have hlen : (done ++ [entryOf find done.length]).length = done.length + 1 := by simp
    rw [hset, ← hlen] at hrest
    obtain ⟨hall, rfl⟩ := ih _ (by omega) (by omega) hrest
    rw [hlen] at hall ⊢
    refine ⟨fun j hlow hhigh ↦ ?_, by simp [List.range'_succ]⟩
    by_cases hj : j = done.length
    · exact hj ▸ ⟨hle, hhas⟩
    · exact hall j (by omega) (by omega)

/-- The entries are filled one after the other. -/
private theorem readClients_complete (hlogs : logs.Configured text) (done : List TcpInfo)
    (left : Nat) (set : LogSet) (h : ∀ j, done.length ≤ j → j < done.length + left →
      readClient find j = .ok (entryOf find j)) :
    readClients logs text find done.length left set (done ++ List.replicate left zeroed) =
      .ok (done ++ (List.range' done.length left).map (entryOf find)) := by
  induction left generalizing done set with
  | zero => simp [readClients]
  | succ left ih =>
    have hstore : storeEntry (done ++ List.replicate (left + 1) zeroed) done.length
        (entryOf find done.length) =
          .ok ((done ++ [entryOf find done.length]) ++ List.replicate left zeroed) := by
      rw [storeEntry_eq_ok]
      simp [List.replicate_succ]
    obtain ⟨set', hset⟩ := writeAll_returns hlogs
      (clientMessages_sound done.length (entryOf find done.length)) (2 * done.length + 2) set
    have hnext := ih (done ++ [entryOf find done.length]) set' (by
      simp only [List.length_append, List.length_singleton]
      exact fun j hlow hhigh ↦ h j (by omega) (by omega))
    simp only [readClients, bind_eq_ok, own_eq_ok]
    refine ⟨_, h _ (Nat.le_refl _) (by omega), _, hstore, set', hset, ?_⟩
    simpa [List.range'_succ] using hnext

end

/-! ### The whole table -/

/-- The program does not exit any more once it has the file. -/
private theorem ne_error_bind {ε α β : Type} {e : ε} {x : Except ε α} {f : α → Except ε β}
    (hx : x ≠ .error e) (hf : ∀ a, f a ≠ .error e) : (x >>= f) ≠ .error e := by
  cases x with
  | error e' => exact fun h ↦ hx (congrArg Except.error (Except.error.inj h))
  | ok a => exact hf a

private theorem own_ne_exit {α : Type} {x : Except Stop α} (h : x ≠ .error .exit) :
    own x ≠ .error (.own .exit) := by
  cases x with
  | ok a => exact nofun
  | error stop => simpa [own, Except.mapError] using h

private theorem useInfo_ne_exit (find : CString → Option CString) (key : CString) :
    useInfo find key ≠ .error .exit := by
  rw [useInfo]
  split <;> simp

private theorem intoBuffer_ne_exit (buffer : Buffer) (size : Nat) (s : CString) :
    intoBuffer buffer size s ≠ .error .exit := by
  rw [intoBuffer]
  split <;> simp

private theorem storeEntry_ne_exit (table : List TcpInfo) (index : Nat) (entry : TcpInfo) :
    storeEntry table index entry ≠ .error .exit := by
  rw [storeEntry]
  split <;> simp

private theorem readEntry_ne_exit (find : CString → Option CString) (a p : CString) :
    readEntry find a p ≠ .error .exit :=
  ne_error_bind (useInfo_ne_exit _ _) fun _ ↦ ne_error_bind (intoBuffer_ne_exit _ _ _) fun _ ↦
    ne_error_bind (useInfo_ne_exit _ _) fun _ ↦ nofun

private theorem readClient_ne_exit (find : CString → Option CString) (i : Nat) :
    readClient find i ≠ .error .exit :=
  ne_error_bind (intoBuffer_ne_exit _ _ _) fun _ ↦ ne_error_bind (intoBuffer_ne_exit _ _ _)
    fun _ ↦ ne_error_bind (intoBuffer_ne_exit _ _ _) fun _ ↦
      ne_error_bind (intoBuffer_ne_exit _ _ _) fun _ ↦ readEntry_ne_exit _ _ _

private theorem write_ne_exit (logs : Logs) (text : List Char) (k : Nat) (set : LogSet)
    (call : LogCall) : logs.write text k set call ≠ .error (.own .exit) := by
  rw [Logs.write]
  cases logOnce (logs.found text k) set call <;> simp [Except.mapError]

private theorem writeAll_ne_exit (logs : Logs) (text : List Char) (k : Nat) (set : LogSet)
    (calls : List LogCall) : logs.writeAll text k set calls ≠ .error (.own .exit) := by
  induction calls generalizing k set with
  | nil => exact nofun
  | cons call calls ih => exact ne_error_bind (write_ne_exit _ _ _ _ _) fun _ ↦ ih _ _

private theorem readClients_ne_exit (logs : Logs) (text : List Char)
    (find : CString → Option CString) (i left : Nat) (set : LogSet) (table : List TcpInfo) :
    readClients logs text find i left set table ≠ .error (.own .exit) := by
  induction left generalizing i set table with
  | zero => exact nofun
  | succ left ih =>
    exact ne_error_bind (own_ne_exit (readClient_ne_exit _ _)) fun _ ↦
      ne_error_bind (own_ne_exit (storeEntry_ne_exit _ _ _)) fun _ ↦
        ne_error_bind (writeAll_ne_exit _ _ _ _ _) fun _ ↦ ih _ _ _

private theorem readTable_ne_exit (heap : Heap) (logs : Logs) (text : List Char)
    (find : CString → Option CString) : readTable heap logs text find ≠ .error (.own .exit) := by
  have hnew (clientNum : Int32) : newTable heap clientNum ≠ .error .exit := by
    rw [newTable]
    split <;> simp
  exact ne_error_bind (own_ne_exit (useInfo_ne_exit _ _)) fun _ ↦
    ne_error_bind (write_ne_exit _ _ _ _ _) fun _ ↦ ne_error_bind (own_ne_exit (hnew _)) fun _ ↦
      ne_error_bind (own_ne_exit (readEntry_ne_exit _ _ _)) fun _ ↦
        ne_error_bind (own_ne_exit (storeEntry_ne_exit _ _ _)) fun _ ↦
          ne_error_bind (writeAll_ne_exit _ _ _ _ _) fun _ ↦ readClients_ne_exit _ _ _ _ _ _ _

private theorem toInt_succ (x : Int32) : (x + 1).toInt =
    if x.toInt = 2147483647 then -2147483648 else x.toInt + 1 := by
  have hlt : x.toInt < 2147483648 := x.toInt_lt
  have hge : -2147483648 ≤ x.toInt := x.le_toInt
  have hone : (1 : Int32).toInt = 1 := by decide
  rw [Int32.toInt_add, hone]
  split
  · next h => rw [h]; rfl
  · exact Int.bmod_eq_of_le (by omega) (by omega)

/-- A table for up to 9999 clients is not too large. -/
private theorem tableSize_le {clientNum : Int32} {n : Nat}
    (h : (clientNum + 1).toInt = n + 1) (hn : n ≤ 9999) : tableSize clientNum ≤ 2720000 := by
  have hlt : 272 * ((n : Int) + 1) < 18446744073709551616 := by omega
  rw [tableSize, h, Int.emod_eq_of_lt (by omega) hlt, Int.toNat_le]
  omega

/-- The table that complete settings give. -/
def tableOf (find : CString → Option CString) (n : Nat) : List TcpInfo :=
  { entryOf find 0 with clientNum := n } :: (List.range' 1 n).map (entryOf find)

private theorem readTable_complete (heap : Heap) {logs : Logs} {text : List Char}
    {find : CString → Option CString} {n : Nat} (hlogs : logs.Configured text)
    (h : Complete find n) : readTable heap logs text find = .ok (tableOf find n) := by
  obtain ⟨val, hval, hnum⟩ := h.num
  have hsmall := h.small
  have hsucc : (atoi val + 1).toInt = n + 1 := by
    rw [toInt_succ, hnum, if_neg (by omega)]
  have hsize : ¬ heap.available < tableSize (atoi val) :=
    Nat.not_lt.mpr (Nat.le_trans (tableSize_le hsucc hsmall) heap.enough)
  have hnat : (atoi val).toInt.toNat = n := by omega
  have hnat' : (atoi val + 1).toInt.toNat = n + 1 := by omega
  obtain ⟨set₁, hset₁⟩ := (write_returns_iff logs text 0 logs.set
    (numberMessage_sound 332 "client number is".toList (atoi val).toInt).1).mpr (hlogs 0)
  obtain ⟨set₂, hset₂⟩ := writeAll_returns hlogs
    (masterMessages_sound { entryOf find 0 with clientNum := (atoi val).toInt.toNat }) 1 set₁
  simp only [readTable, bind_eq_ok, own_eq_ok, useInfo_eq_ok]
  refine ⟨val, hval, set₁, hset₁, List.replicate (n + 1) zeroed, ?_, entryOf find 0, ?_,
    { entryOf find 0 with clientNum := n } :: List.replicate n zeroed, ?_, set₂, hset₂, ?_⟩
  · rw [newTable, if_neg hsize, hnat']
  · exact readEntry_eq_ok.mpr ⟨h.entries 0 (Nat.zero_le _), rfl⟩
  · rw [storeEntry_eq_ok, hnat]
    simp [List.replicate_succ]
  · rw [hnat]
    refine readClients_complete hlogs [{ entryOf find 0 with clientNum := n }] n set₂ ?_
    intro j hlow hhigh
    simp only [List.length_singleton] at hlow hhigh
    exact (readClient_eq_ok hlow (by omega)).mpr ⟨by omega, h.entries j (by omega), rfl⟩

/-- If a table is produced, the settings are complete, the table is the one they give, and the
first call of `LogWrite` has found its settings. -/
private theorem readTable_inv {heap : Heap} {logs : Logs} {text : List Char}
    {find : CString → Option CString} {table : List TcpInfo}
    (h : readTable heap logs text find = .ok table) :
    LogKeys (logs.around 0).1 text ∧ ∃ n, Complete find n ∧ table = tableOf find n := by
  simp only [readTable, bind_eq_ok, own_eq_ok, useInfo_eq_ok, storeEntry_eq_ok] at h
  obtain ⟨val, hval, set₁, hset₁, table₀, hnew, entry, hentry, _, ⟨hlen, rfl⟩, set₂, -,
    hclients⟩ := h
  have hlog := (write_returns_iff logs text 0 logs.set (numberMessage_sound _ _ _).1).mp ⟨_, hset₁⟩
  have hlt : (atoi val).toInt < 2147483648 := (atoi val).toInt_lt
  obtain ⟨hzero, rfl⟩ := (readEntry_eq_ok (i := 0)).mp hentry
  -- an entry 0 means that the number is not negative, and that its successor does not wrap
  obtain ⟨hnum, rfl⟩ : 0 ≤ (atoi val).toInt ∧
      table₀ = List.replicate ((atoi val).toInt.toNat + 1) zeroed := by
    rw [newTable] at hnew
    split at hnew
    · cases hnew
    · cases hnew
      rw [List.length_replicate, toInt_succ] at hlen
      rw [toInt_succ]
      split at hlen
      · omega
      · next hmax =>
        rw [if_neg hmax]
        exact ⟨by omega, congrArg (List.replicate · zeroed) (by omega)⟩
  rw [List.replicate_succ, List.set_cons_zero] at hclients
  obtain ⟨hall, rfl⟩ := readClients_inv [_] (Nat.le_refl 1)
    (by rw [List.length_singleton]; omega) hclients
  rw [List.length_singleton] at hall
  refine ⟨hlog, (atoi val).toInt.toNat, ⟨⟨val, hval, by omega⟩, ?_, fun i hi ↦ ?_⟩, rfl⟩
  · by_cases hz : (atoi val).toInt.toNat = 0
    · omega
    · exact (hall _ (by omega) (by omega)).1
  · by_cases hz : i = 0
    · exact hz ▸ hzero
    · exact (hall i (by omega) (by omega)).2

private theorem entryOf_fromKeys {find : CString → Option CString} {i : Nat}
    (h : HasEntry find i) :
    find (entryKeys i).1 = some (entryOf find i).address ∧
      ∃ port, find (entryKeys i).2 = some port ∧ (entryOf find i).port = (atoi port).toInt := by
  obtain ⟨⟨address, ha, -⟩, port, hp⟩ := h
  exact ⟨by simp [entryOf, ha], port, hp, by simp [entryOf, hp]⟩

private theorem tableOf_fromKeys {find : CString → Option CString} {n : Nat}
    (h : Complete find n) : FromKeys find (tableOf find n) := by
  obtain ⟨val, hval, hnum⟩ := h.num
  refine ⟨⟨val, hval, ?_, ?_⟩, by simp [tableOf], ?_⟩
  · simp [tableOf, hnum]
  · simp [tableOf, hnum]
  · intro i entry hi
    cases i with
    | zero =>
      obtain rfl : { entryOf find 0 with clientNum := n } = entry := by simpa [tableOf] using hi
      exact entryOf_fromKeys (h.entries 0 (Nat.zero_le _))
    | succ i =>
      rw [tableOf, List.getElem?_cons_succ, List.getElem?_map, Option.map_eq_some_iff] at hi
      obtain ⟨j, hj, rfl⟩ := hi
      obtain ⟨hlt, hget⟩ := List.getElem?_eq_some_iff.mp hj
      rw [List.length_range'] at hlt
      obtain rfl : i + 1 = j := by
        rw [← hget, List.getElem_range']
        omega
      exact entryOf_fromKeys (h.entries (i + 1) hlt)

/-- The settings are looked up in the file. -/
private theorem parse_eq_readTable (heap : Heap) (logs : Logs) (text : List Char) :
    parseFileDistributeTcpInfo heap logs (some text) =
      readTable heap logs text (setting heap.behind text) := by
  obtain ⟨info, hinfo⟩ := parseFile_loadFile_ok heap.behind text
  have hfind : setting heap.behind text = fun key ↦ getInfo key info (getLines text) := by
    funext key
    rw [setting, hinfo]
  rw [parseFileDistributeTcpInfo, hinfo, hfind]
  rfl

/-- The entries of a table that was produced come from the settings. -/
theorem fromKeys_of_parse {heap : Heap} {logs : Logs} {text : List Char} {table : List TcpInfo}
    (h : parseFileDistributeTcpInfo heap logs (some text) = .ok table) :
    FromKeys (setting heap.behind text) table := by
  rw [parse_eq_readTable] at h
  obtain ⟨-, n, hcomplete, rfl⟩ := readTable_inv h
  exact tableOf_fromKeys hcomplete

/-- Settings of the log that fit their entries are found by every call. -/
private theorem configured_of_settings {logs : Logs} {text : List Char}
    {find : CString → Option CString}
    (hfind : ∀ behind key, nul ∉ key → setting behind text key = find key)
    (hfits : ∀ key val, find key = some val → val.length ≤ 127) (h : LogSettings find) :
    logs.Configured text := by
  intro k
  obtain ⟨⟨path, hpath⟩, level, hlevel⟩ := h
  have hdate := (logs.around k).1.date.length_le
  have hshort := hfits _ _ hpath
  have hshort' := hfits _ _ hlevel
  refine ⟨path, level, by rw [hfind _ _ (by decide), hpath], by rw [hfind _ _ (by decide), hlevel],
    ?_, by omega⟩
  rw [Log.length_logName]
  omega

/-- And if the first call has found them, they are there. -/
private theorem settings_of_logKeys {w : Surroundings} {text : List Char}
    {find : CString → Option CString}
    (hfind : ∀ behind key, nul ∉ key → setting behind text key = find key)
    (h : LogKeys w text) : LogSettings find := by
  obtain ⟨path, level, hpath, hlevel, -, -⟩ := h
  exact ⟨⟨path, by rw [← hfind w.behind _ (by decide), hpath]⟩, level,
    by rw [← hfind w.behind _ (by decide), hlevel]⟩

private theorem stated_fits {text : List Char} (h : ∀ line ∈ fgetsLines text, line.FitsEntry)
    {key val : CString} (hval : stated text key = some val) : val.length ≤ 127 := by
  obtain ⟨line, hline, rfl⟩ := Option.map_eq_some_iff.mp hval
  exact (h line (List.mem_of_find?_eq_some hline)).2

private theorem tableOf_congr {find find' : CString → Option CString}
    (hsame : ∀ key, nul ∉ key → find key = find' key) (n : Nat) :
    tableOf find n = tableOf find' n := by
  have hentry : entryOf find = entryOf find' := by
    funext i
    obtain ⟨hnul, hnul'⟩ := nul_notMem_entryKeys i
    rw [entryOf, entryOf, hsame _ hnul, hsame _ hnul']
  rw [tableOf, tableOf, hentry]

/-- A file whose lines fit in their entries and have all settings gives the table of its lines. -/
theorem parse_of_complete (heap : Heap) (logs : Logs) {text : List Char} {n : Nat}
    (hfits : ∀ line ∈ fgetsLines text, line.FitsEntry) (hlog : LogSettings (stated text))
    (h : Complete (stated text) n) :
    parseFileDistributeTcpInfo heap logs (some text) = .ok (tableOf (stated text) n) := by
  have hfind (behind : List Char) (key : CString) (hkey : nul ∉ key) :
      setting behind text key = stated text key := setting_eq_stated behind hfits hkey
  have hlogs : logs.Configured text :=
    configured_of_settings hfind (fun _ _ ↦ stated_fits hfits) hlog
  have hfound : Complete (setting heap.behind text) n :=
    h.congr fun key hkey ↦ (hfind _ key hkey).symm
  rw [parse_eq_readTable, readTable_complete heap hlogs hfound, tableOf_congr (hfind _)]

/-- For every content of the file whose lines fit in their entries: it is used as a whole or
rejected, exactly if it has lines for `log-path` and `log-level`, one that sets `client-num` to a
number from 0 to 9999, and lines for the address and the port of the server and of that many
clients. -/
theorem usedWhole_iff (heap : Heap) (logs : Logs) {text : List Char}
    (hfits : ∀ line ∈ fgetsLines text, line.FitsEntry) :
    UsedWhole (stated text) (parseFileDistributeTcpInfo heap logs (some text)) ↔
      LogSettings (stated text) ∧ ∃ n, Complete (stated text) n := by
  have hfind (behind : List Char) (key : CString) (hkey : nul ∉ key) :
      setting behind text key = stated text key := setting_eq_stated behind hfits hkey
  constructor
  · rw [parse_eq_readTable]
    rintro (⟨table, hok, -⟩ | hexit)
    · obtain ⟨hlog, n, hcomplete, -⟩ := readTable_inv hok
      exact ⟨settings_of_logKeys hfind hlog, n, hcomplete.congr (hfind _)⟩
    · exact absurd hexit (readTable_ne_exit heap logs text _)
  · rintro ⟨hlog, n, hcomplete⟩
    exact .inl ⟨_, parse_of_complete heap logs hfits hlog hcomplete, tableOf_fromKeys hcomplete⟩

/-- An empty file: the missing `client-num` is passed to `atoi`. -/
theorem not_usedWhole_empty :
    let heap : Heap := ⟨2720000, [], by decide⟩
    let w : Surroundings := ⟨.missing, [], ⟨['1'], by decide, by decide⟩, 0, 0, 0, none, true⟩
    let logs : Logs := ⟨Log.logsetting, fun _ ↦ (w, w)⟩
    ¬ UsedWhole (stated []) (parseFileDistributeTcpInfo heap logs (some [])) := by
  intro heap w logs h
  have hresult : parseFileDistributeTcpInfo heap logs (some []) =
      .error (.own (.nullLookup clientNumKey)) := by
    decide +kernel
  rw [hresult] at h
  rcases h with ⟨table, hok, -⟩ | hexit
  · cases hok
  · cases hexit

/-- A file for a server without clients. -/
theorem usedWhole_no_clients :
    let heap : Heap := ⟨2720000, [], by decide⟩
    let w : Surroundings := ⟨.missing, [], ⟨['1'], by decide, by decide⟩, 0, 0, 0, none, true⟩
    let logs : Logs := ⟨Log.logsetting, fun _ ↦ (w, w)⟩
    let line (key val : CString) : List Char := key ++ '=' :: val ++ ['\n']
    let text := line "log-path".toList ['l'] ++ line "log-level".toList "INFO".toList ++
      line (entryKeys 0).1 ['a'] ++ line (entryKeys 0).2 ['7'] ++ line clientNumKey ['0']
    (∀ line ∈ fgetsLines text, line.FitsEntry) ∧ Complete (stated text) 0 ∧
      UsedWhole (stated text) (parseFileDistributeTcpInfo heap logs (some text)) := by
  intro heap w logs line text
  have hfits : ∀ line ∈ fgetsLines text, line.FitsEntry := by decide +kernel
  have hlog : LogSettings (stated text) :=
    ⟨⟨['l'], by decide +kernel⟩, "INFO".toList, by decide +kernel⟩
  have hcomplete : Complete (stated text) 0 := by
    refine ⟨⟨['0'], by decide +kernel, by decide +kernel⟩, by decide, fun i hi ↦ ?_⟩
    obtain rfl : i = 0 := by omega
    exact ⟨⟨['a'], by decide +kernel, by decide⟩, ['7'], by decide +kernel⟩
  exact ⟨hfits, hcomplete, (usedWhole_iff heap logs hfits).mpr ⟨hlog, 0, hcomplete⟩⟩

/-! ### Texts that configure a table -/

/-- The lines set the server's address and port and those of the clients, and their number. The
first line for a key counts, and numbers are in decimal. -/
structure Configures (lines : List Line) (address : CString) (port : Int32)
    (clients : List (CString × Int32)) : Prop where
  num : ∃ val, lookup lines clientNumKey = some val ∧ IsDecimal val clients.length
  address : lookup lines (entryKeys 0).1 = some address
  port : ∃ val, lookup lines (entryKeys 0).2 = some val ∧ IsDecimal val port.toInt
  clientAddress : ∀ i client, clients[i]? = some client →
    lookup lines (entryKeys (i + 1)).1 = some client.1
  clientPort : ∀ i client, clients[i]? = some client →
    ∃ val, lookup lines (entryKeys (i + 1)).2 = some val ∧ IsDecimal val client.2.toInt

private theorem lookup_fits {lines : List Line} {key val : CString}
    (h : lookup lines key = some val) : val.length ≤ 127 := by
  obtain ⟨s, -, rfl⟩ := Option.map_eq_some_iff.mp h
  exact s.valFits

/-- An entry whose keys the lines set. -/
private theorem entryOf_configText (behind : List Char) {lines : List Line} {i : Nat}
    {address val : CString} {port : Int32} (ha : lookup lines (entryKeys i).1 = some address)
    (hp : lookup lines (entryKeys i).2 = some val) (hdec : IsDecimal val port.toInt) :
    HasEntry (setting behind (configText lines)) i ∧
      entryOf (setting behind (configText lines)) i =
        { address := address, port := port.toInt } := by
  obtain ⟨hnul, hnul'⟩ := nul_notMem_entryKeys i
  have hfits := lookup_fits ha
  rw [← setting_configText behind lines hnul] at ha
  rw [← setting_configText behind lines hnul'] at hp
  exact ⟨⟨⟨address, ha, hfits⟩, val, hp⟩, by simp [entryOf, ha, hp, atoi_of_isDecimal hdec]⟩

section
variable {lines : List Line} {address : CString} {port : Int32}
  {clients : List (CString × Int32)} (h : Configures lines address port clients)
include h

private theorem Configures.entry_zero (behind : List Char) :
    HasEntry (setting behind (configText lines)) 0 ∧
      entryOf (setting behind (configText lines)) 0 =
        { address := address, port := port.toInt } := by
  obtain ⟨val, hval, hdec⟩ := h.port
  exact entryOf_configText behind h.address hval hdec

private theorem Configures.entry_client (behind : List Char) {i : Nat}
    {client : CString × Int32} (hi : clients[i]? = some client) :
    HasEntry (setting behind (configText lines)) (i + 1) ∧
      entryOf (setting behind (configText lines)) (i + 1) =
        { address := client.1, port := client.2.toInt } := by
  obtain ⟨val, hval, hdec⟩ := h.clientPort i client hi
  exact entryOf_configText behind (h.clientAddress i client hi) hval hdec

private theorem Configures.complete (behind : List Char) (hn : clients.length ≤ 9999) :
    Complete (setting behind (configText lines)) clients.length := by
  have hnum : (Int32.ofInt clients.length).toInt = clients.length :=
    Int32.toInt_ofInt_of_le (by omega) (by omega)
  obtain ⟨val, hval, hdec⟩ := h.num
  refine ⟨⟨val, ?_, ?_⟩, hn, ?_⟩
  · rw [setting_configText behind lines (by decide), hval]
  · rw [← hnum] at hdec
    rw [atoi_of_isDecimal hdec, hnum]
  · intro i hi
    cases i with
    | zero => exact (h.entry_zero behind).1
    | succ i => exact (h.entry_client behind (List.getElem?_eq_getElem hi)).1

end

/-- For every number of clients up to 9999, all addresses and ports and every text that sets them,
whatever else it holds: the table has the server in entry 0 and client `i` in entry `i`, with no
buffer overrun on the way, exactly if the text sets `log-path` and `log-level` too. -/
theorem parse_configText_iff (heap : Heap) (logs : Logs) {lines : List Line} {address : CString}
    {port : Int32} {clients : List (CString × Int32)} (hn : clients.length ≤ 9999)
    (h : Configures lines address port clients) :
    parseFileDistributeTcpInfo heap logs (some (configText lines)) =
      .ok ({ address := address, port := port.toInt, clientNum := clients.length } ::
        clients.map (fun client ↦ { address := client.1, port := client.2.toInt })) ↔
      LogSettings (lookup lines) := by
  have hentries : (List.range' 1 clients.length).map
      (entryOf (setting heap.behind (configText lines))) =
        clients.map (fun client ↦ { address := client.1, port := client.2.toInt }) := by
    apply List.ext_getElem
    · simp
    · intro i hi hi'
      rw [List.length_map] at hi'
      rw [List.getElem_map, List.getElem_map, List.getElem_range', Nat.one_mul, Nat.add_comm]
      exact (h.entry_client heap.behind (List.getElem?_eq_getElem hi')).2
  have hfind (behind : List Char) (key : CString) (hkey : nul ∉ key) :
      setting behind (configText lines) key = lookup lines key :=
    setting_configText behind lines hkey
  rw [parse_eq_readTable]
  constructor
  · intro hok
    exact settings_of_logKeys hfind (readTable_inv hok).1
  · intro hlog
    have hlogs : logs.Configured (configText lines) :=
      configured_of_settings hfind (fun _ _ ↦ lookup_fits) hlog
    rw [readTable_complete heap hlogs (h.complete heap.behind hn), tableOf,
      (h.entry_zero heap.behind).2, hentries]

/-- No clients and no `log-path`: the first call of `LogWrite` copies from null. -/
theorem parse_without_log_path :
    let heap : Heap := ⟨2720000, [], by decide⟩
    let w : Surroundings := ⟨.missing, [], ⟨['1'], by decide, by decide⟩, 0, 0, 0, none, true⟩
    let logs : Logs := ⟨Log.logsetting, fun _ ↦ (w, w)⟩
    let line (key val : CString) (hkey : '=' ∉ key ∧ '\n' ∉ key ∧ nul ∉ key)
        (hstart : key.head? ≠ some '#') (hfits : key.length ≤ 63)
        (hval : '\n' ∉ val ∧ nul ∉ val) (hshort : val.length ≤ 127) : Line :=
      .setting ⟨key, val, hkey, hstart, hfits, hval, hshort⟩
    let lines : List Line :=
      [line (entryKeys 0).1 ['a'] (by decide) (by decide) (by decide) (by decide) (by decide),
        line (entryKeys 0).2 ['7'] (by decide) (by decide) (by decide) (by decide) (by decide),
        line clientNumKey ['0'] (by decide) (by decide) (by decide) (by decide) (by decide)]
    Configures lines ['a'] 7 [] ∧
      parseFileDistributeTcpInfo heap logs (some (configText lines)) =
        .error (.log (.nullLookup "log-path".toList)) := by
  intro heap w logs line lines
  refine ⟨⟨⟨_, by decide +kernel, isDecimal_printD 0⟩, by decide +kernel,
    ⟨_, by decide +kernel, isDecimal_printD 7⟩, ?_, ?_⟩, by decide +kernel⟩
  · intro i client hi
    cases hi
  · intro i client hi
    cases hi

/-- One client, between a comment and a second line for its port, without a final newline. -/
theorem parse_one_client :
    let heap : Heap := ⟨2720000, [], by decide⟩
    let w : Surroundings := ⟨.missing, [], ⟨['1'], by decide, by decide⟩, 0, 0, 0, none, true⟩
    let logs : Logs := ⟨Log.logsetting, fun _ ↦ (w, w)⟩
    let line (key val : CString) (hkey : '=' ∉ key ∧ '\n' ∉ key ∧ nul ∉ key)
        (hstart : key.head? ≠ some '#') (hfits : key.length ≤ 63)
        (hval : '\n' ∉ val ∧ nul ∉ val) (hshort : val.length ≤ 127) : Line :=
      .setting ⟨key, val, hkey, hstart, hfits, hval, hshort⟩
    let lines : List Line :=
      [line (entryKeys 1).2 ['8', '0'] (by decide +kernel) (by decide +kernel)
          (by decide +kernel) (by decide) (by decide),
        .ignored ['#', ' ', 'x', '=', '1'] (by decide) (by decide) (by decide),
        line "log-level".toList "INFO".toList (by decide) (by decide) (by decide) (by decide)
          (by decide),
        line (entryKeys 0).1 ['a'] (by decide) (by decide) (by decide) (by decide) (by decide),
        line clientNumKey ['1'] (by decide) (by decide) (by decide) (by decide) (by decide),
        line (entryKeys 1).1 ['b', '=', 'c'] (by decide +kernel) (by decide +kernel)
          (by decide +kernel) (by decide) (by decide),
        line (entryKeys 0).2 ['7'] (by decide) (by decide) (by decide) (by decide) (by decide),
        line "log-path".toList ['l'] (by decide) (by decide) (by decide) (by decide) (by decide),
        line (entryKeys 1).2 ['9', '9'] (by decide +kernel) (by decide +kernel)
          (by decide +kernel) (by decide) (by decide)]
    Configures lines ['a'] 7 [(['b', '=', 'c'], 80)] ∧
      parseFileDistributeTcpInfo heap logs (some (configText lines)) =
        .ok [{ address := ['a'], port := 7, clientNum := 1 },
          { address := ['b', '=', 'c'], port := 80 }] := by
  intro heap w logs line lines
  have hnum : IsDecimal ['1'] 1 := isDecimal_printD 1
  have hport : IsDecimal ['7'] 7 := isDecimal_printD 7
  have hclient : IsDecimal ['8', '0'] 80 := isDecimal_printD 80
  have h : Configures lines ['a'] 7 [(['b', '=', 'c'], 80)] := by
    have honly (i : Nat) (client : CString × Int32)
        (hi : [(['b', '=', 'c'], (80 : Int32))][i]? = some client) :
        i = 0 ∧ client = (['b', '=', 'c'], 80) := by
      cases i with
      | zero => exact ⟨rfl, (Option.some.inj hi).symm⟩
      | succ i => cases hi
    refine ⟨⟨_, by decide +kernel, hnum⟩, by decide +kernel, ⟨_, by decide +kernel, hport⟩, ?_, ?_⟩
    · intro i client hi
      obtain ⟨rfl, rfl⟩ := honly i client hi
      decide +kernel
    · intro i client hi
      obtain ⟨rfl, rfl⟩ := honly i client hi
      exact ⟨_, by decide +kernel, hclient⟩
  have hlog : LogSettings (lookup lines) :=
    ⟨⟨['l'], by decide +kernel⟩, "INFO".toList, by decide +kernel⟩
  exact ⟨h, (parse_configText_iff heap logs (by decide) h).mpr hlog⟩

end DupDistribute.Config

import DupDistribute.Base.Memory

/-!
# Message headers

`dataHeader.h:20-54` and the classification in `util.c:172-188`. A chunk is recognised
by its first bytes only. `SeaCommunication` and `BDCommunication` are laid out with the
natural alignment of their fields, `ReplayProtocol` is packed (`#pragma pack(push, 1)`);
the receiving code reads no field of the first two but `PacketHead`. Words are
little-endian; the three head constants read the same in either byte order.
-/

namespace DupDistribute.Wire

open DupDistribute.Base

/-- `SEACOMMHEADER`, `dataHeader.h:20`. -/
def SEACOMMHEADER : UInt32 := 0x66666666

/-- `BDCOMMHEADER`, `dataHeader.h:22`. -/
def BDCOMMHEADER : UInt8 := 0xEB

/-- `PLAYBACKHEADER`, `dataHeader.h:24`. -/
def PLAYBACKHEADER : UInt32 := 0x88888888

/-- `PLAYBACK_START`, `dataHeader.h:25`. -/
def PLAYBACK_START : UInt8 := 1

/-- `PLAYBACK_END`, `dataHeader.h:26`. -/
def PLAYBACK_END : UInt8 := 2

/-- `MAX_BUFFER_SIZE`, `util.h:24`. -/
def MAX_BUFFER_SIZE : Nat := 4096000

/-! ### Struct layout -/

/-- Round an offset up to a multiple of the alignment. -/
def alignTo (offset align : Nat) : Nat := (offset + align - 1) / align * align

/-- Offset after the fields, each aligned to its own width. -/
def layout (offset : Nat) : List Nat → Nat
  | [] => offset
  | width :: rest => layout (alignTo offset width + width) rest

/-- Size of a struct with naturally aligned scalar fields. -/
def sizeofStruct (widths : List Nat) : Nat :=
  alignTo (layout 0 widths) (widths.foldl max 1)

/-- `sizeof(SeaCommunication)`: `UINT32` head and payload size, two `UINT16`, `UINT32` time,
two `FLOAT`, two `UINT16`. -/
def sizeofSeaCommunication : Nat := sizeofStruct [4, 4, 2, 2, 4, 4, 4, 2, 2]

/-- `sizeof(BDCommunication)`: `UINT8` head and two `UINT16`. -/
def sizeofBDCommunication : Nat := sizeofStruct [1, 2, 2]

/-- `sizeof(ReplayProtocol)`, packed: the sum of its field widths. -/
def sizeofReplayProtocol : Nat := [4, 1, 4, 4, 1].foldl (· + ·) 0

/-- The header structs have 28, 6 and 14 bytes. -/
theorem sizeof_headers :
    sizeofSeaCommunication = 28 ∧ sizeofBDCommunication = 6 ∧ sizeofReplayProtocol = 14 := by
  decide

/-- `ReplayProtocol`, `dataHeader.h:46-53`. -/
structure ReplayProtocol where
  PacketHead : UInt32
  CommandType : UInt8
  StartTime : UInt32
  EndTime : UInt32
  Speed : UInt8
  deriving DecidableEq, Repr

/-- The packed struct whose bytes are the start of a block. -/
def ReplayProtocol.ofMemory (m : Memory) : ReplayProtocol where
  PacketHead := m.word32 0
  CommandType := m 4
  StartTime := m.word32 5
  EndTime := m.word32 9
  Speed := m 13

/-- The struct's fields are a function of its own bytes. -/
theorem ReplayProtocol.ofMemory_congr {m m' : Memory}
    (h : ∀ i < sizeofReplayProtocol, m i = m' i) :
    ReplayProtocol.ofMemory m = ReplayProtocol.ofMemory m' := by
  have hs : sizeofReplayProtocol = 14 := sizeof_headers.2.2
  have hi (i : Nat) (hlt : i < 14) : m i = m' i := h i (by omega)
  simp only [ReplayProtocol.ofMemory, Memory.word32, hi 0 (by decide), hi 1 (by decide),
    hi 2 (by decide), hi 3 (by decide), hi 4 (by decide), hi 5 (by decide), hi 6 (by decide),
    hi 7 (by decide), hi 8 (by decide), hi 9 (by decide), hi 10 (by decide), hi 11 (by decide),
    hi 12 (by decide), hi 13 (by decide), Nat.zero_add, Nat.reduceAdd]

/-! ### Classification of a received chunk -/

/-- What `distribute_receive` makes of a chunk. -/
inductive Kind where
  | live
  | playback
  | useless
  deriving DecidableEq, Repr

/-- The branch taken on the three heads read from the receive buffer, `util.c:172-188`. -/
def classify (receive_buf : Memory) : Kind :=
  let seaHead := receive_buf.word32 0
  let bdHead := receive_buf 0
  let replayHead := receive_buf.word32 0
  if seaHead = SEACOMMHEADER ∨ bdHead = BDCOMMHEADER then .live
  else if replayHead = PLAYBACKHEADER then .playback
  else .useless

/-- A chunk as it is meant: it begins with the Sea head or with the BD head. -/
def IsLive (chunk : List UInt8) : Prop :=
  [0x66, 0x66, 0x66, 0x66] <+: chunk ∨ [0xEB] <+: chunk

/-- A chunk that begins with the playback head. -/
def IsPlayback (chunk : List UInt8) : Prop := [0x88, 0x88, 0x88, 0x88] <+: chunk

instance (chunk : List UInt8) : Decidable (IsLive chunk) := inferInstanceAs (Decidable (_ ∨ _))

instance (chunk : List UInt8) : Decidable (IsPlayback chunk) :=
  inferInstanceAs (Decidable (_ <+: _))

/-- The first `MAX_BUFFER_SIZE` bytes of a block are the zero-padded chunk. -/
def Holds (m : Memory) (chunk : List UInt8) : Prop :=
  ∀ i < MAX_BUFFER_SIZE, m i = chunk.getD i 0

/-- Receiving into the zeroed buffer leaves the zero-padded chunk, whatever was there. -/
theorem holds_receive (m : Memory) (chunk : List UInt8) :
    Holds ((m.memset MAX_BUFFER_SIZE).store chunk) chunk :=
  fun _ hi ↦ m.store_memset chunk hi

/-- Copying the received length into a zeroed block keeps the zero-padded chunk. -/
theorem Holds.memcpy {m : Memory} {chunk : List UInt8} (h : Holds m chunk) :
    Holds (Memory.memcpy (fun _ ↦ 0) m chunk.length) chunk := by
  intro i hi
  simp only [Memory.memcpy]
  split
  · exact h i hi
  · next hn => simp [List.getD_eq_getElem?_getD, List.getElem?_eq_none (Nat.le_of_not_lt hn)]

/-- The chunk is read back from a block that holds it. -/
theorem Holds.read {m : Memory} {chunk : List UInt8} (h : Holds m chunk)
    (hl : chunk.length ≤ MAX_BUFFER_SIZE) : m.read chunk.length = chunk := by
  calc m.read chunk.length
      = (Memory.store m chunk).read chunk.length := by
        apply Memory.read_congr
        intro i hi
        rw [h i (Nat.lt_of_lt_of_le hi hl)]
        simp [Memory.store, List.getD_eq_getElem?_getD, hi]
    _ = chunk := Memory.read_store m chunk

private theorem head4_iff {m : Memory} {chunk : List UInt8} (h : Holds m chunk) (b : UInt8)
    (hb : b ≠ 0) :
    m.word32 0 = UInt32.ofNat (16843009 * b.toNat) ↔ [b, b, b, b] <+: chunk := by
  have hm : 4 < MAX_BUFFER_SIZE := by decide
  rw [Memory.word32_eq_iff, h 0 (by omega), h (0 + 1) (by omega), h (0 + 2) (by omega),
    h (0 + 3) (by omega)]
  -- A short chunk is padded with zeros, and no head byte is zero.
  match chunk with
  | [] => simp [Ne.symm hb]
  | [a₀] => simp [Ne.symm hb]
  | [a₀, a₁] => simp [Ne.symm hb]
  | [a₀, a₁, a₂] => simp [Ne.symm hb]
  | a₀ :: a₁ :: a₂ :: a₃ :: rest => simp [eq_comm]

private theorem head1_iff {m : Memory} {chunk : List UInt8} (h : Holds m chunk) :
    m 0 = BDCOMMHEADER ↔ [0xEB] <+: chunk := by
  rw [h 0 (by decide)]
  match chunk with
  | [] => simp [BDCOMMHEADER]
  | a₀ :: rest => simp [BDCOMMHEADER, eq_comm]

/-- The live branch is taken exactly on chunks with the Sea or BD head. -/
theorem classify_live_iff {m : Memory} {chunk : List UInt8} (h : Holds m chunk) :
    classify m = .live ↔ IsLive chunk := by
  have hs : SEACOMMHEADER = UInt32.ofNat (16843009 * (0x66 : UInt8).toNat) := by decide
  simp only [classify, IsLive, ← head1_iff h, ← head4_iff h 0x66 (by decide), ← hs]
  split
  · next hl => simp [hl]
  · next hl => split <;> simp [hl]

/-- The head of a request is recognised exactly on chunks that begin with it. -/
theorem playbackHead_iff {m : Memory} {chunk : List UInt8} (h : Holds m chunk) :
    m.word32 0 = PLAYBACKHEADER ↔ IsPlayback chunk := by
  have hp : PLAYBACKHEADER = UInt32.ofNat (16843009 * (0x88 : UInt8).toNat) := by decide
  rw [IsPlayback, ← head4_iff h 0x88 (by decide), ← hp]

/-- No chunk has two heads. -/
theorem IsPlayback.not_live {chunk : List UInt8} (h : IsPlayback chunk) : ¬ IsLive chunk := by
  obtain ⟨rest, rfl⟩ := h
  rintro (⟨r, hr⟩ | ⟨r, hr⟩) <;> simp at hr

/-- The playback branch is taken exactly on chunks with the playback head. -/
theorem classify_playback_iff {m : Memory} {chunk : List UInt8} (h : Holds m chunk) :
    classify m = .playback ↔ IsPlayback chunk := by
  have hlive := classify_live_iff h
  constructor
  · intro hc
    simp only [classify] at hc
    split at hc
    · cases hc
    · split at hc
      · next hw => exact (playbackHead_iff h).mp hw
      · cases hc
  · intro hpl
    have hnl : classify m ≠ .live := fun hc ↦ hpl.not_live (hlive.mp hc)
    simp only [classify, (playbackHead_iff h).mpr hpl] at hnl ⊢
    split
    · next hl => simp [hl] at hnl
    · simp

/-- The request that a chunk spells: the struct over the zero-padded bytes. -/
def ReplayProtocol.ofChunk (chunk : List UInt8) : ReplayProtocol :=
  .ofMemory (fun i ↦ chunk.getD i 0)

/-- A request is spelled by the first 14 bytes of the chunk. -/
theorem ReplayProtocol.ofChunk_take (chunk : List UInt8) :
    ofChunk (chunk.take sizeofReplayProtocol) = ofChunk chunk := by
  apply ofMemory_congr
  intro i hi
  simp [List.getD_eq_getElem?_getD, hi]

/-- A spelled request has the playback head exactly when the chunk begins with it. -/
theorem ReplayProtocol.ofChunk_head (chunk : List UInt8) :
    (ofChunk chunk).PacketHead = PLAYBACKHEADER ↔ IsPlayback chunk :=
  playbackHead_iff (fun _ _ ↦ rfl)

end DupDistribute.Wire

import ByteborneWorld.Memory
import ByteborneWorld.PacketModel

/-!
The send buffers: blocks of memory that chunks are carved from one after the other, the
manager that replaces the block when it is used up, and the serializer that fills a chunk
with the packet of a message.
-/

namespace ByteborneWorld.SendModel

open ByteborneWorld.Memory ByteborneWorld.ChatProto ByteborneWorld.PacketModel

def DefaultSize : ℕ := 4096

structure SendBuffer where
  buffer : ℕ → UInt8
  size : ℕ
  chunkOffset : ℕ
  closed : Bool
  chunk_le : chunkOffset ≤ size

/-- `chunk` is the offset of the chunk in the buffer of its owner. -/
structure SendBufferChunk where
  owner : ℕ
  chunk : ℕ
  openSize : ℕ
  writeOffset : ℕ
  closed : Bool
  deriving DecidableEq

/-- Every buffer created so far is kept: a chunk keeps its owner alive. The one at `current`
is the buffer in use. -/
structure SendBufferManager where
  heap : ℕ → SendBuffer
  current : ℕ
  sizes : ∀ i, (heap i).size = DefaultSize

namespace SendBuffer

def create (size : ℕ) : SendBuffer := ⟨fun _ => 0, size, 0, true, Nat.zero_le _⟩

def getFreeSize (b : SendBuffer) : ℕ := b.size - b.chunkOffset

def opened (b : SendBuffer) : SendBuffer := { b with closed := false }

/-- The second assertion of the code is the hypothesis. -/
def close (b : SendBuffer) (bytesWritten : ℕ) (h : bytesWritten ≤ b.getFreeSize) : SendBuffer :=
  { b with
    chunkOffset := b.chunkOffset + bytesWritten
    closed := true
    chunk_le := by have := b.chunk_le; unfold getFreeSize at h; omega }

def store (b : SendBuffer) (off : ℕ) (bs : List UInt8) : SendBuffer :=
  { b with buffer := write b.buffer off bs }

@[simp] lemma size_close (b : SendBuffer) (n : ℕ) (h : n ≤ b.getFreeSize) :
    (b.close n h).size = b.size := rfl

@[simp] lemma size_store (b : SendBuffer) (off : ℕ) (bs : List UInt8) :
    (b.store off bs).size = b.size := rfl

end SendBuffer

namespace SendBufferChunk

def getUnwrittenSize (c : SendBufferChunk) : ℕ := c.openSize - c.writeOffset

def onWritten (c : SendBufferChunk) (bytesWritten : ℕ) : SendBufferChunk :=
  { c with writeOffset := c.writeOffset + bytesWritten }

end SendBufferChunk

namespace SendBufferManager

def new : SendBufferManager := ⟨fun _ => .create DefaultSize, 0, fun _ => rfl⟩

def currentBuffer (g : SendBufferManager) : SendBuffer := g.heap g.current

def set (g : SendBufferManager) (i : ℕ) (b : SendBuffer) (h : b.size = DefaultSize) :
    SendBufferManager :=
  { g with
    heap := fun j => if j = i then b else g.heap j
    sizes := fun j => by split <;> simp [h, g.sizes] }

/-- The buffer in use is replaced by a new one when it has too little room. -/
def select (g : SendBufferManager) (size : ℕ) : SendBufferManager :=
  if g.currentBuffer.getFreeSize < size then
    { g.set (g.current + 1) (.create DefaultSize) rfl with current := g.current + 1 }
  else g

/-- The chunk begins where the one before it ended. -/
def «open» (g : SendBufferManager) (size : ℕ) : SendBufferManager × SendBufferChunk :=
  let g := g.select size
  (g.set g.current g.currentBuffer.opened (g.sizes _),
    ⟨g.current, g.currentBuffer.chunkOffset, size, 0, false⟩)

/-- What `open` asserts of the buffer it selects. -/
def OpenAsserts (g : SendBufferManager) (size : ℕ) : Prop :=
  (g.select size).currentBuffer.closed = true ∧
    size ≤ (g.select size).currentBuffer.getFreeSize

def bytes (g : SendBufferManager) (c : SendBufferChunk) : List UInt8 :=
  read (g.heap c.owner).buffer c.chunk c.writeOffset

end SendBufferManager

/-- The packet of a message in a chunk of its own; `none` when it is written past the end of
the buffer. -/
def serializeToSendBuffer (pb : Protobuf) (g : SendBufferManager) (m : Message) :
    Option (SendBufferManager × SendBufferChunk) :=
  let messageSize := pb.byteSizeLong m
  let totalSize := headerSize + messageSize
  let g' := (g.open totalSize).1
  let chunk := (g.open totalSize).2
  if h : totalSize ≤ g'.currentBuffer.getFreeSize then
    -- the cast to `PacketSize` keeps 16 bits
    let size := chunk.getUnwrittenSize % 2 ^ 16
    let b := g'.currentBuffer
    let b := b.store chunk.chunk (le16 size ++ le16 (Message.id m))
    let b := b.store (chunk.chunk + headerSize) (pb.serializeToArray m)
    let chunk := chunk.onWritten size
    have hsize : chunk.writeOffset ≤ b.getFreeSize :=
      le_trans (by
        show 0 + totalSize % 2 ^ 16 ≤ totalSize
        rw [Nat.zero_add]
        exact Nat.mod_le _ _) h
    some (g'.set g'.current (b.close chunk.writeOffset hsize) (g'.sizes _),
      { chunk with closed := true })
  else none

/-- A list of messages, one chunk for each. -/
def serializeAll (pb : Protobuf) : SendBufferManager → List Message →
    Option (SendBufferManager × List SendBufferChunk)
  | g, [] => some (g, [])
  | g, m :: ms => (serializeToSendBuffer pb g m).bind fun (g, c) =>
      (serializeAll pb g ms).map fun (g, cs) => (g, c :: cs)

/-! ### What a serialization leaves behind -/

namespace SendBufferManager

variable {g : SendBufferManager}

@[simp] lemma heap_set_self (i : ℕ) (b : SendBuffer) (h : b.size = DefaultSize) :
    (g.set i b h).heap i = b := by simp [set]

lemma heap_set_ne {i j : ℕ} {b : SendBuffer} {h : b.size = DefaultSize} (hne : j ≠ i) :
    (g.set i b h).heap j = g.heap j := by simp [set, hne]

@[simp] lemma current_set (i : ℕ) (b : SendBuffer) (h : b.size = DefaultSize) :
    (g.set i b h).current = g.current := rfl

lemma select_frame (size : ℕ) : g.current ≤ (g.select size).current ∧
    ∀ i ≤ g.current, (g.select size).heap i = g.heap i := by
  unfold select
  split_ifs
  · exact ⟨Nat.le_succ _, fun i hi => heap_set_ne (h := rfl) (by omega)⟩
  · exact ⟨le_refl _, fun _ _ => rfl⟩

/-- **The selected buffer has room exactly for what is no larger than a whole buffer.** -/
lemma size_le_free_select {size : ℕ} :
    size ≤ (g.select size).currentBuffer.getFreeSize ↔ size ≤ DefaultSize := by
  unfold select
  split_ifs with h
  · simp [currentBuffer, SendBuffer.getFreeSize, SendBuffer.create]
  · have hs := g.sizes g.current
    simp only [currentBuffer, SendBuffer.getFreeSize] at h ⊢
    omega

lemma closed_select (size : ℕ) (h : g.currentBuffer.closed = true) :
    (g.select size).currentBuffer.closed = true := by
  unfold select
  split_ifs
  · simp [currentBuffer, SendBuffer.create]
  · exact h

/-- The chunk lies in the part of its buffer that is used up. -/
def Stored (g : SendBufferManager) (c : SendBufferChunk) : Prop :=
  c.owner ≤ g.current ∧ c.chunk + c.writeOffset ≤ (g.heap c.owner).chunkOffset

lemma stored_set {c : SendBufferChunk} {b : SendBuffer} (hb : b.size = DefaultSize)
    (hc : g.Stored c) (hoff : g.currentBuffer.chunkOffset ≤ b.chunkOffset)
    (hmem : ∀ off n, off + n ≤ g.currentBuffer.chunkOffset →
      read b.buffer off n = read g.currentBuffer.buffer off n) :
    (g.set g.current b hb).Stored c ∧ (g.set g.current b hb).bytes c = g.bytes c := by
  obtain ⟨howner, hend⟩ := hc
  by_cases h : c.owner = g.current
  · rw [h] at hend
    simp only [Stored, bytes, h, heap_set_self]
    exact ⟨⟨le_refl _, le_trans hend hoff⟩, hmem _ _ hend⟩
  · simp only [Stored, bytes, heap_set_ne h]
    exact ⟨⟨howner, hend⟩, trivial⟩

lemma stored_select {c : SendBufferChunk} (size : ℕ) (hc : g.Stored c) :
    (g.select size).Stored c ∧ (g.select size).bytes c = g.bytes c := by
  obtain ⟨hle, hheap⟩ := select_frame (g := g) size
  simp only [Stored, bytes, hheap c.owner hc.1]
  exact ⟨⟨le_trans hc.1 hle, hc.2⟩, trivial⟩

end SendBufferManager

open SendBufferManager

variable {pb : Protobuf} {g : SendBufferManager}

/-- **A message that fits is serialized**: its chunk holds its packet, and the chunks made
before it keep their bytes. -/
theorem serializeToSendBuffer_fits {m : Message}
    (h : headerSize + pb.byteSizeLong m ≤ DefaultSize) :
    ∃ g' c, serializeToSendBuffer pb g m = some (g', c) ∧ g'.bytes c = packet pb m ∧
      g'.Stored c ∧ ∀ d, g.Stored d → g'.Stored d ∧ g'.bytes d = g.bytes d := by
  have hfree := (size_le_free_select (g := g)).mpr h
  set total := headerSize + pb.byteSizeLong m with htotal
  set g₁ := g.select total with hg₁
  have hopen : (g.open total).1.currentBuffer.getFreeSize = g₁.currentBuffer.getFreeSize := by
    simp [SendBufferManager.open, currentBuffer, SendBuffer.getFreeSize, SendBuffer.opened, hg₁]
  have hmod : total % 2 ^ 16 = total := Nat.mod_eq_of_lt (by
    have : DefaultSize < 2 ^ 16 := by decide
    omega)
  have hlen : (le16 total ++ le16 (Message.id m)).length = headerSize := rfl
  have hpay : (pb.serializeToArray m).length = pb.byteSizeLong m := rfl
  refine ⟨_, _, by rw [serializeToSendBuffer, dif_pos (hopen ▸ hfree)], ?_, ?_, ?_⟩
  · -- the header, then the payload right behind it
    simp only [bytes, SendBufferManager.open, SendBufferChunk.onWritten,
      SendBufferChunk.getUnwrittenSize, Nat.sub_zero, Nat.zero_add, ← htotal, ← hg₁, hmod,
      currentBuffer, current_set, heap_set_self, SendBuffer.close, SendBuffer.store,
      SendBuffer.opened]
    have happ := write_append (g₁.heap g₁.current).buffer (g₁.heap g₁.current).chunkOffset
      (le16 total ++ le16 (Message.id m)) (pb.serializeToArray m)
    rw [hlen] at happ
    rw [← happ, packet, ← htotal]
    have hread := read_write (g₁.heap g₁.current).buffer (g₁.heap g₁.current).chunkOffset
      (le16 total ++ le16 (Message.id m) ++ pb.serializeToArray m)
    rwa [List.length_append, hlen, hpay, ← htotal] at hread
  · simp [Stored, SendBufferManager.open, SendBufferChunk.onWritten, currentBuffer,
      SendBuffer.close, SendBuffer.store, SendBuffer.opened]
  · intro d hd
    obtain ⟨hd₁, hb₁⟩ := stored_select total hd
    rw [← hg₁] at hd₁ hb₁
    have hd₂ := stored_set (b := g₁.currentBuffer.opened) (g₁.sizes _) hd₁ (le_refl _)
      (fun _ _ _ => rfl)
    rw [← hb₁, ← hd₂.2]
    refine stored_set _ hd₂.1 ?_ ?_
    · simp [SendBufferManager.open, currentBuffer, SendBuffer.close, SendBuffer.store,
        SendBuffer.opened]
    · intro off n hoff
      simp only [SendBufferManager.open, currentBuffer, current_set, heap_set_self,
        SendBuffer.close, SendBuffer.store, SendBuffer.opened] at hoff ⊢
      rw [read_write_disjoint _ _ (.inl (by omega)), read_write_disjoint _ _ (.inl (by omega))]

/-- A message that does not fit is written past the end of its buffer. -/
theorem serializeToSendBuffer_eq_none {m : Message} :
    serializeToSendBuffer pb g m = none ↔ DefaultSize < headerSize + pb.byteSizeLong m := by
  constructor
  · intro hn
    by_contra h
    obtain ⟨g', c, hs, -⟩ := serializeToSendBuffer_fits (g := g) (not_lt.mp h)
    rw [hn] at hs
    cases hs
  · intro h
    have hfree := (size_le_free_select (g := g)).not.mpr (not_le.mpr h)
    have hopen : (g.open (headerSize + pb.byteSizeLong m)).1.currentBuffer.getFreeSize =
        (g.select (headerSize + pb.byteSizeLong m)).currentBuffer.getFreeSize := by
      simp [SendBufferManager.open, currentBuffer, SendBuffer.getFreeSize, SendBuffer.opened]
    rw [serializeToSendBuffer, dif_neg (hopen ▸ hfree)]

/-- A message that was serialized: its chunk holds its packet, and the chunks made before it
keep their bytes. -/
lemma serializeToSendBuffer_some {m : Message} {g' : SendBufferManager} {c : SendBufferChunk}
    (hs : serializeToSendBuffer pb g m = some (g', c)) : g'.bytes c = packet pb m ∧
      g'.Stored c ∧ ∀ d, g.Stored d → g'.Stored d ∧ g'.bytes d = g.bytes d := by
  have hfits : headerSize + pb.byteSizeLong m ≤ DefaultSize := by
    by_contra h
    rw [serializeToSendBuffer_eq_none.mpr (not_le.mp h)] at hs
    cases hs
  obtain ⟨g₁, c₁, hs₁, h⟩ := serializeToSendBuffer_fits (g := g) hfits
  rw [hs] at hs₁
  cases hs₁
  exact h

/-- **The output of a list of messages** is the list of their packets, also when the chunks
are read only after the last message was serialized. -/
theorem serializeAll_fits {ms : List Message}
    (h : ∀ m ∈ ms, headerSize + pb.byteSizeLong m ≤ DefaultSize) :
    ∃ g' cs, serializeAll pb g ms = some (g', cs) ∧ cs.map g'.bytes = ms.map (packet pb) ∧
      ∀ d, g.Stored d → g'.Stored d ∧ g'.bytes d = g.bytes d := by
  induction ms generalizing g with
  | nil => exact ⟨g, [], rfl, rfl, fun d hd => ⟨hd, rfl⟩⟩
  | cons m ms ih =>
    obtain ⟨g₁, c, hs, hbytes, hstored, hframe⟩ :=
      serializeToSendBuffer_fits (g := g) (h m (by simp))
    obtain ⟨g₂, cs, hall, hmap, hframe₂⟩ := ih (g := g₁) fun m' hm' => h m' (by simp [hm'])
    refine ⟨g₂, c :: cs, by simp [serializeAll, hs, hall], ?_, fun d hd => ?_⟩
    · rw [List.map_cons, List.map_cons, (hframe₂ c hstored).2, hbytes, hmap]
    · obtain ⟨hd₁, hb₁⟩ := hframe d hd
      obtain ⟨hd₂, hb₂⟩ := hframe₂ d hd₁
      exact ⟨hd₂, hb₂.trans hb₁⟩

end ByteborneWorld.SendModel

import ByteborneWorld.Memory

/-!
The receive buffer of a session: one block of memory, four times as long as the nominal
size, with a read and a write offset into it. Unread bytes are moved to the front when a
read leaves too little room behind them.
-/

namespace ByteborneWorld.RecvModel

open ByteborneWorld.Memory

def DefaultSize : ℕ := 4096
def CapacityFactor : ℕ := 4

structure ReceiveBuffer where
  buffer : ℕ → UInt8
  size : ℕ
  readOffset : ℕ
  writeOffset : ℕ
  read_le : readOffset ≤ writeOffset
  write_le : writeOffset ≤ CapacityFactor * size

namespace ReceiveBuffer

def new (size : ℕ) : ReceiveBuffer := ⟨fun _ => 0, size, 0, 0, le_refl _, Nat.zero_le _⟩

def getUnwrittenSize (b : ReceiveBuffer) : ℕ := CapacityFactor * b.size - b.writeOffset
def getUnreadSize (b : ReceiveBuffer) : ℕ := b.writeOffset - b.readOffset

/-- The bytes from the read pointer to the write pointer. -/
def unread (b : ReceiveBuffer) : List UInt8 := read b.buffer b.readOffset b.getUnreadSize

/-- Bytes stored from outside at an address, as the kernel does on behalf of a read. -/
def store (b : ReceiveBuffer) (off : ℕ) (bs : List UInt8) : ReceiveBuffer :=
  { b with buffer := write b.buffer off bs }

/-- The three cases: all read, moved to the front, left where it is. -/
def resetOffsets (b : ReceiveBuffer) : ReceiveBuffer :=
  if b.readOffset = b.writeOffset then
    { b with
      readOffset := 0
      writeOffset := 0
      read_le := le_refl _
      write_le := Nat.zero_le _ }
  else if 0 < b.readOffset ∧ b.getUnwrittenSize < b.size then
    { b with
      buffer := write b.buffer 0 b.unread
      readOffset := 0
      writeOffset := b.writeOffset - b.readOffset
      read_le := Nat.zero_le _
      write_le := by have := b.write_le; omega }
  else b

/-- The first assertion of the code is the hypothesis. The second, that no more than the nominal
size is read, is left to the caller. -/
def onRead (b : ReceiveBuffer) (bytesRead : ℕ) (h : bytesRead ≤ b.getUnreadSize) :
    ReceiveBuffer :=
  resetOffsets { b with
    readOffset := b.readOffset + bytesRead
    read_le := by have := b.read_le; unfold getUnreadSize at h; omega }

/-- As in `onRead`; here nothing is made of the second assertion. -/
def onWritten (b : ReceiveBuffer) (bytesWritten : ℕ) (h : bytesWritten ≤ b.getUnwrittenSize) :
    ReceiveBuffer :=
  { b with
    writeOffset := b.writeOffset + bytesWritten
    read_le := by have := b.read_le; omega
    write_le := by have := b.write_le; unfold getUnwrittenSize at h; omega }

/-! ### The buffer as a queue of bytes -/

variable (b : ReceiveBuffer)

@[simp] lemma unread_length : b.unread.length = b.getUnreadSize := read_length _ _ _

@[simp] lemma unread_new (size : ℕ) : (new size).unread = [] := rfl

@[simp] lemma size_onRead (n : ℕ) (h : n ≤ b.getUnreadSize) : (b.onRead n h).size = b.size := by
  unfold onRead resetOffsets
  split_ifs <;> rfl

@[simp] lemma size_onWritten (n : ℕ) (h : n ≤ b.getUnwrittenSize) :
    (b.onWritten n h).size = b.size := rfl

lemma unread_resetOffsets : b.resetOffsets.unread = b.unread := by
  unfold resetOffsets
  split_ifs with h1 h2
  · have h0 : b.getUnreadSize = 0 := by simp [getUnreadSize, h1]
    simp [unread, getUnreadSize, h1]
  · have hlen : b.writeOffset - b.readOffset = b.unread.length := by simp [getUnreadSize]
    simp only [unread, getUnreadSize, Nat.sub_zero]
    exact (congrArg _ hlen).trans (read_write b.buffer 0 b.unread)
  · rfl

/-- **Reading takes bytes from the front**, whether or not the rest is moved. -/
theorem unread_onRead (n : ℕ) (h : n ≤ b.getUnreadSize) :
    (b.onRead n h).unread = b.unread.drop n := by
  rw [onRead, unread_resetOffsets]
  simp only [unread, getUnreadSize] at h ⊢
  rw [read_drop _ _ _ _ h, Nat.sub_sub]

/-- **Writing puts bytes at the back**, if they were stored at the write pointer. -/
theorem unread_onWritten_store (bs : List UInt8) (h : bs.length ≤ b.getUnwrittenSize) :
    ((b.store b.writeOffset bs).onWritten bs.length h).unread = b.unread ++ bs := by
  have hle := b.read_le
  have hsplit : b.writeOffset + bs.length - b.readOffset =
      (b.writeOffset - b.readOffset) + bs.length := by omega
  simp only [unread, getUnreadSize, onWritten, store]
  rw [hsplit, read_add, show b.readOffset + (b.writeOffset - b.readOffset) = b.writeOffset by omega,
    read_write, read_write_disjoint _ _ (.inl (by omega))]

/-- A read leaves room for a whole packet of nominal size behind the unread bytes, or moves them
to the front. -/
lemma room_onRead (n : ℕ) (h : n ≤ b.getUnreadSize) :
    (b.onRead n h).readOffset = 0 ∨ b.size ≤ (b.onRead n h).getUnwrittenSize := by
  unfold onRead resetOffsets
  split_ifs with h1 h2
  · exact .inl rfl
  · exact .inl rfl
  · simp only [getUnwrittenSize] at h2 ⊢
    omega

/-- The room left behind the unread bytes is enough for a whole packet of nominal size. -/
def Roomy : Prop := b.readOffset = 0 ∨ b.readOffset + b.size ≤ CapacityFactor * b.size

lemma roomy_new (size : ℕ) : (new size).Roomy := .inl rfl

lemma roomy_onRead (n : ℕ) (h : n ≤ b.getUnreadSize) : (b.onRead n h).Roomy := by
  rcases b.room_onRead n h with h0 | hroom
  · exact .inl h0
  · have hr := (b.onRead n h).read_le
    have hw := (b.onRead n h).write_le
    simp only [getUnwrittenSize, size_onRead] at hroom hw
    refine .inr ?_
    rw [size_onRead]
    omega

lemma roomy_onWritten_store (off : ℕ) (bs : List UInt8) {n : ℕ} (hb : b.Roomy)
    (h : n ≤ b.getUnwrittenSize) : ((b.store off bs).onWritten n h).Roomy := hb

lemma unwritten_pos_of_roomy (hb : b.Roomy) (h : b.getUnreadSize < b.size) :
    0 < b.getUnwrittenSize := by
  have hr := b.read_le
  simp only [Roomy, getUnwrittenSize, getUnreadSize, CapacityFactor] at hb h ⊢
  omega

end ReceiveBuffer

end ByteborneWorld.RecvModel

import ByteborneWorld.Fifo
import ByteborneWorld.RecvModel

/-!
The receive buffer over whole runs: to the outside it is a queue of bytes, and the room it
makes on a read is still there after any number of writes.
-/

namespace ByteborneWorld.RecvRun

open ByteborneWorld.RecvModel ByteborneWorld.RecvModel.ReceiveBuffer ByteborneWorld.Lts

/-- Bytes stored at the write pointer and reported by `onWritten`, or bytes given back. -/
inductive Op
  | write (bs : List UInt8)
  | onRead (bytesRead : ℕ)

def step (b : ReceiveBuffer) : Op → Option ReceiveBuffer
  | .write bs =>
    if h : bs.length ≤ b.getUnwrittenSize then
      some ((b.store b.writeOffset bs).onWritten bs.length h)
    else none
  | .onRead n => if h : n ≤ b.getUnreadSize then some (b.onRead n h) else none

/-- The same on a queue. -/
def Op.abs : Op → Fifo.Op UInt8
  | .write bs => .put bs
  | .onRead n => .take n

def written (ops : List Op) : List UInt8 := Fifo.putAll (ops.map Op.abs)

def bytesRead (ops : List Op) : ℕ := Fifo.takenAll (ops.map Op.abs)

variable {b b' : ReceiveBuffer}

/-! ### One step -/

lemma step_write {bs : List UInt8} (h : step b (.write bs) = some b') :
    ∃ hle : bs.length ≤ b.getUnwrittenSize,
      b' = (b.store b.writeOffset bs).onWritten bs.length hle := by
  obtain ⟨hle, h⟩ := Option.dite_none_right_eq_some.mp h
  exact ⟨hle, (Option.some.inj h).symm⟩

lemma step_onRead {n : ℕ} (h : step b (.onRead n) = some b') :
    ∃ hn : n ≤ b.getUnreadSize, b' = b.onRead n hn := by
  obtain ⟨hn, h⟩ := Option.dite_none_right_eq_some.mp h
  exact ⟨hn, (Option.some.inj h).symm⟩

/-- **Every step is a step of the queue of unread bytes.** -/
lemma step_sim (b : ReceiveBuffer) (op : Op) (b' : ReceiveBuffer) (h : step b op = some b') :
    Fifo.step b.unread op.abs = some b'.unread := by
  cases op with
  | write bs =>
    obtain ⟨hle, rfl⟩ := step_write h
    rw [unread_onWritten_store]
    rfl
  | onRead n =>
    obtain ⟨hn, rfl⟩ := step_onRead h
    rw [unread_onRead, Op.abs, Fifo.step, if_pos (by rwa [unread_length])]

/-- What holds between the steps. -/
structure Inv (size : ℕ) (b : ReceiveBuffer) : Prop where
  size_eq : b.size = size
  roomy : b.Roomy

lemma inv_new (size : ℕ) : Inv size (.new size) := ⟨rfl, roomy_new size⟩

/-- Writes keep the room that a read has made: it is counted from the read pointer. -/
lemma inv_step {size : ℕ} (b : ReceiveBuffer) (op : Op) (b' : ReceiveBuffer) (hi : Inv size b)
    (h : step b op = some b') : Inv size b' := by
  cases op with
  | write bs =>
    obtain ⟨hle, rfl⟩ := step_write h
    exact ⟨hi.size_eq, roomy_onWritten_store b _ bs hi.roomy hle⟩
  | onRead n =>
    obtain ⟨hn, rfl⟩ := step_onRead h
    exact ⟨(size_onRead b n hn).trans hi.size_eq, roomy_onRead b n hn⟩

/-! ### Whole runs -/

/-- **The receive buffer refines a queue of bytes.** After any writes and reads the unread bytes
are all that was written, less what was read; the offsets are in order and within the block.
Every read leaves the unread bytes at the front or room for `size` bytes behind them, so a
packet of at most `size` bytes at the front fits as a whole, and what is missing of it can
be written. -/
theorem refines_fifo {size : ℕ} {ops : List Op} {b : ReceiveBuffer}
    (h : run step (.new size) ops = some b) :
    b.unread = (written ops).drop (bytesRead ops) ∧ bytesRead ops ≤ (written ops).length ∧
    b.readOffset ≤ b.writeOffset ∧ b.writeOffset ≤ CapacityFactor * size ∧
    (∀ n b', step b (.onRead n) = some b' →
      b'.readOffset = 0 ∨ size ≤ b'.getUnwrittenSize) ∧
    ∀ n ≤ size, b.readOffset + n ≤ CapacityFactor * size ∧
      n - b.getUnreadSize ≤ b.getUnwrittenSize := by
  obtain ⟨hsize, hroomy⟩ := run_invariant inv_step (inv_new size) h
  obtain ⟨hle, heq⟩ := Fifo.run_eq_some (run_simulates step_sim h)
  rw [unread_new, List.nil_append] at hle heq
  refine ⟨heq, hle, b.read_le, hsize ▸ b.write_le, fun n b' hs => ?_, fun n hn => ?_⟩
  · obtain ⟨hn, rfl⟩ := step_onRead hs
    exact hsize ▸ room_onRead b n hn
  · have hr := b.read_le
    subst hsize
    simp only [Roomy, getUnreadSize, getUnwrittenSize, CapacityFactor] at hroomy ⊢
    omega

/-- Seven bytes fill all but one cell of a block of eight; the read of five moves the other two
to the front, where two more are written behind them. -/
theorem refines_fifo_moved : ∃ b, run step (.new 2)
    [.write [1, 2, 3, 4, 5, 6, 7], .onRead 5, .write [8, 9]] = some b ∧
    b.readOffset = 0 ∧ b.unread = [6, 7, 8, 9] := by
  refine ⟨_, rfl, rfl, ?_⟩
  exact (@refines_fifo 2 [.write [1, 2, 3, 4, 5, 6, 7], .onRead 5, .write [8, 9]] _ rfl).1

end ByteborneWorld.RecvRun

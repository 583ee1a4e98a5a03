import Mathlib.Data.List.GetD
import ByteborneWorld.ChatProto

/-!
Packets: a header of two 16-bit fields, size and id, in front of a serialized message; and
the queue that a packet is parsed into.
-/

namespace ByteborneWorld.PacketModel

open ByteborneWorld.ChatProto

/-- `sizeof(PacketHeader)`. -/
def headerSize : ℕ := 4

/-- The two bytes of a 16-bit field, low byte first; what is beyond is cut off. -/
def le16 (n : ℕ) : List UInt8 := [UInt8.ofNat n, UInt8.ofNat (n / 256)]

/-- A 16-bit field at an offset. -/
def getLe16 (bs : List UInt8) (off : ℕ) : ℕ :=
  (bs.getD off 0).toNat + 256 * (bs.getD (off + 1) 0).toNat

/-- A packet in place: its header, and all that follows the header. -/
structure PacketView where
  size : ℕ
  id : ℕ
  payload : List UInt8
  deriving DecidableEq

/-- The view of the packet at the front of some bytes. -/
def PacketView.of (bs : List UInt8) : PacketView :=
  ⟨getLe16 bs 0, getLe16 bs 2, bs.drop headerSize⟩

/-! ### Message types -/

/-- A message type is a 16-bit id, of which three have a name. -/
inductive MessageType
  | none
  | s2cChat
  | c2sChat
  | other (id : ℕ)
  deriving DecidableEq

/-- `static_cast<MessageType>`. -/
def MessageType.ofId (id : ℕ) : MessageType :=
  if id = 0 then .none else if id = 1000 then .s2cChat else if id = 2000 then .c2sChat
  else .other id

/-- `MessageTypeTraits` of the class of a message. -/
def Message.type : Message → MessageType
  | .s2cChat _ => .s2cChat
  | .c2sChat _ => .c2sChat

/-- The `PacketId` of the class of a message. -/
def Message.id : Message → ℕ
  | .s2cChat _ => 1000
  | .c2sChat _ => 2000

/-- The factory has an entry for each message class. -/
def createMessage : MessageType → Option Message
  | .s2cChat => some (.s2cChat .new)
  | .c2sChat => some (.c2sChat .new)
  | _ => Option.none

/-! ### The message queue -/

structure MessageQueueEntry where
  sessionId : ℕ
  message : Message
  messageType : MessageType
  deriving DecidableEq

abbrev MessageQueue := List MessageQueueEntry

/-- Assertions are checked in a debug build and are no-ops in a release build.

One that fails ends the program: the drain loop is at a fault then, and elsewhere on the main
thread there is no next step. The assertions of the I/O threads (in `ReceiveBuffer::onWritten`,
`handleError` and `close`) are left out, so what is said of all runs of a debug build is said of
it for as long as none of them fails. -/
inductive Build | Debug | Release
  deriving DecidableEq

/-- How a push goes wrong. -/
inductive Fault
  | nullMessage
  | negativeSize
  | assertion
  deriving DecidableEq

/-- The factory's null pointer and the sign of the payload size are not looked at, and the
result of the parse only by an assertion. -/
def push (build : Build) (pb : Protobuf) (queue : MessageQueue) (sessionId : ℕ)
    (view : PacketView) : Except Fault MessageQueue :=
  match createMessage (.ofId view.id) with
  | none => .error .nullMessage
  | some message =>
    if view.size < headerSize then .error .negativeSize
    else
      let (message, parsingResult) :=
        pb.parseFromArray message (view.payload.take (view.size - headerSize))
      if build = .Debug ∧ ¬parsingResult then .error .assertion
      else .ok (queue ++ [⟨sessionId, message, .ofId view.id⟩])

/-! ### The packet of a message -/

/-- The packet of a message, as long as its size fits the header. -/
def packet (pb : Protobuf) (m : Message) : List UInt8 :=
  le16 (headerSize + pb.byteSizeLong m) ++ le16 (Message.id m) ++ pb.serializeToArray m

def entry (sessionId : ℕ) (m : Message) : MessageQueueEntry := ⟨sessionId, m, Message.type m⟩

lemma getLe16_le16 {n : ℕ} (h : n < 2 ^ 16) (rest : List UInt8) :
    getLe16 (le16 n ++ rest) 0 = n := by
  simp only [getLe16, le16, List.cons_append, List.nil_append, List.getD_cons_zero,
    List.getD_cons_succ, UInt8.toNat_ofNat']
  omega

lemma getLe16_append {as bs : List UInt8} {off : ℕ} (h : off + 2 ≤ as.length) :
    getLe16 (as ++ bs) off = getLe16 as off := by
  unfold getLe16
  rw [List.getD_append _ _ _ _ (by omega), List.getD_append _ _ _ _ (by omega)]

lemma id_lt (m : Message) : Message.id m < 2 ^ 16 := by cases m <;> simp [Message.id]

lemma ofId_id (m : Message) : MessageType.ofId (Message.id m) = Message.type m := by
  cases m <;> rfl

lemma createMessage_type (m : Message) : createMessage (Message.type m) = some m.fresh := by
  cases m <;> rfl

variable {pb : Protobuf}

@[simp] lemma packet_length (m : Message) :
    (packet pb m).length = headerSize + pb.byteSizeLong m := by
  simp [packet, le16, headerSize, Protobuf.byteSizeLong]
  omega

lemma getLe16_packet_two (m : Message) : getLe16 (packet pb m) 2 = Message.id m := by
  have := getLe16_le16 (id_lt m) (pb.serializeToArray m)
  simpa [packet, le16, getLe16] using this

lemma drop_packet (m : Message) : (packet pb m).drop headerSize = pb.serializeToArray m := by
  simp [packet, le16, headerSize]

/-! ### Packets that the queue accepts -/

/-- The bytes of a packet that `push` makes an entry of: the size field is right, the factory
knows the id, and the payload parses. `message` is what the factory makes. -/
structure Packet (pb : Protobuf) where
  bytes : List UInt8
  message : Message
  header_le : headerSize ≤ bytes.length
  size_eq : getLe16 bytes 0 = bytes.length
  known : createMessage (.ofId (getLe16 bytes 2)) = some message
  parses : (pb.parseFromArray message (bytes.drop headerSize)).2 = true

namespace Packet

variable (p : Packet pb)

def entry (sessionId : ℕ) : MessageQueueEntry :=
  ⟨sessionId, (pb.parseFromArray p.message (p.bytes.drop headerSize)).1,
    .ofId (getLe16 p.bytes 2)⟩

lemma getLe16_bytes (rest : List UInt8) : getLe16 (p.bytes ++ rest) 0 = p.bytes.length := by
  have h := p.header_le
  rw [getLe16_append (by unfold headerSize at h; omega), p.size_eq]

lemma view (rest : List UInt8) : PacketView.of (p.bytes ++ rest) =
    ⟨p.bytes.length, getLe16 p.bytes 2, p.bytes.drop headerSize ++ rest⟩ := by
  have h := p.header_le
  rw [PacketView.of, p.getLe16_bytes, getLe16_append (by unfold headerSize at h; omega),
    List.drop_append_of_le_length h]

/-- **The packet at the front of a stream gets its entry**, whatever follows it. -/
theorem push_view (build : Build) (queue : MessageQueue) (sessionId : ℕ) (rest : List UInt8) :
    push build pb queue sessionId (PacketView.of (p.bytes ++ rest)) =
      .ok (queue ++ [p.entry sessionId]) := by
  have hsize : ¬p.bytes.length < headerSize := not_lt.mpr p.header_le
  have hlen : p.bytes.length - headerSize = (p.bytes.drop headerSize).length := by simp
  simp only [push, p.view, p.known, if_neg hsize]
  rw [hlen, List.take_left]
  simp [p.parses, entry]

end Packet

/-- **The packet of a message is accepted.** -/
def Packet.ofMessage (hpb : pb.RoundTrips) (m : Message)
    (h : headerSize + pb.byteSizeLong m < 2 ^ 16) : Packet pb where
  bytes := packet pb m
  message := m.fresh
  header_le := by simp
  size_eq := by rw [packet_length, packet, List.append_assoc, getLe16_le16 h]
  known := by rw [getLe16_packet_two, ofId_id, createMessage_type]
  parses := by rw [drop_packet, hpb m (by omega)]

lemma Packet.entry_ofMessage (hpb : pb.RoundTrips) (m : Message)
    (h : headerSize + pb.byteSizeLong m < 2 ^ 16) (sessionId : ℕ) :
    (Packet.ofMessage hpb m h).entry sessionId = PacketModel.entry sessionId m := by
  simp only [Packet.entry, PacketModel.entry, ofMessage, getLe16_packet_two, ofId_id, drop_packet]
  rw [hpb m (by omega)]

end ByteborneWorld.PacketModel

import ByteborneWorld.ChatRoomModel
import ByteborneWorld.SendModel

/-!
The size of the server's response to a chat message, against the size of the send buffer. The
response copies two fields of the message and adds four of its own.
-/

namespace ByteborneWorld.ResponseSize

open ByteborneWorld.Proto3 ByteborneWorld.ChatProto ByteborneWorld.ChatRoomModel
open ByteborneWorld.PacketModel ByteborneWorld.SendModel

/-- The bytes of the fields that the response copies. -/
def copiedSize (message : C2SChat) : ℕ :=
  lenSize message.content.length + numSize message.clientMessageId.toNat

/-- The bytes of the fields that the server adds: the name, two numbers of 64 bits and one of 32. -/
def addedSize (sessionId : ℕ) (serverMessageId : UInt64) (nowMs : Int64) : ℕ :=
  lenSize (player.length + (decimal sessionId).length) + numSize serverMessageId.toNat +
    numSize nowMs.toUInt64.toNat + numSize (sessionId % 2 ^ 32)

/-- The message has a packet that the serializer can make. -/
def Legal (message : C2SChat) : Prop :=
  headerSize + proto3.byteSizeLong (.c2sChat message) ≤ SendModel.DefaultSize

/-- The serializer can make the packet of the response: no assertion on the way fails, and
nothing is written past the end of the buffer. -/
def ResponseFits (g : SendBufferManager) (response : S2CChat) : Prop :=
  g.OpenAsserts (headerSize + proto3.byteSizeLong (.s2cChat response)) ∧
    serializeToSendBuffer proto3 g (.s2cChat response) ≠ none

lemma decimal_length_le {n : ℕ} (h : n < 2 ^ 64) : (decimal n).length ≤ 20 := by
  rw [decimal, List.length_map, Nat.length_toDigits_le_iff (by norm_num) (by norm_num)]
  exact lt_trans h (by norm_num)

lemma content_length_lt {message : C2SChat} (h : Legal message) :
    message.content.length < 2 ^ 64 := by
  have hle := length_le_lenField 2 message.content
  simp only [Legal, Protobuf.byteSizeLong, proto3, Message.fields, C2SChat.fields,
    encode_append, List.length_append, SendModel.DefaultSize] at h
  omega

/-- **The size of the response**, from the sizes of its fields. -/
lemma byteSizeLong_respond (room : ChatRoom) {sessionId : ℕ} {message : C2SChat} (nowMs : Int64)
    (hid : sessionId < 2 ^ 64) (h : Legal message) :
    proto3.byteSizeLong (.s2cChat (room.respond sessionId message nowMs).2) =
      copiedSize message + addedSize sessionId room.nextMessageId nowMs := by
  have hname := room.senderName_respond sessionId message nowMs
  have hlen : (playerName sessionId).length = player.length + (decimal sessionId).length :=
    List.length_append
  have hdigits := decimal_length_le hid
  rw [byteSizeLong_s2cChat _ (by rw [hname, hlen]; simp only [player]; simp; omega)
    (content_length_lt h), S2CChat.size, hname, hlen]
  simp only [ChatRoom.respond, copiedSize, addedSize, UInt32.toNat_ofNat']
  omega

section Fits

variable {g : SendBufferManager} {room : ChatRoom} {sessionId : ℕ} {message : C2SChat}
  {nowMs : Int64}

lemma le_of_responseFits (hid : sessionId < 2 ^ 64) (h : Legal message)
    (hfits : ResponseFits g (room.respond sessionId message nowMs).2) :
    copiedSize message + addedSize sessionId room.nextMessageId nowMs ≤
      SendModel.DefaultSize - headerSize := by
  obtain ⟨⟨-, hle⟩, -⟩ := hfits
  rw [SendBufferManager.size_le_free_select, byteSizeLong_respond room nowMs hid h] at hle
  omega

/-- **When the response fits its send buffer**: exactly if the copied and the added fields
leave room for the header. -/
theorem responseFits_iff (hclosed : g.currentBuffer.closed = true) (hid : sessionId < 2 ^ 64)
    (h : Legal message) :
    ResponseFits g (room.respond sessionId message nowMs).2 ↔
      copiedSize message + addedSize sessionId room.nextMessageId nowMs ≤
        SendModel.DefaultSize - headerSize := by
  refine ⟨le_of_responseFits hid h, fun hle => ?_⟩
  have hheader : headerSize ≤ SendModel.DefaultSize := by decide
  rw [ResponseFits, SendBufferManager.OpenAsserts, SendBufferManager.size_le_free_select,
    Ne, serializeToSendBuffer_eq_none, byteSizeLong_respond room nowMs hid h]
  exact ⟨⟨SendBufferManager.closed_select _ hclosed, by omega⟩, by omega⟩

end Fits

/-! ### In numbers -/

lemma varintSize_le {n : ℕ} (k : ℕ) (h0 : n ≠ 0) (h : n < 128 ^ k) : varintSize n ≤ k :=
  Nat.log_lt_of_lt_pow h0 h

lemma numSize_le {n : ℕ} (k : ℕ) (h : n < 128 ^ k) : numSize n ≤ 1 + k := by
  unfold numSize
  split_ifs with h0
  · exact Nat.zero_le _
  · exact Nat.add_le_add_left (varintSize_le k h0 h) 1

lemma lenSize_le {n : ℕ} (k : ℕ) (h : n < 128 ^ k) : lenSize n ≤ 1 + k + n := by
  unfold lenSize
  split_ifs with h0
  · exact Nat.zero_le _
  · have hsize := varintSize_le k h0 h
    omega

/-- **Up to 4016 bytes of content are always safe.** -/
theorem copied_add_added_le {sessionId : ℕ} {message : C2SChat} (serverMessageId : UInt64)
    (nowMs : Int64) (hid : sessionId < 2 ^ 64) (h : message.content.length ≤ 4016) :
    copiedSize message + addedSize sessionId serverMessageId nowMs ≤
      SendModel.DefaultSize - headerSize := by
  have h64 : 2 ^ 64 < 128 ^ 10 := by norm_num
  have hcontent := lenSize_le (n := message.content.length) 2 (by omega)
  have hcid := numSize_le 10 (lt_trans message.clientMessageId.toNat_lt h64)
  have hsmid := numSize_le 10 (lt_trans serverMessageId.toNat_lt h64)
  have hnow := numSize_le 10 (lt_trans nowMs.toUInt64.toNat_lt h64)
  have hsid := numSize_le (n := sessionId % 2 ^ 32) 5 (by omega)
  have hdigits := decimal_length_le hid
  have hplayer : player.length = 12 := rfl
  have hname := lenSize_le (n := player.length + (decimal sessionId).length) 1 (by omega)
  simp only [copiedSize, addedSize, SendModel.DefaultSize, headerSize]
  omega

/-! ### A message at the limit -/

def longContent : Str := List.replicate 4089 0x61

lemma longContent_length : longContent.length = 4089 := List.length_replicate

/-- Its packet has just the size of a send buffer. -/
def longChat : C2SChat := ⟨[], longContent, 0, 0⟩

lemma legal_longChat : Legal longChat := by
  rw [Legal, byteSizeLong_c2sChat _ (by simp [longChat])
    (by simp only [longChat, longContent_length]; norm_num)]
  simp only [C2SChat.size, longChat, longContent_length]
  decide

/-- **The response to it does not fit**, even into a new buffer. -/
theorem longChat_not_responseFits : Legal longChat ∧
    ¬ResponseFits .new (ChatRoom.new.respond 1 longChat 1).2 := by
  refine ⟨legal_longChat, fun hfits => ?_⟩
  have hle := le_of_responseFits (by norm_num) legal_longChat hfits
  simp only [copiedSize, longChat, longContent_length] at hle
  revert hle
  decide

/-- A small message, to which the equivalence applies. -/
theorem responseFits_iff_smallChat :
    ResponseFits .new (ChatRoom.new.respond 1 ⟨[], [104, 105], 1, 5⟩ 1).2 ↔
      copiedSize ⟨[], [104, 105], 1, 5⟩ + addedSize 1 ChatRoom.new.nextMessageId 1 ≤
        SendModel.DefaultSize - headerSize :=
  responseFits_iff rfl (by norm_num) (by
    rw [Legal, byteSizeLong_c2sChat _ (by decide) (by decide)]
    decide)

end ByteborneWorld.ResponseSize

import ByteborneWorld.Proto3

/-!
The two chat messages, what the program asks of protobuf, and the proto3 encoding of the
messages, which provides it.
-/

namespace ByteborneWorld.ChatProto

open ByteborneWorld.Proto3

/-- A `std::string` is its bytes. -/
abbrev Str := List UInt8

structure S2CChat where
  senderName : Str
  content : Str
  clientMessageId : UInt64
  serverMessageId : UInt64
  serverSentAtMs : Int64
  senderSessionId : UInt32
  deriving DecidableEq

structure C2SChat where
  senderName : Str
  content : Str
  clientMessageId : UInt64
  clientSentAtMs : Int64
  deriving DecidableEq

/-- A message object: what a `MessagePtr` points to. -/
inductive Message
  | s2cChat (m : S2CChat)
  | c2sChat (m : C2SChat)
  deriving DecidableEq

/-- A freshly made message has the default value in every field. -/
def S2CChat.new : S2CChat := ⟨[], [], 0, 0, 0, 0⟩
def C2SChat.new : C2SChat := ⟨[], [], 0, 0⟩

/-- What the program asks of protobuf: the bytes of a message, and what a message object
holds after it parsed some bytes, with the success flag. -/
structure Protobuf where
  serializeToArray : Message → List UInt8
  parseS2CChat : List UInt8 → S2CChat × Bool
  parseC2SChat : List UInt8 → C2SChat × Bool

def Protobuf.byteSizeLong (pb : Protobuf) (m : Message) : ℕ := (pb.serializeToArray m).length

/-- The parse of a message object: its class decides which, its old content is dropped. -/
def Protobuf.parseFromArray (pb : Protobuf) (m : Message) (bs : List UInt8) : Message × Bool :=
  match m with
  | .s2cChat _ => ((pb.parseS2CChat bs).map .s2cChat id)
  | .c2sChat _ => ((pb.parseC2SChat bs).map .c2sChat id)

/-- A message object of the same class, as the factory makes it. -/
def Message.fresh : Message → Message
  | .s2cChat _ => .s2cChat .new
  | .c2sChat _ => .c2sChat .new

/-- Parsing what was serialized gives the message back; messages are below 2 GiB. The strings are
taken to be UTF-8: protobuf refuses to parse others. -/
def Protobuf.RoundTrips (pb : Protobuf) : Prop :=
  ∀ m, pb.byteSizeLong m < 2 ^ 31 →
    pb.parseFromArray m.fresh (pb.serializeToArray m) = (m, true)

/-! ### The proto3 encoding -/

def S2CChat.fields (m : S2CChat) : List Field :=
  lenField 1 m.senderName ++ lenField 2 m.content ++ numField 3 m.clientMessageId.toNat ++
    numField 4 m.serverMessageId.toNat ++ numField 5 m.serverSentAtMs.toUInt64.toNat ++
    numField 6 m.senderSessionId.toNat

def C2SChat.fields (m : C2SChat) : List Field :=
  lenField 1 m.senderName ++ lenField 2 m.content ++ numField 3 m.clientMessageId.toNat ++
    numField 4 m.clientSentAtMs.toUInt64.toNat

def Message.fields : Message → List Field
  | .s2cChat m => m.fields
  | .c2sChat m => m.fields

/-- A field is set by its number and wire type; unknown ones are passed over. -/
def S2CChat.set (m : S2CChat) : Field → S2CChat
  | ⟨1, .len bs⟩ => { m with senderName := bs }
  | ⟨2, .len bs⟩ => { m with content := bs }
  | ⟨3, .num n⟩ => { m with clientMessageId := .ofNat n }
  | ⟨4, .num n⟩ => { m with serverMessageId := .ofNat n }
  | ⟨5, .num n⟩ => { m with serverSentAtMs := (UInt64.ofNat n).toInt64 }
  | ⟨6, .num n⟩ => { m with senderSessionId := .ofNat n }
  | _ => m

def C2SChat.set (m : C2SChat) : Field → C2SChat
  | ⟨1, .len bs⟩ => { m with senderName := bs }
  | ⟨2, .len bs⟩ => { m with content := bs }
  | ⟨3, .num n⟩ => { m with clientMessageId := .ofNat n }
  | ⟨4, .num n⟩ => { m with clientSentAtMs := (UInt64.ofNat n).toInt64 }
  | _ => m

/-- The proto3 encoding. Bytes that are no UTF-8 are let through as they are. -/
def proto3 : Protobuf where
  serializeToArray m := encode m.fields
  parseS2CChat bs :=
    match decode bs with
    | some fs => (fs.foldl S2CChat.set .new, true)
    | none => (.new, false)
  parseC2SChat bs :=
    match decode bs with
    | some fs => (fs.foldl C2SChat.set .new, true)
    | none => (.new, false)

lemma fields_small (m : Message) : ∀ f ∈ m.fields, f.Small := by
  cases m with
  | s2cChat m =>
    simp only [Message.fields, S2CChat.fields, List.forall_mem_append]
    exact ⟨⟨⟨⟨⟨small_lenField (by omega), small_lenField (by omega)⟩,
      small_numField (by omega) (UInt64.toNat_lt _)⟩,
      small_numField (by omega) (UInt64.toNat_lt _)⟩,
      small_numField (by omega) (UInt64.toNat_lt _)⟩,
      small_numField (by omega) (lt_trans (UInt32.toNat_lt _) (by norm_num))⟩
  | c2sChat m =>
    simp only [Message.fields, C2SChat.fields, List.forall_mem_append]
    exact ⟨⟨⟨small_lenField (by omega), small_lenField (by omega)⟩,
      small_numField (by omega) (UInt64.toNat_lt _)⟩,
      small_numField (by omega) (UInt64.toNat_lt _)⟩

lemma eq_zero_of_toNat {n : UInt64} (h : n.toNat = 0) : n = 0 :=
  UInt64.toNat_inj.mp (h.trans UInt64.toNat_zero.symm)

lemma eq_zero_of_toUInt64 {n : Int64} (h : n.toUInt64 = 0) : n = 0 := by
  simpa using congrArg UInt64.toInt64 h

lemma S2CChat.foldl_set_fields (m : S2CChat) : m.fields.foldl S2CChat.set .new = m := by
  obtain ⟨name, content, cid, smid, ms, sid⟩ := m
  have h1 : (lenField 1 name).foldl set .new = ⟨name, [], 0, 0, 0, 0⟩ :=
    foldl_lenField rfl (by rintro rfl; rfl)
  have h2 : (lenField 2 content).foldl set ⟨name, [], 0, 0, 0, 0⟩ =
      ⟨name, content, 0, 0, 0, 0⟩ := foldl_lenField rfl (by rintro rfl; rfl)
  have h3 : (numField 3 cid.toNat).foldl set ⟨name, content, 0, 0, 0, 0⟩ =
      ⟨name, content, cid, 0, 0, 0⟩ :=
    foldl_numField (by simp [set]) fun h => by rw [eq_zero_of_toNat h]
  have h4 : (numField 4 smid.toNat).foldl set ⟨name, content, cid, 0, 0, 0⟩ =
      ⟨name, content, cid, smid, 0, 0⟩ :=
    foldl_numField (by simp [set]) fun h => by rw [eq_zero_of_toNat h]
  have h5 : (numField 5 ms.toUInt64.toNat).foldl set ⟨name, content, cid, smid, 0, 0⟩ =
      ⟨name, content, cid, smid, ms, 0⟩ :=
    foldl_numField (by simp [set]) fun h => by rw [eq_zero_of_toUInt64 (eq_zero_of_toNat h)]
  have h6 : (numField 6 sid.toNat).foldl set ⟨name, content, cid, smid, ms, 0⟩ =
      ⟨name, content, cid, smid, ms, sid⟩ :=
    foldl_numField (by simp [set])
      fun h => by rw [UInt32.toNat_inj.mp (h.trans UInt32.toNat_zero.symm)]
  simp only [fields, List.foldl_append, h1, h2, h3, h4, h5, h6]

lemma C2SChat.foldl_set_fields (m : C2SChat) : m.fields.foldl C2SChat.set .new = m := by
  obtain ⟨name, content, cid, ms⟩ := m
  have h1 : (lenField 1 name).foldl set .new = ⟨name, [], 0, 0⟩ :=
    foldl_lenField rfl (by rintro rfl; rfl)
  have h2 : (lenField 2 content).foldl set ⟨name, [], 0, 0⟩ = ⟨name, content, 0, 0⟩ :=
    foldl_lenField rfl (by rintro rfl; rfl)
  have h3 : (numField 3 cid.toNat).foldl set ⟨name, content, 0, 0⟩ = ⟨name, content, cid, 0⟩ :=
    foldl_numField (by simp [set]) fun h => by rw [eq_zero_of_toNat h]
  have h4 : (numField 4 ms.toUInt64.toNat).foldl set ⟨name, content, cid, 0⟩ =
      ⟨name, content, cid, ms⟩ :=
    foldl_numField (by simp [set]) fun h => by rw [eq_zero_of_toUInt64 (eq_zero_of_toNat h)]
  simp only [fields, List.foldl_append, h1, h2, h3, h4]

/-- **The proto3 encoding provides what the program asks of protobuf.** -/
theorem proto3_roundTrips : proto3.RoundTrips := by
  intro m h
  have hd : decode (encode m.fields) = some m.fields :=
    decode_encode (fits_of_small (fields_small m) (lt_trans h (by norm_num)))
  cases m with
  | s2cChat m =>
    have := S2CChat.foldl_set_fields m
    simp only [Message.fields] at hd
    simp [Protobuf.parseFromArray, Message.fresh, proto3, Message.fields, hd, this]
  | c2sChat m =>
    have := C2SChat.foldl_set_fields m
    simp only [Message.fields] at hd
    simp [Protobuf.parseFromArray, Message.fresh, proto3, Message.fields, hd, this]

/-! ### Sizes -/

/-- The size of a server message, field by field. -/
def S2CChat.size (m : S2CChat) : ℕ :=
  lenSize m.senderName.length + lenSize m.content.length + numSize m.clientMessageId.toNat +
    numSize m.serverMessageId.toNat + numSize m.serverSentAtMs.toUInt64.toNat +
    numSize m.senderSessionId.toNat

def C2SChat.size (m : C2SChat) : ℕ :=
  lenSize m.senderName.length + lenSize m.content.length + numSize m.clientMessageId.toNat +
    numSize m.clientSentAtMs.toUInt64.toNat

lemma byteSizeLong_s2cChat (m : S2CChat) (hn : m.senderName.length < 2 ^ 64)
    (hc : m.content.length < 2 ^ 64) : proto3.byteSizeLong (.s2cChat m) = m.size := by
  simp only [Protobuf.byteSizeLong, proto3, Message.fields, S2CChat.fields, encode_append,
    List.length_append, S2CChat.size]
  rw [lenField_length (by omega) hn, lenField_length (by omega) hc,
    numField_length (by omega) (UInt64.toNat_lt _), numField_length (by omega) (UInt64.toNat_lt _),
    numField_length (by omega) (UInt64.toNat_lt _),
    numField_length (by omega) (lt_trans (UInt32.toNat_lt _) (by norm_num))]

lemma byteSizeLong_c2sChat (m : C2SChat) (hn : m.senderName.length < 2 ^ 64)
    (hc : m.content.length < 2 ^ 64) : proto3.byteSizeLong (.c2sChat m) = m.size := by
  simp only [Protobuf.byteSizeLong, proto3, Message.fields, C2SChat.fields, encode_append,
    List.length_append, C2SChat.size]
  rw [lenField_length (by omega) hn, lenField_length (by omega) hc,
    numField_length (by omega) (UInt64.toNat_lt _), numField_length (by omega) (UInt64.toNat_lt _)]

end ByteborneWorld.ChatProto

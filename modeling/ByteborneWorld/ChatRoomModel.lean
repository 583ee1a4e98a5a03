import Mathlib.Data.Finset.Basic
import ByteborneWorld.ChatProto

/-!
The chat room of the server: who is in it, under which name, and the response it makes of a
chat message.

Session ids are taken as the code casts them for a name, to `uint64_t`.
-/

namespace ByteborneWorld.ChatRoomModel

open ByteborneWorld.ChatProto

/-- `std::to_string`. -/
def decimal (n : ℕ) : Str := (Nat.toDigits 10 n).map fun c => UInt8.ofNat c.toNat

/-- The UTF-8 bytes of "플레이어". -/
def player : Str := [0xED, 0x94, 0x8C, 0xEB, 0xA0, 0x88, 0xEC, 0x9D, 0xB4, 0xEC, 0x96, 0xB4]

def playerName (sessionId : ℕ) : Str := player ++ decimal sessionId

/-- The only names are those that `onClientAccepted` gives. -/
structure ChatRoom where
  nextMessageId : UInt64
  activeSessions : Finset ℕ
  sessionNames : ℕ → Option Str
  name_eq : ∀ sessionId name, sessionNames sessionId = some name → name = playerName sessionId

namespace ChatRoom

def new : ChatRoom := ⟨1, ∅, fun _ => none, by simp⟩

def onClientAccepted (room : ChatRoom) (sessionId : ℕ) : ChatRoom where
  nextMessageId := room.nextMessageId
  activeSessions := insert sessionId room.activeSessions
  sessionNames i := if i = sessionId then some (playerName sessionId) else room.sessionNames i
  name_eq i name h := by
    split_ifs at h with hi
    · rw [hi, ← Option.some.inj h]
    · exact room.name_eq i name h

def onClientClosed (room : ChatRoom) (sessionId : ℕ) : ChatRoom where
  nextMessageId := room.nextMessageId
  activeSessions := room.activeSessions.erase sessionId
  sessionNames i := if i = sessionId then none else room.sessionNames i
  name_eq i name h := by
    split_ifs at h
    exact room.name_eq i name h

/-- The response that `handleChat` makes; `nowMs` is what the clock says. The counter wraps. -/
def respond (room : ChatRoom) (sessionId : ℕ) (message : C2SChat) (nowMs : Int64) :
    ChatRoom × S2CChat :=
  let senderName := (room.sessionNames sessionId).getD (playerName sessionId)
  ({ room with nextMessageId := room.nextMessageId + 1 },
    { senderName := senderName
      content := message.content
      clientMessageId := message.clientMessageId
      serverMessageId := room.nextMessageId
      serverSentAtMs := nowMs
      senderSessionId := .ofNat sessionId })

variable (room : ChatRoom) (sessionId : ℕ) (message : C2SChat) (nowMs : Int64)

/-- Whether or not the session is still known, the name in the response is its name. -/
lemma senderName_respond :
    (room.respond sessionId message nowMs).2.senderName = playerName sessionId := by
  unfold respond
  cases h : room.sessionNames sessionId with
  | none => rfl
  | some name => exact room.name_eq sessionId name h

end ChatRoom

end ByteborneWorld.ChatRoomModel

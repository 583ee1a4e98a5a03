import Mathlib.Data.Finset.Basic
import ByteborneWorld.ChatWindowModel

/-!
The game client, as far as it is about chat: its connection, the ids it gives to its messages,
and what it does with a message from the server.

The session itself is left out: `sessionManager` has the ids of the sessions it holds, and
whether the flag of one is set is a parameter.
-/

namespace ByteborneWorld.GameClientModel

open ByteborneWorld.ChatProto ByteborneWorld.ChatWindowModel

structure GameClient where
  running : Bool
  chatWindow : ChatWindow
  sessionManager : Finset ℕ
  connected : Bool
  serverSessionId : ℕ
  nextClientMessageId : UInt64

namespace GameClient

variable (formatTimestampFromMs : Int64 → Str) (c : GameClient)

def new (clock₁ clock₂ clock₃ : Clock) : GameClient :=
  ⟨false, .new clock₁ clock₂ clock₃, ∅, false, 0, 1⟩

def start : GameClient := { c with running := true }

def stop : GameClient := { c with running := false }

/-- The client afterwards, and the chat that was handed to the session. -/
def sendChatMessage (message : Str) (clock : Clock) (sessionRunning : Bool) :
    GameClient × Option C2SChat :=
  if ¬c.connected ∨ c.serverSessionId = 0 then (c, none)
  else
    let clientMessageId := c.nextClientMessageId
    let username := c.chatWindow.usernameText
    ({ c with
        nextClientMessageId := clientMessageId + 1
        chatWindow := c.chatWindow.addLocalPendingMessage (username ++ utf8 " (나)") message
          clientMessageId clock },
      if c.serverSessionId ∈ c.sessionManager ∧ sessionRunning then
        some ⟨username, message, clientMessageId, clock.nowMs⟩
      else none)

/-- `handleServiceEvent(ServiceCloseEvent)`. -/
def handleServiceClose (clock : Clock) : GameClient :=
  { c with
    connected := false
    serverSessionId := 0
    chatWindow := (c.chatWindow.setConnectionStatus false).addChatMessage (utf8 "시스템")
      (utf8 "서버 연결이 종료되었습니다.") clock }

/-- `handleServiceEvent(ServiceConnectEvent)`; the new session gets the id `sessionId`. -/
def handleServiceConnect (sessionId : ℕ) (clock : Clock) : GameClient :=
  if c.running then
    { c with
      sessionManager := insert sessionId c.sessionManager
      serverSessionId := sessionId
      connected := true
      chatWindow := (c.chatWindow.setConnectionStatus true).addChatMessage (utf8 "시스템")
        (utf8 "서버에 성공적으로 연결되었습니다!") clock }
  else c

/-- `handleSessionEvent(SessionCloseEvent)`. -/
def handleSessionClose (sessionId : ℕ) (clock : Clock) : GameClient :=
  let c := { c with sessionManager := c.sessionManager.erase sessionId }
  if sessionId = c.serverSessionId then
    { c with
      connected := false
      serverSessionId := 0
      chatWindow := (c.chatWindow.setConnectionStatus false).addChatMessage (utf8 "시스템")
        (utf8 "서버와의 연결이 끊어졌습니다.") clock }
  else c

/-- The acknowledgement that `handleMessage` tries first. -/
def tryAck (message : S2CChat) : Option (ChatWindow × Bool) :=
  if message.clientMessageId ≠ 0 then
    c.chatWindow.ackPendingMessage formatTimestampFromMs message.clientMessageId
      message.senderName message.content message.serverMessageId message.serverSentAtMs
  else some (c.chatWindow, false)

def handleMessage (message : S2CChat) : Option GameClient :=
  (c.tryAck formatTimestampFromMs message).map fun (chatWindow, acknowledged) =>
    if acknowledged then { c with chatWindow := chatWindow }
    else { c with
      chatWindow := chatWindow.addAuthoritativeMessage formatTimestampFromMs message.senderName
        message.content message.serverMessageId message.serverSentAtMs message.clientMessageId }

end GameClient

end ByteborneWorld.GameClientModel

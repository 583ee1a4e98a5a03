import Mathlib.Data.List.DropRight
import Mathlib.Data.List.Sort
import Mathlib.Logic.Function.Basic
import ByteborneWorld.ChatProto

/-!
The chat window of the client: the list of messages on display, and the side table with the
positions of those that the server has not confirmed yet.

What is drawn, the scroll state and the log are left out; how a time is shown depends on the
time zone and is a parameter.
-/

namespace ByteborneWorld.ChatWindowModel

open ByteborneWorld.ChatProto

def utf8 (s : String) : Str := s.toUTF8.data.toList

/-- What the clock says, as `getCurrentTimestamp` formats it and in milliseconds. -/
structure Clock where
  timestamp : Str
  nowMs : Int64

structure ChatMessage where
  sender : Str
  message : Str
  timestamp : Str
  clientMessageId : UInt64
  serverMessageId : UInt64
  serverSentAtMs : Int64
  pending : Bool
  deriving DecidableEq

structure ChatWindow where
  connected : Bool
  chatMessages : List ChatMessage
  chatInputText : Str
  usernameText : Str
  pendingIndex : UInt64 → Option ℕ

/-- The comparison of `sortMessagesByServerOrder`. -/
def ChatMessage.before (a b : ChatMessage) : Bool :=
  if a.pending ≠ b.pending then b.pending
  else if a.serverSentAtMs ≠ b.serverSentAtMs then a.serverSentAtMs < b.serverSentAtMs
  else if a.serverMessageId ≠ b.serverMessageId then a.serverMessageId < b.serverMessageId
  else a.clientMessageId < b.clientMessageId

/-- `std::stable_sort`: what does not come after another message may stand in front of it. -/
def sortMessagesByServerOrder (messages : List ChatMessage) : List ChatMessage :=
  messages.insertionSort fun a b => b.before a = false

@[simp] lemma length_sortMessagesByServerOrder (messages : List ChatMessage) :
    (sortMessagesByServerOrder messages).length = messages.length :=
  List.length_insertionSort _ _

@[simp] lemma mem_sortMessagesByServerOrder {messages : List ChatMessage} {m : ChatMessage} :
    m ∈ sortMessagesByServerOrder messages ↔ m ∈ messages :=
  List.mem_insertionSort _

/-- A pending message as the server has confirmed it. -/
def ChatMessage.confirm (formatTimestampFromMs : Int64 → Str) (msg : ChatMessage)
    (authoritativeSender authoritativeContent : Str) (serverMessageId : UInt64)
    (serverSentAtMs : Int64) : ChatMessage :=
  { msg with
    sender := authoritativeSender
    message := authoritativeContent
    pending := false
    serverMessageId := serverMessageId
    serverSentAtMs := serverSentAtMs
    timestamp := formatTimestampFromMs serverSentAtMs }

namespace ChatWindow

variable (formatTimestampFromMs : Int64 → Str) (w : ChatWindow)

def addChatMessage (sender message : Str) (clock : Clock) : ChatWindow :=
  let messages := sortMessagesByServerOrder
    (w.chatMessages ++ [⟨sender, message, clock.timestamp, 0, 0, clock.nowMs, false⟩])
  { w with chatMessages := if messages.length > 1000 then messages.tail else messages }

def new (clock₁ clock₂ clock₃ : Clock) : ChatWindow :=
  let w : ChatWindow := ⟨false, [], [], utf8 "플레이어", fun _ => none⟩
  let w := w.addChatMessage (utf8 "시스템") (utf8 "채팅창에 오신 것을 환영합니다!") clock₁
  let w := w.addChatMessage (utf8 "시스템") (utf8 "한글 입력이 완벽하게 지원됩니다.") clock₂
  w.addChatMessage (utf8 "시스템") (utf8 "서버에 연결 중입니다...") clock₃

/-- The message is not sorted in. -/
def addLocalPendingMessage (sender message : Str) (clientMessageId : UInt64) (clock : Clock) :
    ChatWindow :=
  { w with
    pendingIndex := Function.update w.pendingIndex clientMessageId w.chatMessages.length
    chatMessages := w.chatMessages ++
      [⟨sender, message, clock.timestamp, clientMessageId, 0, 0, true⟩] }

/-- `true` when a message was confirmed; `none` when the position is not in the list, which
the code does not check. -/
def ackPendingMessage (clientMessageId : UInt64) (authoritativeSender authoritativeContent : Str)
    (serverMessageId : UInt64) (serverSentAtMs : Int64) : Option (ChatWindow × Bool) :=
  match w.pendingIndex clientMessageId with
  | none => some (w, false)
  | some i => w.chatMessages[i]?.map fun msg =>
    let msg := msg.confirm formatTimestampFromMs authoritativeSender authoritativeContent
      serverMessageId serverSentAtMs
    ({ w with
        pendingIndex := Function.update w.pendingIndex clientMessageId none
        chatMessages := sortMessagesByServerOrder (w.chatMessages.set i msg) }, true)

def addAuthoritativeMessage (sender content : Str) (serverMessageId : UInt64)
    (serverSentAtMs : Int64) (clientMessageId : UInt64) : ChatWindow :=
  { w with
    chatMessages := sortMessagesByServerOrder (w.chatMessages ++
      [⟨sender, content, formatTimestampFromMs serverSentAtMs, clientMessageId, serverMessageId,
        serverSentAtMs, false⟩]) }

/-- The button of the toolbar. -/
def clear : ChatWindow := { w with chatMessages := [], pendingIndex := fun _ => none }

def setConnectionStatus (connected : Bool) : ChatWindow := { w with connected := connected }

def isBlank (c : UInt8) : Bool := c = 0x20 ∨ c = 0x09 ∨ c = 0x0A ∨ c = 0x0D

/-- The text that is handed to the callback, if there is one. -/
def sendChatMessage (clock : Clock) : ChatWindow × Option Str :=
  if w.chatInputText = [] then (w, none)
  else
    let trimmed := (w.chatInputText.dropWhile isBlank).rdropWhile isBlank
    if trimmed = [] then (w, none)
    else if ¬w.connected then
      ({ w.addChatMessage (utf8 "시스템")
          (utf8 "서버에 연결되지 않았습니다. 메시지를 전송할 수 없습니다.") clock with
        chatInputText := [] }, none)
    else ({ w with chatInputText := [] }, some w.chatInputText)

end ChatWindow

/-! ### The side table -/

/-- The positions in the side table are positions in the list. -/
def InRange (w : ChatWindow) : Prop :=
  ∀ cid i, w.pendingIndex cid = some i → i < w.chatMessages.length

variable {fmt : Int64 → Str} {w : ChatWindow}

lemma InRange.addChatMessage (h : InRange w) (sender message : Str) (clock : Clock) :
    InRange (w.addChatMessage sender message clock) := by
  intro cid i hi
  have hlt : i < w.chatMessages.length := h cid i hi
  simp only [ChatWindow.addChatMessage]
  split_ifs <;> simp only [List.length_tail, length_sortMessagesByServerOrder, List.length_append,
    List.length_singleton] <;> omega

lemma InRange.addLocalPendingMessage (h : InRange w) (sender message : Str) (cid : UInt64)
    (clock : Clock) : InRange (w.addLocalPendingMessage sender message cid clock) := by
  intro cid' i hi
  simp only [ChatWindow.addLocalPendingMessage, Function.update_apply] at hi
  simp only [ChatWindow.addLocalPendingMessage, List.length_append, List.length_singleton]
  split_ifs at hi
  · cases hi
    omega
  · have := h cid' i hi
    omega

lemma InRange.addAuthoritativeMessage (h : InRange w) (sender content : Str) (smid : UInt64)
    (ms : Int64) (cid : UInt64) :
    InRange (w.addAuthoritativeMessage fmt sender content smid ms cid) := by
  intro cid' i hi
  have hlt : i < w.chatMessages.length := h cid' i hi
  simp only [ChatWindow.addAuthoritativeMessage, length_sortMessagesByServerOrder,
    List.length_append, List.length_singleton]
  omega

lemma ackPendingMessage_chatMessages {w' : ChatWindow} {cid : UInt64} {sender content : Str}
    {smid : UInt64} {ms : Int64}
    (h : w.ackPendingMessage fmt cid sender content smid ms = some (w', true)) :
    ∃ (i : ℕ) (msg : ChatMessage), w'.chatMessages = sortMessagesByServerOrder
      (w.chatMessages.set i (msg.confirm fmt sender content smid ms)) := by
  unfold ChatWindow.ackPendingMessage at h
  split at h
  · cases h
  · obtain ⟨msg, -, heq⟩ := Option.map_eq_some_iff.mp h
    cases heq
    exact ⟨_, msg, rfl⟩

variable (fmt) in
/-- An acknowledgement succeeds exactly for the ids in the side table, and takes the id out. -/
lemma InRange.ackPendingMessage (h : InRange w) (cid : UInt64) (sender content : Str)
    (smid : UInt64) (ms : Int64) :
    (w.pendingIndex cid = none ∧
      w.ackPendingMessage fmt cid sender content smid ms = some (w, false)) ∨
    (w.pendingIndex cid ≠ none ∧
      ∃ w', w.ackPendingMessage fmt cid sender content smid ms = some (w', true) ∧
        InRange w' ∧ w'.pendingIndex = Function.update w.pendingIndex cid none) := by
  cases hi : w.pendingIndex cid with
  | none => exact .inl ⟨rfl, by simp [ChatWindow.ackPendingMessage, hi]⟩
  | some i =>
    have hlt := h cid i hi
    refine .inr ⟨by simp, _, by
      simp only [ChatWindow.ackPendingMessage, hi, List.getElem?_eq_getElem hlt, Option.map_some]
      rfl, fun cid' j hj => ?_, rfl⟩
    simp only [Function.update_apply] at hj
    split_ifs at hj
    simpa using h cid' j hj

end ByteborneWorld.ChatWindowModel

import ByteborneWorld.GameClientModel
import ByteborneWorld.SendModel
import ByteborneWorld.SessionRun

/-!
The game client with its sessions: the main thread handles the events of the service and of the
sessions, dispatches messages and sends, beside the I/O threads of the sessions.

The order of the events is left open: any event may be the next one, for any session id.
-/

namespace ByteborneWorld.ClientModel

open ByteborneWorld.ChatProto ByteborneWorld.ChatWindowModel ByteborneWorld.GameClientModel
open ByteborneWorld.PacketModel ByteborneWorld.SendModel ByteborneWorld.SessionModel
open ByteborneWorld.SessionRun

/-- Where the main thread stands. -/
inductive At
  /-- between two events -/
  | outside
  /-- inside `handleSessionEvent(SessionReceiveEvent)` -/
  | receiving (i : ℕ) (pc : Pc)
  /-- in `SessionManager::send`, before `Session::send` reads the flag -/
  | sending (chunk : SendBufferChunk) (i : ℕ)
  /-- in `Session::send`, before the post -/
  | posting (chunk : SendBufferChunk) (i : ℕ)
  deriving DecidableEq

/-- Sessions are numbered from 1; those not created yet are as new ones. -/
structure Client where
  game : GameClient
  pc : At
  session : ℕ → Session SendBufferChunk
  nextSessionId : ℕ
  messageQueue : MessageQueue
  sendBuffers : SendBufferManager

/-- A session on the socket of a connection, after `start`. -/
def startedSession (socketOpen : Bool) : Session SendBufferChunk :=
  { (Session.new.start.1.post .asyncRead) with socketOpen := socketOpen }

inductive Act
  /-- the events of the service; the socket of a connection comes with the event -/
  | serviceConnect (socketOpen : Bool) (clock : Clock)
  | serviceClose (clock : Clock)
  /-- the events of the sessions -/
  | sessionReceive (i : ℕ)
  | sessionClose (i : ℕ) (clock : Clock)
  /-- one turn of the loop of `processMessages` -/
  | dispatch
  /-- the chat window calls back -/
  | sendChatMessage (message : Str) (clock : Clock)
  /-- the main thread goes on where it stands -/
  | next
  /-- something goes on beside the main thread in a session -/
  | io (i : ℕ) (a : IoAct SendBufferChunk)

namespace Client

variable (c : Client)

def new (clock₁ clock₂ clock₃ : Clock) : Client :=
  ⟨GameClient.new clock₁ clock₂ clock₃, .outside, fun _ => .new, 1, [], .new⟩

def start : Client := { c with game := c.game.start }

/-! ### Sending -/

/-- The result of `SessionManager::send`: there is a session with the id, and it is running. -/
def send (sessionId : ℕ) : Bool :=
  sessionId ∈ c.game.sessionManager ∧ (c.session sessionId).running

/-- The message as it goes to the server. -/
def chat (message : Str) (clock : Clock) : C2SChat :=
  ⟨c.game.chatWindow.usernameText, message, c.game.nextClientMessageId, clock.nowMs⟩

/-- The client afterwards, and the chunk that `Session::send` is called with; `none` when the
packet does not fit a send buffer. -/
def sendChatMessage (pb : Protobuf) (message : Str) (clock : Clock) :
    Option (Client × Option SendBufferChunk) :=
  if ¬c.game.connected ∨ c.game.serverSessionId = 0 then some (c, none)
  else
    let clientMessageId := c.game.nextClientMessageId
    let username := c.game.chatWindow.usernameText
    let game := { c.game with
      nextClientMessageId := clientMessageId + 1
      chatWindow := c.game.chatWindow.addLocalPendingMessage (username ++ utf8 " (나)") message
        clientMessageId clock }
    (serializeToSendBuffer pb c.sendBuffers (.c2sChat (c.chat message clock))).map
      fun (sendBuffers, chunk) => ({ c with game := game, sendBuffers := sendBuffers },
        if c.send c.game.serverSessionId then some chunk else none)

/-- Chat is sent as `GameClient.sendChatMessage` says, when the packet fits. -/
lemma sendChatMessage_game {pb : Protobuf} {message : Str} {clock : Clock} {c c' : Client}
    {handed : Option SendBufferChunk} (h : c.sendChatMessage pb message clock = some (c', handed)) :
    c.game.sendChatMessage message clock (c.session c.game.serverSessionId).running =
      (c'.game, handed.map fun _ => c.chat message clock) := by
  unfold Client.sendChatMessage at h
  unfold GameClient.sendChatMessage
  split_ifs at h ⊢ with hearly hsend hsend hsend
  · cases h
    rfl
  all_goals
    obtain ⟨_, -, heq⟩ := Option.map_eq_some_iff.mp h
    cases heq
    simp_all [Client.send, Client.chat]

/-! ### The handlers of the main thread -/

/-- `handleServiceEvent(ServiceConnectEvent)`. -/
def handleServiceConnect (socketOpen : Bool) (clock : Clock) : Client :=
  if c.game.running then
    { c with
      game := c.game.handleServiceConnect c.nextSessionId clock
      session := Function.update c.session c.nextSessionId (startedSession socketOpen)
      nextSessionId := c.nextSessionId + 1 }
  else c

/-- `handleSessionEvent(SessionReceiveEvent)`, up to the loop. -/
def handleSessionReceive (i : ℕ) : Client :=
  if c.game.running then
    match findSession .GameClient (i ∈ c.game.sessionManager) with
    | .outside => c
    | pc => { c with pc := .receiving i pc }
  else c

/-- Only chat messages have a handler, which takes the message for one of its class. -/
def dispatch (build : Build) (formatTimestampFromMs : Int64 → Str) (entry : MessageQueueEntry) :
    Option Client :=
  let popped := { c with messageQueue := c.messageQueue.tail }
  match entry.messageType with
  | .s2cChat =>
    match entry.message with
    | .s2cChat message => (c.game.handleMessage formatTimestampFromMs message).map fun game =>
        { popped with game := game }
    | .c2sChat _ => none
  | _ => if build = .Debug then none else some popped

/-- The next step of the main thread inside a handler. -/
def next (build : Build) (pb : Protobuf) : Option Client :=
  match c.pc with
  | .outside => none
  | .receiving i pc =>
    let d := Drain.step build pb i ⟨pc, c.session i, c.messageQueue⟩
    some { c with
      pc := if d.pc = .outside then .outside else .receiving i d.pc
      session := Function.update c.session i d.session
      messageQueue := d.queue }
  | .sending chunk i =>
    some { c with
      pc := if ((c.session i).send chunk).isSome then .posting chunk i else .outside }
  | .posting chunk i =>
    some { c with
      pc := .outside
      session := Function.update c.session i ((c.session i).post (.send chunk)) }

/-- A step beside the main thread in a session that was created. No thread but the main thread
sends. -/
def ioStep (i : ℕ) (a : IoAct SendBufferChunk) : Option Client :=
  match a with
  | .send _ => none
  | a =>
    if 1 ≤ i ∧ i < c.nextSessionId then
      ((c.session i).ioStep a).map fun (s, _) =>
        { c with session := Function.update c.session i s }
    else none

/-- What the main thread does between two events. There is one connection at most. -/
def handle (build : Build) (pb : Protobuf) (formatTimestampFromMs : Int64 → Str) :
    Act → Option Client
  | .serviceConnect socketOpen clock =>
    if c.nextSessionId = 1 then some (c.handleServiceConnect socketOpen clock) else none
  | .serviceClose clock => some { c with game := c.game.handleServiceClose clock }
  | .sessionReceive i => some (c.handleSessionReceive i)
  | .sessionClose i clock => some { c with game := c.game.handleSessionClose i clock }
  | .dispatch =>
    match c.game.running, c.messageQueue with
    | true, entry :: _ => c.dispatch build formatTimestampFromMs entry
    | _, _ => none
  | .sendChatMessage message clock =>
    (c.sendChatMessage pb message clock).map fun (c', handed) =>
      match handed with
      | some chunk => { c' with pc := .sending chunk c.game.serverSessionId }
      | none => c'
  | .next | .io _ _ => none

end Client

def step (build : Build) (pb : Protobuf) (formatTimestampFromMs : Int64 → Str) (c : Client) :
    Act → Option Client
  | .next => c.next build pb
  | .io i a => c.ioStep i a
  | a => if c.pc = .outside then c.handle build pb formatTimestampFromMs a else none

/-! ### What a step does to the connection -/

/-- The parts of the client that tell whether it is connected. -/
structure Status where
  connected : Bool
  serverSessionId : ℕ
  windowConnected : Bool
  sessionManager : Finset ℕ

def Client.status (c : Client) : Status :=
  ⟨c.game.connected, c.game.serverSessionId, c.game.chatWindow.connected, c.game.sessionManager⟩

namespace Status

variable (s : Status)

def connect (i : ℕ) : Status := ⟨true, i, true, insert i s.sessionManager⟩

def close : Status := ⟨false, 0, false, s.sessionManager⟩

def closeSession (i : ℕ) : Status :=
  if i = s.serverSessionId then ⟨false, 0, false, s.sessionManager.erase i⟩
  else { s with sessionManager := s.sessionManager.erase i }

/-- What becomes of it, when the next session has the id `sessionId`. -/
def after (sessionId : ℕ) : Act → Status
  | .serviceConnect _ _ => s.connect sessionId
  | .serviceClose _ => s.close
  | .sessionClose i _ => s.closeSession i
  | .sessionReceive _ | .dispatch | .sendChatMessage _ _ | .next | .io _ _ => s

end Status

section Status

variable {build : Build} {pb : Protobuf} {fmt : Int64 → Str} {c c' : Client}

lemma handleMessage_frame {g g' : GameClient} {m : S2CChat} (h : g.handleMessage fmt m = some g') :
    g'.chatWindow.connected = g.chatWindow.connected ∧
      g' = { g with chatWindow := g'.chatWindow } := by
  obtain ⟨⟨w, acknowledged⟩, ht, rfl⟩ := Option.map_eq_some_iff.mp h
  have hw : w.connected = g.chatWindow.connected := by
    unfold GameClient.tryAck ChatWindow.ackPendingMessage at ht
    split_ifs at ht
    · split at ht
      · cases ht; rfl
      · obtain ⟨_, -, heq⟩ := Option.map_eq_some_iff.mp ht
        cases heq; rfl
    · cases ht; rfl
  dsimp only
  split_ifs <;> exact ⟨hw, rfl⟩

/-- What a step leaves as it is, whatever happens to the connection. -/
structure Keeps (c c' : Client) : Prop where
  status : c'.status = c.status
  running : c'.game.running = c.game.running
  next : c'.nextSessionId = c.nextSessionId

lemma keeps_sendChatMessage {message : Str} {clock : Clock} {handed : Option SendBufferChunk}
    (h : c.sendChatMessage pb message clock = some (c', handed)) : Keeps c c' := by
  unfold Client.sendChatMessage at h
  split at h
  · cases h; exact ⟨rfl, rfl, rfl⟩
  · obtain ⟨_, -, heq⟩ := Option.map_eq_some_iff.mp h
    cases heq; exact ⟨rfl, rfl, rfl⟩

lemma keeps_handleSessionReceive (c : Client) (i : ℕ) : Keeps c (c.handleSessionReceive i) := by
  unfold Client.handleSessionReceive
  split_ifs
  · split <;> exact ⟨rfl, rfl, rfl⟩
  · exact ⟨rfl, rfl, rfl⟩

lemma keeps_dispatch {entry : MessageQueueEntry} (h : c.dispatch build fmt entry = some c') :
    Keeps c c' := by
  unfold Client.dispatch at h
  split at h
  · split at h
    · obtain ⟨g, hg, rfl⟩ := Option.map_eq_some_iff.mp h
      obtain ⟨hw, hg⟩ := handleMessage_frame hg
      rw [hg]
      exact ⟨by simp only [Client.status, hw], rfl, rfl⟩
    · cases h
  · split_ifs at h
    cases h; exact ⟨rfl, rfl, rfl⟩

lemma keeps_next (h : c.next build pb = some c') : Keeps c c' := by
  unfold Client.next at h
  split at h <;> cases h <;> exact ⟨rfl, rfl, rfl⟩

lemma keeps_ioStep {i : ℕ} {a : IoAct SendBufferChunk} (h : c.ioStep i a = some c') :
    Keeps c c' := by
  unfold Client.ioStep at h
  split at h
  · cases h
  · split_ifs at h
    obtain ⟨_, -, rfl⟩ := Option.map_eq_some_iff.mp h
    exact ⟨rfl, rfl, rfl⟩

lemma step_cases {a : Act} (hs : step build pb fmt c a = some c') :
    (c.pc = .outside ∧ c.handle build pb fmt a = some c') ∨
    (a = .next ∧ c.next build pb = some c') ∨ ∃ i b, a = .io i b ∧ c.ioStep i b = some c' := by
  cases a with
  | next => exact .inr (.inl ⟨rfl, hs⟩)
  | io i b => exact .inr (.inr ⟨i, b, rfl, hs⟩)
  | serviceConnect | serviceClose | sessionReceive | sessionClose | dispatch | sendChatMessage =>
    simp only [step, Option.ite_none_right_eq_some] at hs
    exact .inl hs

/-- **What a step of a running client does to its status.** -/
theorem step_status {a : Act} (hr : c.game.running = true) (hs : step build pb fmt c a = some c') :
    c'.status = c.status.after c.nextSessionId a ∧ c'.game.running = true ∧
      c'.nextSessionId = c.nextSessionId + (match a with | .serviceConnect _ _ => 1 | _ => 0) := by
  have keep (h : Keeps c c') : c'.status = c.status ∧ c'.game.running = true ∧
      c'.nextSessionId = c.nextSessionId + 0 := ⟨h.status, h.running.trans hr, h.next⟩
  rcases step_cases hs with ⟨-, hs⟩ | ⟨rfl, hs⟩ | ⟨i, b, rfl, hs⟩
  · cases a with
    | serviceConnect socketOpen clock =>
      obtain ⟨-, hs⟩ := Option.ite_none_right_eq_some.mp hs
      cases hs
      unfold Client.handleServiceConnect GameClient.handleServiceConnect
      simp only [if_pos hr]
      exact ⟨rfl, hr, trivial⟩
    | serviceClose clock =>
      cases hs
      exact ⟨rfl, hr, rfl⟩
    | sessionClose i clock =>
      cases hs
      unfold GameClient.handleSessionClose
      simp only [Status.after, Status.closeSession]
      split_ifs with hi h2 h2
      · exact ⟨rfl, hr, rfl⟩
      · exact absurd hi h2
      · exact absurd h2 hi
      · exact ⟨rfl, hr, rfl⟩
    | sessionReceive i =>
      cases hs
      exact keep (keeps_handleSessionReceive c i)
    | dispatch =>
      simp only [Client.handle] at hs
      split at hs
      · exact keep (keeps_dispatch hs)
      · cases hs
    | sendChatMessage message clock =>
      obtain ⟨⟨c₁, handed⟩, hsend, heq⟩ := Option.map_eq_some_iff.mp hs
      have h₁ := keeps_sendChatMessage hsend
      cases handed with
      | none => cases heq; exact keep h₁
      | some chunk => cases heq; exact keep ⟨h₁.status, h₁.running, h₁.next⟩
    | next | io => cases hs
  · exact keep (keeps_next hs)
  · exact keep (keeps_ioStep hs)

end Status

end ByteborneWorld.ClientModel

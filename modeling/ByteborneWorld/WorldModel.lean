import ByteborneWorld.ChatRoomModel
import ByteborneWorld.SendModel
import ByteborneWorld.SessionRun

/-!
The world server: the main thread with its loop, its queues and its sessions, beside the I/O
threads of the sessions and of the service.
-/

namespace ByteborneWorld.WorldModel

open ByteborneWorld.ChatProto ByteborneWorld.PacketModel ByteborneWorld.SendModel
open ByteborneWorld.ChatRoomModel ByteborneWorld.SessionModel ByteborneWorld.SessionRun

/-- What a session puts on its send queue. -/
abbrev Chunk := SendBufferChunk

inductive ServiceEvent
  | close
  | accept
  deriving DecidableEq

/-- Where the main thread stands. -/
inductive At
  /-- the head of the loop -/
  | loop
  | serviceEvents
  /-- between the two halves of a session's `start` -/
  | starting (i : ℕ)
  | sessionEvents
  /-- inside `handleSessionEvent(SessionReceiveEvent)` -/
  | receiving (i : ℕ) (pc : Pc)
  | messages
  /-- in the loop of `handleChat` over the active sessions -/
  | broadcast (chunk : Chunk) (rest : List ℕ)
  /-- in `SessionManager::send`, before `Session::send` reads the flag -/
  | sending (chunk : Chunk) (i : ℕ) (rest : List ℕ)
  /-- in `Session::send`, before the post -/
  | posting (chunk : Chunk) (i : ℕ) (rest : List ℕ)
  /-- in the loop of `stopAllSessions` -/
  | closing (rest : List ℕ)
  /-- before `isEmpty` in the loop of `close` -/
  | waiting
  | waitEvents
  | closed
  deriving DecidableEq

/-- A dispatched chat message and what was made of it. -/
structure Sent where
  entry : MessageQueueEntry
  response : S2CChat
  chunk : Chunk

/-- What has happened so far; no step looks at it. -/
structure History where
  /-- the responses, in order -/
  log : List Sent
  /-- the entries taken from the message queue -/
  popped : List MessageQueueEntry
  /-- the events taken from the session event queue -/
  handled : List (ℕ × SessionEvent)
  /-- the length of the log when a session was accepted -/
  acceptedAt : ℕ → ℕ
  /-- how many responses had been offered to a session when it was stopped -/
  stoppedAt : ℕ → ℕ
  /-- the chunks put on the send queue of a session -/
  put : ℕ → List Chunk

/-- Sessions are numbered from 1; those not created yet are as new ones. -/
structure World where
  running : Bool
  pc : At
  session : ℕ → Session Chunk
  nextSessionId : ℕ
  manager : Finset ℕ
  serviceEvents : List ServiceEvent
  sessionEvents : List (ℕ × SessionEvent)
  messageQueue : MessageQueue
  sendBuffers : SendBufferManager
  room : ChatRoom
  history : History

inductive Act
  /-- the main thread makes its next step; the clock says `nowMs`, and an unordered container
  is gone through in `order` -/
  | main (nowMs : Int64) (order : List ℕ)
  /-- something goes on beside the main thread in a session -/
  | io (i : ℕ) (a : IoAct Chunk)
  /-- the service pushes an event -/
  | service (e : ServiceEvent)
  /-- any thread calls `stop` -/
  | stop

def init : World where
  running := true
  pc := .loop
  session _ := .new
  nextSessionId := 1
  manager := ∅
  serviceEvents := []
  sessionEvents := []
  messageQueue := []
  sendBuffers := .new
  room := .new
  history := ⟨[], [], [], fun _ => 0, fun _ => 0, fun _ => []⟩

namespace World

variable (w : World)

/-- The main thread has made a response and not come to the session yet. -/
def unserved (i : ℕ) : Bool :=
  match w.pc with
  | .broadcast _ rest => i ∈ rest
  | .sending _ j rest => i = j ∨ i ∈ rest
  | .posting _ _ rest => i ∈ rest
  | _ => false

/-- How many of the responses have been offered to a session. -/
def offered (i : ℕ) : ℕ := w.history.log.length - if w.unserved i then 1 else 0

/-- A session changes; if that stops it, it is recorded where. -/
def setSession (i : ℕ) (s : Session Chunk) : World :=
  { w with
    session := Function.update w.session i s
    history.stoppedAt :=
      if (w.session i).running ∧ ¬s.running then
        Function.update w.history.stoppedAt i (w.offered i)
      else w.history.stoppedAt }

/-! ### The handlers of the main thread -/

/-- A new session is taken in by the manager and the room, and started. -/
def accept : World :=
  let i := w.nextSessionId
  { w with
    pc := .starting i
    session := Function.update w.session i (w.session i).start.1
    nextSessionId := i + 1
    manager := insert i w.manager
    room := w.room.onClientAccepted i
    history.acceptedAt := Function.update w.history.acceptedAt i w.history.log.length }

def handleServiceEvent : ServiceEvent → World
  | .close => { w with running := false }
  | .accept => if w.running then w.accept else w

def handleSessionEvent (i : ℕ) : SessionEvent → World
  | .close => { w with manager := w.manager.erase i, room := w.room.onClientClosed i }
  | .receive =>
    if w.running then { w with pc := .receiving i (findSession .WorldServer (i ∈ w.manager)) }
    else w

/-- The next session event; without one the main thread goes on at `next`. -/
def processSessionEvent (next : At) : World :=
  match w.sessionEvents with
  | [] => { w with pc := next }
  | (i, e) :: rest =>
    { w with sessionEvents := rest, history.handled := w.history.handled ++ [(i, e)]
      }.handleSessionEvent i e

def popMessage : World :=
  { w with
    pc := .messages
    messageQueue := w.messageQueue.tail
    history.popped := w.history.popped ++ w.messageQueue.take 1 }

/-- `handleChat` up to its loop; `none` when the response does not fit a send buffer. -/
def handleChat (pb : Protobuf) (entry : MessageQueueEntry) (message : C2SChat) (nowMs : Int64)
    (order : List ℕ) : Option World :=
  let (room, response) := w.room.respond entry.sessionId message nowMs
  (serializeToSendBuffer pb w.sendBuffers (.s2cChat response)).map fun (sendBuffers, chunk) =>
    { w with
      pc := .broadcast chunk order
      room := room
      sendBuffers := sendBuffers
      history.log := w.history.log ++ [⟨entry, response, chunk⟩] }

/-- Only chat messages have a handler, which takes the message for one of its class. -/
def dispatch (build : Build) (pb : Protobuf) (entry : MessageQueueEntry) (nowMs : Int64)
    (order : List ℕ) : Option World :=
  match entry.messageType with
  | .c2sChat =>
    match entry.message with
    | .c2sChat message =>
      if order.Nodup ∧ order.toFinset = w.room.activeSessions then
        w.handleChat pb entry message nowMs order
      else none
    | .s2cChat _ => none
  | _ => if build = .Debug then none else some w.popMessage

/-- The next step of the main thread. -/
def mainStep (build : Build) (pb : Protobuf) (nowMs : Int64) (order : List ℕ) : Option World :=
  match w.pc with
  | .loop =>
    if w.running then some { w with pc := .serviceEvents }
    else if order.Nodup ∧ order.toFinset = w.manager then some { w with pc := .closing order }
    else none
  | .serviceEvents =>
    match w.serviceEvents with
    | [] => some { w with pc := .sessionEvents }
    | e :: rest => some ({ w with serviceEvents := rest }.handleServiceEvent e)
  | .starting i =>
    some { w with
      pc := .serviceEvents
      session := Function.update w.session i ((w.session i).post .asyncRead) }
  | .sessionEvents => some (w.processSessionEvent .messages)
  | .receiving i pc =>
    let d := Drain.step build pb i ⟨pc, w.session i, w.messageQueue⟩
    some { w with
      pc := if d.pc = .outside then .sessionEvents else .receiving i d.pc
      session := Function.update w.session i d.session
      messageQueue := d.queue }
  | .messages =>
    match w.running, w.messageQueue with
    | true, entry :: _ => w.dispatch build pb entry nowMs order
    | _, _ => some { w with pc := .loop }
  | .broadcast _ [] => some w.popMessage
  | .broadcast chunk (i :: rest) =>
    if i ∈ w.manager ∧ (w.session i).running then some { w with pc := .sending chunk i rest }
    else some { w with pc := .broadcast chunk rest }
  | .sending chunk i rest =>
    if ((w.session i).send chunk).isSome then some { w with pc := .posting chunk i rest }
    else some { w with pc := .broadcast chunk rest }
  | .posting chunk i rest =>
    some { w with
      pc := .broadcast chunk rest
      session := Function.update w.session i ((w.session i).post (.send chunk)) }
  | .closing [] => some { w with pc := .waiting }
  | .closing (i :: rest) =>
    let (s, h) := (w.session i).stop
    some { w.setSession i (s.aboutTo h) with pc := .closing rest }
  | .waiting => some { w with pc := if w.manager = ∅ then .closed else .waitEvents }
  | .waitEvents => some (w.processSessionEvent .waiting)
  | .closed => none

/-- A step beside the main thread in a session that was created. No thread but the main thread
sends. -/
def ioStep (i : ℕ) (a : IoAct Chunk) : Option World :=
  match a with
  | .send _ => none
  | a =>
    if 1 ≤ i ∧ i < w.nextSessionId then
      ((w.session i).ioStep a).map fun (s, pushed) =>
        { w.setSession i s with
          sessionEvents := w.sessionEvents ++ pushed.map (i, ·)
          history.put := Function.update w.history.put i
            (w.history.put i ++ putBy (w.session i) a) }
    else none

end World

def step (build : Build) (pb : Protobuf) (w : World) : Act → Option World
  | .main nowMs order => w.mainStep build pb nowMs order
  | .io i a => w.ioStep i a
  | .service e => some { w with serviceEvents := w.serviceEvents ++ [e] }
  | .stop => some { w with running := false }

end ByteborneWorld.WorldModel

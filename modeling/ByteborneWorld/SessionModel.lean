import ByteborneWorld.RecvModel
import ByteborneWorld.PacketModel

/-!
A session: the flag, the socket's outstanding operations, the strand with its handlers, and
the two buffers. The handlers of a strand run one at a time, in the order they were queued.

A method that any thread may call reads or exchanges the flag first and posts its handler
afterwards; other threads can step in between, so the two halves are separate here.
-/

namespace ByteborneWorld.SessionModel

open ByteborneWorld.RecvModel ByteborneWorld.PacketModel

inductive ErrorCode
  | operation_aborted
  | connection_reset
  | connection_aborted
  | timed_out
  | not_connected
  | eof
  | bad_descriptor
  | other (value : ℤ)
  deriving DecidableEq

/-- What a completion handler is given: an error, or a number of bytes. -/
abbrev Result := Except ErrorCode ℕ

/-- What is queued on the strand. -/
inductive Handler (κ : Type*)
  | asyncRead
  | send (chunk : κ)
  | close
  | onRead (result : Result)
  | onWritten (result : Result)
  deriving DecidableEq

/-- A read into the region that was free when it was started. Once completed it keeps its
result, whatever happens to the socket, until its handler is queued. -/
inductive ReadOp
  | pending (offset size : ℕ)
  | completed (result : Result)
  deriving DecidableEq

/-- A write of the chunk that was at the front of the send queue; `none` for the front of an
empty queue. -/
inductive WriteOp (κ : Type*)
  | pending (chunk : Option κ)
  | completed (result : Result)
  deriving DecidableEq

inductive SessionEvent
  | receive
  | close
  deriving DecidableEq

/-- `posting` holds the handlers that other threads are about to post. -/
structure Session (κ : Type*) where
  running : Bool
  socketOpen : Bool
  strand : List (Handler κ)
  posting : List (Handler κ)
  sendQueue : List κ
  receiveBuffer : ReceiveBuffer
  reads : List ReadOp
  writes : List (WriteOp κ)

def ReadOp.cancel : ReadOp → ReadOp
  | .pending _ _ => .completed (.error .operation_aborted)
  | .completed r => .completed r

def WriteOp.cancel {κ : Type*} : WriteOp κ → WriteOp κ
  | .pending _ => .completed (.error .operation_aborted)
  | .completed r => .completed r

/-- The second assertion of `ReceiveBuffer::onRead`, which a debug build checks: no more than the
nominal size is read. -/
def Nominal (build : Build) (size bytesRead : ℕ) : Prop := build = .Debug → bytesRead ≤ size

instance (build : Build) (size bytesRead : ℕ) : Decidable (Nominal build size bytesRead) :=
  inferInstanceAs (Decidable (build = .Debug → bytesRead ≤ size))

lemma nominal_release (size bytesRead : ℕ) : Nominal .Release size bytesRead := nofun

namespace Session

variable {κ : Type*} (s : Session κ)

/-- A session made on an open socket. -/
def new : Session κ := ⟨false, true, [], [], [], .new DefaultSize, [], []⟩

def post (h : Handler κ) : Session κ := { s with strand := s.strand ++ [h] }

/-! ### The methods any thread may call

Each is its first half: the flag, and the handler that the caller posts next. -/

def start : Session κ × Option (Handler κ) :=
  if s.running then (s, none) else ({ s with running := true }, some .asyncRead)

def stop : Session κ × Option (Handler κ) :=
  if s.running then ({ s with running := false }, some .close) else (s, none)

def receive : Option (Handler κ) := if s.running then some .asyncRead else none

def send (chunk : κ) : Option (Handler κ) := if s.running then some (.send chunk) else none

/-! ### The front packet -/

def getFrontPacket : Option PacketView :=
  if s.receiveBuffer.getUnreadSize < headerSize then none
  else
    let view := PacketView.of s.receiveBuffer.unread
    if s.receiveBuffer.getUnreadSize < view.size then none else some view

/-- `none` when an assertion fails: the packet is longer than the unread bytes or, in a debug
build, than the nominal size of the buffer. -/
def popFrontPacket (build : Build) : Option (Session κ) :=
  if s.running then
    if h : (PacketView.of s.receiveBuffer.unread).size ≤ s.receiveBuffer.getUnreadSize ∧
        Nominal build s.receiveBuffer.size (PacketView.of s.receiveBuffer.unread).size then
      some { s with receiveBuffer := s.receiveBuffer.onRead _ h.1 }
    else none
  else some s

/-! ### What runs on the strand -/

/-- `stop` called from a handler: nothing else of the strand runs before it has posted. -/
def stopHere : Session κ :=
  match s.stop with
  | (s, some h) => s.post h
  | (s, none) => s

def handleError : ErrorCode → Session κ
  | .operation_aborted => s
  | _ => s.stopHere

def asyncRead : Session κ :=
  if s.running then
    { s with reads := s.reads ++ [
        if s.socketOpen then
          .pending s.receiveBuffer.writeOffset s.receiveBuffer.getUnwrittenSize
        else .completed (.error .bad_descriptor)] }
  else s

/-- `none` when more bytes are reported than there is room for. -/
def onRead : Result → Option (Session κ × List SessionEvent)
  | .error e => some (s.handleError e, [])
  | .ok bytesRead =>
    if h : bytesRead ≤ s.receiveBuffer.getUnwrittenSize then
      some ({ s with receiveBuffer := s.receiveBuffer.onWritten bytesRead h }, [.receive])
    else none

def asyncWrite : Session κ :=
  if s.running then
    { s with writes := s.writes ++ [
        if s.socketOpen then .pending s.sendQueue.head?
        else .completed (.error .bad_descriptor)] }
  else s

/-- The handler that `send` posts. -/
def pushChunk (chunk : κ) : Session κ :=
  let writeInProgress := !s.sendQueue.isEmpty
  let s := { s with sendQueue := s.sendQueue ++ [chunk] }
  if writeInProgress then s else s.asyncWrite

def onWritten : Result → Session κ
  | .error e => s.handleError e
  | .ok _ =>
    let s := { s with sendQueue := s.sendQueue.tail }
    if s.sendQueue.isEmpty then s else s.asyncWrite

/-- The outstanding operations are cancelled; `errors` are those that cancelling, shutting
down and closing the socket report. -/
def close (errors : List ErrorCode) : Session κ :=
  let s := { s with reads := s.reads.map .cancel, writes := s.writes.map .cancel }
  let s := errors.foldl handleError s
  { s with socketOpen := false }

/-- A handler runs: the session afterwards, and the events it pushed. -/
def exec (errors : List ErrorCode) : Handler κ → Option (Session κ × List SessionEvent)
  | .asyncRead => some (s.asyncRead, [])
  | .send chunk => some (s.pushChunk chunk, [])
  | .close => some (s.close errors, [.close])
  | .onRead result => s.onRead result
  | .onWritten result => some (s.onWritten result, [])

end Session

/-! ### The I/O threads, the kernel and the other threads -/

/-- One of the things that go on beside the main thread. -/
inductive IoAct (κ : Type*)
  /-- another thread calls `stop`, up to its post -/
  | stop
  /-- another thread calls `send`, up to its post -/
  | send (chunk : κ)
  /-- another thread posts what it was about to post -/
  | post (i : ℕ)
  /-- the next handler of the strand runs -/
  | strand (errors : List ErrorCode)
  /-- a read completes, with the bytes it stored or an error -/
  | readDone (i : ℕ) (result : Except ErrorCode (List UInt8))
  /-- the handler of a completed read is queued -/
  | readQueue (i : ℕ)
  /-- a write completes -/
  | writeDone (i : ℕ) (result : Result)
  /-- the handler of a completed write is queued -/
  | writeQueue (i : ℕ)

namespace Session

variable {κ : Type*} (s : Session κ)

/-- A thread is about to post a handler. -/
def aboutTo (h : Option (Handler κ)) : Session κ :=
  { s with posting := s.posting ++ h.toList }

def doPost (i : ℕ) : Option (Session κ) :=
  s.posting[i]?.map fun h => { s with posting := s.posting.eraseIdx i }.post h

def runStrand (errors : List ErrorCode) : Option (Session κ × List SessionEvent) :=
  match s.strand with
  | [] => none
  | h :: rest => { s with strand := rest }.exec errors h

/-- A read delivers at least one byte, unless it was started with no room. -/
def readDone (i : ℕ) (result : Except ErrorCode (List UInt8)) : Option (Session κ) :=
  match s.reads[i]?, result with
  | some (.pending offset size), .ok bs =>
    if bs.length ≤ size ∧ (bs = [] → size = 0) then
      some { s with
        receiveBuffer := s.receiveBuffer.store offset bs
        reads := s.reads.set i (.completed (.ok bs.length)) }
    else none
  | some (.pending _ _), .error e =>
    some { s with reads := s.reads.set i (.completed (.error e)) }
  | _, _ => none

def readQueue (i : ℕ) : Option (Session κ) :=
  match s.reads[i]? with
  | some (.completed result) =>
    some ({ s with reads := s.reads.eraseIdx i }.post (.onRead result))
  | _ => none

def writeDone (i : ℕ) (result : Result) : Option (Session κ) :=
  match s.writes[i]? with
  | some (.pending _) => some { s with writes := s.writes.set i (.completed result) }
  | _ => none

def writeQueue (i : ℕ) : Option (Session κ) :=
  match s.writes[i]? with
  | some (.completed result) =>
    some ({ s with writes := s.writes.eraseIdx i }.post (.onWritten result))
  | _ => none

/-- One step beside the main thread, with the events it pushed. -/
def ioStep : IoAct κ → Option (Session κ × List SessionEvent)
  | .stop => some (s.stop.1.aboutTo s.stop.2, [])
  | .send chunk => some (s.aboutTo (s.send chunk), [])
  | .post i => (s.doPost i).map (·, [])
  | .strand errors => s.runStrand errors
  | .readDone i result => (s.readDone i result).map (·, [])
  | .readQueue i => (s.readQueue i).map (·, [])
  | .writeDone i result => (s.writeDone i result).map (·, [])
  | .writeQueue i => (s.writeQueue i).map (·, [])

end Session

/-! ### The main thread in `handleSessionEvent` -/

/-- Where the main thread stands: outside, at a call of the drain loop, or at one of the two
halves of `receive`. It cannot go on after a fault or a null session. -/
inductive Pc
  | outside
  | getFrontPacket
  | push (view : PacketView)
  | popFrontPacket
  | receive
  | post
  | fault (f : Fault)
  | nullSession
  deriving DecidableEq

/-- The main thread is inside `handleSessionEvent(SessionReceiveEvent)`. -/
def Pc.Inside : Pc → Prop
  | .outside => False
  | _ => True

instance : DecidablePred Pc.Inside := fun pc => by cases pc <;> unfold Pc.Inside <;> infer_instance

/-- The main thread, the session it works on, and its message queue. -/
structure Drain (κ : Type*) where
  pc : Pc
  session : Session κ
  queue : MessageQueue

/-- The next step of the main thread inside the handler. -/
def Drain.step {κ : Type*} (build : Build) (pb : ChatProto.Protobuf) (sessionId : ℕ)
    (d : Drain κ) : Drain κ :=
  match d.pc with
  | .getFrontPacket =>
    match d.session.getFrontPacket with
    | some view => { d with pc := .push view }
    | none => { d with pc := .receive }
  | .push view =>
    match push build pb d.queue sessionId view with
    | .ok queue => { d with pc := .popFrontPacket, queue := queue }
    | .error f => { d with pc := .fault f }
  | .popFrontPacket =>
    match d.session.popFrontPacket build with
    | some session => { d with pc := .getFrontPacket, session := session }
    | none => { d with pc := .fault .assertion }
  | .receive => { d with pc := if d.session.receive.isSome then .post else .outside }
  | .post => { d with pc := .outside, session := d.session.post .asyncRead }
  | .outside | .fault _ | .nullSession => d

end ByteborneWorld.SessionModel

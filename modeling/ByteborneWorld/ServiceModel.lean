import Mathlib.Data.Int.Notation
import Mathlib.Data.List.Basic

/-!
The services: a server that accepts connections, a client that makes them, and what both have
from their base class. The handlers of the strand run one at a time, in the order they were
queued; the handler of an operation that has completed may be queued any time later.

A method that any thread may call exchanges the flag first and posts its handler afterwards;
other threads can step in between, so the two halves are separate here. A failed assertion ends
the program in a debug build; here it goes on as in a release build. Left out as well: when the
peer of an accepted connection has gone already, `remote_endpoint` throws, and nothing catches it.
-/

namespace ByteborneWorld.ServiceModel

/-- The codes that one of the services has a case for, and the others. -/
inductive ErrorCode
  | operation_aborted
  | invalid_argument
  | connection_aborted
  | connection_reset
  | timed_out
  | connection_refused
  | bad_descriptor
  | host_not_found
  | service_not_found
  | network_unreachable
  | already_connected
  | other (value : ℤ)
  deriving DecidableEq

/-- An outstanding operation. Once completed, with an error or well, it keeps its result until
its handler is queued. -/
inductive AsyncOp
  | pending
  | completed (error : Option ErrorCode)
  deriving DecidableEq

def AsyncOp.cancel : AsyncOp → AsyncOp
  | .pending => .completed (some .operation_aborted)
  | .completed error => .completed error

/-- The socket of a connection: it is opened to connect, closed by the service, or moved into
an event. -/
inductive Socket
  | unopened
  | opened
  | closed
  | moved
  deriving DecidableEq

def Socket.isOpen : Socket → Bool
  | .opened => true
  | .unopened | .closed | .moved => false

inductive ServiceEvent
  | close
  | accept
  | connect (socket : Socket)
  deriving DecidableEq

/-! ### The base class -/

/-- `η` are the handlers and `ω` the operations of a service. `posting` holds the handlers that
other threads are about to post; `stopSignals` tells that a signal is waited for. -/
structure Service (η ω : Type) where
  running : Bool
  strand : List η
  posting : List η
  stopSignals : Bool
  ops : List (ω × AsyncOp)
  events : List ServiceEvent

/-- What a service of its own provides: the handlers that `start` and `stop` post, the errors
that stop it, and the handler of an operation. -/
structure Methods (η ω : Type) where
  start : η
  close : η
  stops : ErrorCode → Bool
  onDone : ω → Option ErrorCode → η

/-- What may happen next. -/
inductive Act
  /-- any thread calls `start` or `stop`, up to its post -/
  | start
  | stop
  /-- the wait for a signal ends, with an error or a signal -/
  | signal (error : Option ErrorCode)
  /-- a thread posts what it was about to post -/
  | post (i : ℕ)
  /-- the next handler of the strand runs; `errors` are those that closing reports -/
  | strand (errors : List ErrorCode)
  /-- an operation completes -/
  | done (i : ℕ) (error : Option ErrorCode)
  /-- the handler of a completed operation is queued -/
  | queue (i : ℕ)

namespace Service

variable {η ω : Type} (m : Methods η ω) (s : Service η ω)

/-- A service waits for a signal from the beginning. -/
def new : Service η ω := ⟨false, [], [], true, [], []⟩

def start : Service η ω :=
  if s.running then s else { s with running := true, posting := s.posting ++ [m.start] }

def stop : Service η ω :=
  if s.running then { s with running := false, posting := s.posting ++ [m.close] } else s

/-- `stop` called from a handler: nothing else of the strand runs before it has posted. -/
def stopHere : Service η ω :=
  if s.running then { s with running := false, strand := s.strand ++ [m.close] } else s

def handleError (error : ErrorCode) : Service η ω := if m.stops error then s.stopHere m else s

/-- The errors that closing reports, one after the other. -/
def handleErrors (errors : List ErrorCode) : Service η ω := errors.foldl (handleError m) s

/-- The handler of `asyncWaitForStopSignals`; it does not run on the strand. -/
def onStopSignal (error : Option ErrorCode) : Service η ω :=
  let s := { s with stopSignals := false }
  let s := if error.any m.stops then s.stop m else s
  s.stop m

def push (e : ServiceEvent) : Service η ω := { s with events := s.events ++ [e] }

def launch (op : ω) (state : AsyncOp) : Service η ω := { s with ops := s.ops ++ [(op, state)] }

/-- Of some operations, those that are pending are cancelled. -/
def cancel (cancels : ω → Bool) : Service η ω :=
  { s with
    ops := s.ops.map fun (op, state) => (op, if cancels op then state.cancel else state) }

def doPost (i : ℕ) : Option (Service η ω) :=
  s.posting[i]?.map fun h =>
    { s with posting := s.posting.eraseIdx i, strand := s.strand ++ [h] }

def done (i : ℕ) (error : Option ErrorCode) : Option (Service η ω) :=
  match s.ops[i]? with
  | some (op, .pending) => some { s with ops := s.ops.set i (op, .completed error) }
  | _ => none

def queue (i : ℕ) : Option (Service η ω) :=
  match s.ops[i]? with
  | some (op, .completed error) =>
    some { s with ops := s.ops.eraseIdx i, strand := s.strand ++ [m.onDone op error] }
  | _ => none

/-- A step beside the strand. -/
def ioStep : Act → Option (Service η ω)
  | .start => some (s.start m)
  | .stop => some (s.stop m)
  | .signal error => if s.stopSignals then some (s.onStopSignal m error) else none
  | .post i => s.doPost i
  | .done i error => s.done i error
  | .queue i => s.queue m i
  | .strand _ => none

end Service

/-! ### The server -/

inductive ServerHandler
  | asyncAccept
  | close
  | onAccepted (error : Option ErrorCode)
  deriving DecidableEq

inductive ServerOp
  | accept
  deriving DecidableEq

structure ServerService extends Service ServerHandler ServerOp where
  acceptorOpen : Bool

namespace ServerService

/-- The errors on which `handleError` calls `stop`. -/
def stops : ErrorCode → Bool
  | .operation_aborted | .invalid_argument | .connection_aborted | .connection_reset
  | .timed_out | .connection_refused => false
  | _ => true

def methods : Methods ServerHandler ServerOp where
  start := .asyncAccept
  close := .close
  stops := stops
  onDone _ error := .onAccepted error

def new : ServerService := { Service.new with acceptorOpen := true }

variable (s : ServerService)

def handleError (error : ErrorCode) : ServerService :=
  { s with toService := s.toService.handleError methods error }

def asyncAccept : ServerService :=
  if s.running then
    { s with
      toService := s.toService.launch .accept
        (if s.acceptorOpen then .pending else .completed (some .bad_descriptor)) }
  else s

/-- The flag is not looked at before the event is pushed. -/
def onAccepted : Option ErrorCode → ServerService
  | none => { s with toService := s.toService.push .accept }.asyncAccept
  | some error => (s.handleError error).asyncAccept

def close (errors : List ErrorCode) : ServerService :=
  let base := s.toService.cancel fun _ => s.acceptorOpen
  { s with
    toService := (base.handleErrors methods errors).push .close
    acceptorOpen := false }

def exec (errors : List ErrorCode) : ServerHandler → ServerService
  | .asyncAccept => s.asyncAccept
  | .close => s.close errors
  | .onAccepted error => s.onAccepted error

def runStrand (errors : List ErrorCode) : Option ServerService :=
  match s.strand with
  | [] => none
  | h :: rest => some ({ s with strand := rest }.exec errors h)

def step (s : ServerService) : Act → Option ServerService
  | .strand errors => s.runStrand errors
  | a => (s.toService.ioStep methods a).map fun base => { s with toService := base }

end ServerService

/-! ### The client -/

/-- `connectFrom i` is the rest of the loop in `onResolved`, which nothing on the strand
interrupts. -/
inductive ClientHandler
  | asyncResolve
  | close
  | onResolved (error : Option ErrorCode)
  | connectFrom (i : ℕ)
  | onConnected (error : Option ErrorCode) (socketIndex : ℕ)
  deriving DecidableEq

inductive ClientOp
  | resolve
  | connect (socketIndex : ℕ)
  deriving DecidableEq

structure ClientService extends Service ClientHandler ClientOp where
  sockets : List Socket

namespace ClientService

/-- The errors on which `handleError` calls `stop`. -/
def stops : ErrorCode → Bool
  | .operation_aborted => false
  | _ => true

def methods : Methods ClientHandler ClientOp where
  start := .asyncResolve
  close := .close
  stops := stops
  onDone
    | .resolve, error => .onResolved error
    | .connect socketIndex, error => .onConnected error socketIndex

def new (connectCount : ℕ) : ClientService :=
  { Service.new with sockets := .replicate connectCount .unopened }

variable (s : ClientService)

def handleError (error : ErrorCode) : ClientService :=
  { s with toService := s.toService.handleError methods error }

def asyncResolve : ClientService :=
  if s.running then { s with toService := s.toService.launch .resolve .pending } else s

/-- The socket is opened anew for each endpoint that is tried. -/
def asyncConnect (socketIndex : ℕ) : ClientService :=
  if s.running then
    { s with
      toService := s.toService.launch (.connect socketIndex) .pending
      sockets := s.sockets.set socketIndex .opened }
  else s

/-- The loop over the sockets, from the one at `i` on. -/
def connectFrom (i : ℕ) : ClientService :=
  if i < s.sockets.length then
    let s := s.asyncConnect i
    { s with strand := .connectFrom (i + 1) :: s.strand }
  else s

def onResolved : Option ErrorCode → ClientService
  | none => { s with strand := .connectFrom 0 :: s.strand }
  | some error => s.handleError error

/-- The flag is not looked at. -/
def onConnected (error : Option ErrorCode) (socketIndex : ℕ) : ClientService :=
  match error with
  | none =>
    match s.sockets[socketIndex]? with
    | some socket =>
      { s with
        toService := s.toService.push (.connect socket)
        sockets := s.sockets.set socketIndex .moved }
    | none => s
  | some error => s.handleError error

/-- The operation is one on an open socket, or it is the one of the resolver. -/
def cancels : ClientOp → Bool
  | .resolve => true
  | .connect socketIndex => (s.sockets[socketIndex]?).any Socket.isOpen

def close (errors : List ErrorCode) : ClientService :=
  let base := s.toService.cancel s.cancels
  { s with
    toService := (base.handleErrors methods errors).push .close
    sockets := s.sockets.map fun socket => if socket.isOpen then .closed else socket }

def exec (errors : List ErrorCode) : ClientHandler → ClientService
  | .asyncResolve => s.asyncResolve
  | .close => s.close errors
  | .onResolved error => s.onResolved error
  | .connectFrom i => s.connectFrom i
  | .onConnected error socketIndex => s.onConnected error socketIndex

def runStrand (errors : List ErrorCode) : Option ClientService :=
  match s.strand with
  | [] => none
  | h :: rest => some ({ s with strand := rest }.exec errors h)

def step (s : ClientService) : Act → Option ClientService
  | .strand errors => s.runStrand errors
  | a => (s.toService.ioStep methods a).map fun base => { s with toService := base }

end ClientService

end ByteborneWorld.ServiceModel

import Dagger.Session

/-! # `FreeServerClient`

The connections of `src/FreeServerClient.h` in the default build: those that `acceptCallback`
makes for a server port, and those of `createClientConn`.  One `closeConnection` closes both and
invokes the callback it is passed: the read callbacks pass the one they have captured,
`activeClose` passes the connection's own `destoryCallback_`, which only a port sets. -/

namespace Dagger

open TcpConnection

/-- What `createServerPort` or `createClientConn` is given. -/
structure FreeServerClient where
  codec : ValidBuffer IO_BUFFER_SIZE → Bool × ValidBuffer IO_BUFFER_SIZE
  /-- `establishedCallback` is set, and so on. -/
  establishedCallback : Bool
  messageCallback : Bool
  destoryCallback : Bool
  errorCallback : Bool

namespace FreeServerClient

variable (free : FreeServerClient)

def closeConnection (destoryCallback : Bool) (c : TcpConnection) : Option TcpConnection :=
  c.closeWith destoryCallback true

/-! ### Server ports -/

/-- `if (codec.check(connection)) messageCallback(connection);`: a callback that is not set
throws. -/
def check (c : TcpConnection) : Option (TcpConnection × Control) :=
  let (c, control) := c.checkMsg free.codec
  if control = .connMsgCallback ∧ free.messageCallback = false then none else some (c, control)

/-- The read callback that `acceptCallback` sets; what follows the error callback is left to
`callbackReturned`. -/
def bindCallback (script : List ReadResult) (c : TcpConnection) :
    Option (TcpConnection × Control) := do
  let (readBuffer, n) ← c.readBuffer.readFromSocket script 4096
  let c := { c with readBuffer }
  if n = 0 then
    let c ← closeConnection free.destoryCallback c
    some (c, .loop)
  else if n < 0 then
    if free.errorCallback then some (c.log .connErrorCallback, .connErrorCallback) else none
  else free.check c

/-- A read error does not return: after the error callback the codec is consulted as after any
other read. -/
def portSource : TcpSource where
  closeConnection _ := closeConnection
  preConnMsgCallback _ _ := free.bindCallback
  connectCallback _ _ _ := none
  callbackReturned _
    | .connErrorCallback, c => (free.check c).map Prod.fst
    | _, c => some c

/-- The connection that `acceptCallback` hands to its loop. -/
def accepted (l : LoopId) : TcpConnection where
  destoryCallback := free.destoryCallback
  event := (Event.setReadCallback {} .preConnMsgCallback).setReadable true
  loop := l

/-- Runs of a connection that a server port has accepted. -/
def portRuns (l : LoopId) : Transition.System Session Action :=
  Session.system free.portSource l (fun s => s = { conn := free.accepted l })

/-! ### Client connections -/

/-- The read callback that `createClientConn` sets. -/
def preConnMsgCallback (script : List ReadResult) (c : TcpConnection) :
    Option (TcpConnection × Control) := do
  let (readBuffer, n) ← c.readBuffer.readFromSocket script 4096
  let c := { c with readBuffer }
  if n = 0 then
    let c ← closeConnection free.destoryCallback c
    some (c, .loop)
  else if n < 0 then
    if free.errorCallback then some (c.log .connErrorCallback, .connErrorCallback)
    else some (c, .loop)
  else if free.messageCallback then some (c.checkMsg free.codec)
  else some (c, .loop)

/-- The end of `createClientConn`, after `establishedCallback`. -/
def startReading (c : TcpConnection) : TcpConnection :=
  { c with event := (c.event.setReadCallback .preConnMsgCallback).setReadable true }

def clientSource : TcpSource where
  closeConnection _ := closeConnection
  preConnMsgCallback _ _ := free.preConnMsgCallback
  connectCallback _ _ _ := none
  callbackReturned _
    | .connEstaCallback, c => some (startReading c)
    | _, c => some c

/-- Where `createClientConn` leaves the connection to the user for the first time, once the
blocking `connect` has returned. -/
def created (l : LoopId) : Session :=
  if free.establishedCallback then
    { conn := log { loop := l } .connEstaCallback, control := .connEstaCallback }
  else { conn := startReading { loop := l } }

/-- Runs of a connection that `createClientConn` makes; a `connect` that failed is only logged. -/
def clientRuns (l : LoopId) : Transition.System Session Action :=
  Session.system free.clientSource l (fun s =>
    ∃ attempt : Attempt, attempt ≠ .pending ∧ s = { free.created l with attempt })

end FreeServerClient

end Dagger

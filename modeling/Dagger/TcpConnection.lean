import Dagger.BufferSpec
import Dagger.Event

/-! # `TcpConnection`

The connection object of `src/TcpConnection.h`, the virtual interface `TcpSource` through
which it is closed, and the operations that `TcpServer` and `TcpClient` build on.  An
operation is `none` where an assertion fails.

The record carries its history after the fields of the source: the payloads of `send`, the
bytes handed to the socket, the user callbacks and close requests in order, and how often
the connection was destroyed (which frees its `Event`) and deleted. -/

namespace Dagger

/-- `EventLoop *`; each loop runs on a thread of its own, so it also names that thread. -/
abbrev LoopId := ℕ

abbrev IO_BUFFER_SIZE : ℕ := 8192

inductive State where
  | BLANK
  | ESTABLISHED
  | WILL_CLOSED
  | CLOSED
deriving DecidableEq, Repr

/-- What is stored in the callback slots of a connection's event. -/
inductive Callback where
  | preConnMsgCallback
  | sendNonblock
  | connectCallback
deriving DecidableEq, Repr

/-- Invocations of user callbacks, and entries of `closeConnection`. -/
inductive Call where
  | connEstaCallback
  | connMsgCallback
  | connErrorCallback
  | connCloseCallback
  | closeConnection
deriving DecidableEq, Repr

structure TcpConnection where
  readBuffer : ValidBuffer IO_BUFFER_SIZE := .make _
  writeBuffer : ValidBuffer IO_BUFFER_SIZE := .make _
  data : Option LoopId := none
  event : Event Callback := {}
  isWillClose : Bool := false
  /-- `destoryCallback_` is set. -/
  destoryCallback : Bool := false
  state : State := .ESTABLISHED
  loop : LoopId := 0
  lastReceiveTime : UInt32 := 0
  sent : List Byte := []
  written : List Byte := []
  calls : List Call := []
  destroys : ℕ := 0
  deletes : ℕ := 0

/-- What runs on the loop's thread between two events: the loop itself, or a user callback. -/
inductive Control where
  | loop
  | connEstaCallback
  | connMsgCallback
  | connErrorCallback
deriving DecidableEq, Repr

/-- The owner of a connection: the virtual `closeConnection`, and the code it puts into the
callback slots of the connection's event, cut where a user callback takes over. -/
structure TcpSource where
  closeConnection : LoopId → Bool → TcpConnection → Option TcpConnection
  /-- The read callback: the loop, `timeInProcess` and the results of `::read`. -/
  preConnMsgCallback : LoopId → UInt32 → List ReadResult → TcpConnection →
    Option (TcpConnection × Control)
  /-- The write callback that waits for a connect, given `checkHasError()`. -/
  connectCallback : LoopId → Bool → TcpConnection → Option (TcpConnection × Control)
  /-- What is left to do when a user callback returns. -/
  callbackReturned : LoopId → Control → TcpConnection → Option TcpConnection

namespace TcpConnection

def log (c : TcpConnection) (call : Call) : TcpConnection := { c with calls := c.calls ++ [call] }

/-- `send(bool)`.  In state `BLANK` the source sleeps for two seconds before the assertion, with
`sendStr` having appended already; here the whole call is one step, so nothing runs meanwhile. -/
def send (isLast : Bool) (c : TcpConnection) : Option TcpConnection :=
  if 0 < c.writeBuffer.readableBytes then
    let c := { c with isWillClose := isLast }
    if c.event.isWritable then some c
    else some { c with event := (c.event.setWritable true).setWriteCallback .sendNonblock }
  else none

/-- `send(const char *, size_t)`; in a state other than `ESTABLISHED` a line is logged. -/
def sendStr (str : List Byte) (c : TcpConnection) : Option TcpConnection :=
  send false { c with writeBuffer := c.writeBuffer.append str, sent := c.sent ++ str }

def destroy (c : TcpConnection) : TcpConnection :=
  { c with state := .CLOSED, destroys := c.destroys + 1 }

/-- `delete connection`, or its return to the object pool. -/
def delete (c : TcpConnection) : TcpConnection := { c with deletes := c.deletes + 1 }

/-- The common body of the `closeConnection`s: `closeCallback` if there is a callback to run
before the connection is destroyed, `erase` if it is deleted at once.  The callback runs on the live
connection; here it is recorded only, that is, it makes no calls on it. -/
def closeWith (closeCallback erase : Bool) (c : TcpConnection) : Option TcpConnection :=
  let c := c.log .closeConnection
  if 0 < c.writeBuffer.readableBytes then
    send true { c with event := c.event.setReadable false }
  else
    let c := if closeCallback then c.log .connCloseCallback else c
    let c := c.destroy
    some (if erase then c.delete else c)

def activeClose (source : TcpSource) (localEventLoop : LoopId) (c : TcpConnection) :
    Option TcpConnection :=
  source.closeConnection localEventLoop c.destoryCallback c

/-- `n` is the result of `::write(fd, peek(), readableBytes())`. -/
def sendNonblock (source : TcpSource) (localEventLoop : LoopId) (n : WriteResult)
    (c : TcpConnection) : Option TcpConnection := do
  let (writeBuffer, _) ← c.writeBuffer.retrieve n.size
  let c := { c with writeBuffer, written := c.written ++ c.writeBuffer.bytes.take n.size }
  if c.writeBuffer.readableBytes = 0 then
    let c := { c with event := c.event.setWritable false }
    if c.isWillClose then c.activeClose source localEventLoop else some c
  else some c

/-- The end of a read callback: `codec_.check(connection)`, and the message callback if a
message is ready. -/
def checkMsg (codec : ValidBuffer IO_BUFFER_SIZE → Bool × ValidBuffer IO_BUFFER_SIZE)
    (c : TcpConnection) : TcpConnection × Control :=
  let (ready, readBuffer) := codec c.readBuffer
  let c := { c with readBuffer }
  if ready then (c.log .connMsgCallback, .connMsgCallback) else (c, .loop)

end TcpConnection

/-! ### The library's two sources -/

/-- What a `TcpServer` is configured with. -/
structure TcpServer where
  codec : ValidBuffer IO_BUFFER_SIZE → Bool × ValidBuffer IO_BUFFER_SIZE
  /-- `connEstaCallback_` is set. -/
  connEstaCallback : Bool
  /-- `connCloseCallback_` is set. -/
  connCloseCallback : Bool
  /-- `IDLE_CONNECTIONS_MANAGER` is defined. -/
  idleConnectionsManager : Bool

namespace TcpServer

variable (server : TcpServer)

def closeConnection (localEventLoop : LoopId) (destoryCallback : Bool) (c : TcpConnection) :
    Option TcpConnection :=
  if c.data = some localEventLoop ∧ destoryCallback = false then
    c.closeWith server.connCloseCallback (!server.idleConnectionsManager)
  else none

def preConnMsgCallback (localEventLoop : LoopId) (timeInProcess : UInt32)
    (script : List ReadResult) (c : TcpConnection) : Option (TcpConnection × Control) := do
  let c := { c with data := some localEventLoop }
  let (readBuffer, n) ← c.readBuffer.readFromSocket script 4096
  let c := { c with readBuffer }
  if n = 0 then
    let c ← server.closeConnection localEventLoop false c
    some (c, .loop)
  else if n < 0 then
    let c ← server.closeConnection localEventLoop false c
    some (c, .loop)
  else
    let c :=
      if server.idleConnectionsManager then { c with lastReceiveTime := timeInProcess } else c
    some (c.checkMsg server.codec)

/-- A server installs no connect callback, and does nothing after its message callback. -/
def source : TcpSource where
  closeConnection := server.closeConnection
  preConnMsgCallback := server.preConnMsgCallback
  connectCallback _ _ _ := none
  callbackReturned _ _ c := some c

end TcpServer

/-- What a `TcpClient` is configured with. -/
structure TcpClient where
  codec : ValidBuffer IO_BUFFER_SIZE → Bool × ValidBuffer IO_BUFFER_SIZE
  /-- `connEstaCallback_` is set. -/
  connEstaCallback : Bool
  /-- `connCloseCallback_` is set. -/
  connCloseCallback : Bool
  /-- `connErrorCallback_` is set. -/
  connErrorCallback : Bool

namespace TcpClient

variable (client : TcpClient)

def closeConnection (destoryCallback : Bool) (c : TcpConnection) : Option TcpConnection :=
  if destoryCallback = false then c.closeWith client.connCloseCallback true else none

def preConnMsgCallback (script : List ReadResult) (c : TcpConnection) :
    Option (TcpConnection × Control) := do
  let (readBuffer, n) ← c.readBuffer.readFromSocket script 4096
  let c := { c with readBuffer }
  if n = 0 then
    let c ← client.closeConnection false c
    some (c, .loop)
  else if n < 0 then
    if client.connErrorCallback then some (c.log .connErrorCallback, .connErrorCallback)
    else
      let c ← client.closeConnection false c
      some (c, .loop)
  else some (c.checkMsg client.codec)

/-- The end of the connect callback. -/
def established (c : TcpConnection) : TcpConnection :=
  { c with event := c.event.setWritable false, state := .ESTABLISHED }

def connectCallback (checkHasError : Bool) (c : TcpConnection) :
    Option (TcpConnection × Control) :=
  if checkHasError then do
    let c ← client.closeConnection false c
    some (c, .loop)
  else if client.connEstaCallback then some (c.log .connEstaCallback, .connEstaCallback)
  else some (established c, .loop)

def callbackReturned : Control → TcpConnection → Option TcpConnection
  | .connEstaCallback, c => some (established c)
  | .connErrorCallback, c => client.closeConnection false c
  | _, c => some c

def source : TcpSource where
  closeConnection _ := client.closeConnection
  preConnMsgCallback _ _ := client.preConnMsgCallback
  connectCallback _ := client.connectCallback
  callbackReturned _ := client.callbackReturned

end TcpClient

end Dagger

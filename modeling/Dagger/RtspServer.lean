import Dagger.HttpParse
import Dagger.Session

/-! # `RtspServer`

The HTTP server of `src/HttpServer.h` on one of its connections: the read callback of the
`TcpServer` it owns, with the codec and `handleRtspRequest` as the message callback, and the write
callback.  A service answers with one `send`; the answer is chosen by the environment.

`dispatched` is the history: the requests handed to services, in order. -/

namespace Dagger

structure HttpResponse where
  response_line : List Byte := chars "HTTP/1.1 200 OK\r\n"
  headers : List Byte := chars
    "content-type: text/html; charset=utf-8\r\nconnection: close\r\n"
  response_body : List Byte := []

namespace HttpResponse

def addHeader (key value : List Byte) (r : HttpResponse) : HttpResponse :=
  { r with headers := r.headers ++ key ++ chars ": " ++ value ++ chars "\r\n" }

def addBody (body : List Byte) (r : HttpResponse) : HttpResponse :=
  { r.addHeader (chars "content-length") (chars (toString body.length)) with response_body := body }

/-- `to_string()`. -/
def bytes (r : HttpResponse) : List Byte :=
  r.response_line ++ r.headers ++ chars "\r\n" ++ r.response_body

end HttpResponse

structure RtspServer where
  /-- The keys of `services_`. -/
  services : List (List Byte)
  /-- `IDLE_CONNECTIONS_MANAGER` is defined. -/
  idleConnectionsManager : Bool

namespace RtspServer

variable (server : RtspServer)

/-- `server_`. -/
def tcpServer : TcpServer where
  codec := ValidBuffer.httpRequestDefaultCallback
  connEstaCallback := false
  connCloseCallback := false
  idleConnectionsManager := server.idleConnectionsManager

/-- The page for `/`. -/
def welcome : List Byte := chars (
  "<!DOCTYPE html>\n<html>\n<head>\n<title>Welcome to Dagger!</title>\n<style>\nbody \x7b\n" ++
  "width: 35em;\nmargin: 0 auto;\nfont-family: Tahoma, Verdana, Arial, sans-serif;\n\x7d\n" ++
  "</style>\n</head>\n<body>\n<h1>Welcome to nginx!</h1>\n" ++
  "<p>If you see this page, the nginx web server is successfully installed and\n" ++
  "working. Further configuration is required.</p>\n\n" ++
  "<p>For online documentation and support please refer to\n" ++
  "<a href=\"http://nginx.org/\">nginx.org</a>.<br/>\n" ++
  "Commercial support is available at\n" ++
  "<a href=\"http://nginx.com/\">nginx.com</a>.</p>\n\n" ++
  "<p><em>Thank you for using nginx.</em></p>\n</body>\n</html>")

def badRequest : List Byte := chars (
  "HTTP/1.1 400 Bad Request\r\ncontent-type: text/html; charset=utf-8\r\n" ++
  "content-length: 49\r\nconnection: close\r\n\r\n" ++
  "<title>The Service haven't been provided.</title>\r\n")

/-- The answer to a request for a service that does not exist. -/
def blank (url : List Byte) : List Byte :=
  if url = chars "/" then (HttpResponse.addBody welcome {}).bytes else badRequest

/-- The request is returned if a service was called, which sent `answer`. -/
def handleRtspRequest (localEventLoop : LoopId) (answer : List Byte) (c : TcpConnection) :
    Option (TcpConnection × Option RequestText) := do
  let (readBuffer, request) ← c.readBuffer.parseRequest
  let c := { c with readBuffer }
  if request.url ∈ server.services then
    let c ← c.sendStr answer
    some (c, some request)
  else
    let c ← c.sendStr (blank request.url)
    let c ← c.activeClose server.tcpServer.source localEventLoop
    some (c, none)

end RtspServer

structure HttpConnection where
  conn : TcpConnection
  dispatched : List RequestText := []

namespace HttpConnection

inductive Act where
  /-- A read event: the results of its `::read`s, and the answer of the service it may lead to. -/
  | read (timeInProcess : UInt32) (script : List ReadResult) (answer : List Byte)
  /-- A write event. -/
  | write (r : WriteResult)

variable (server : RtspServer) (l : LoopId) (s : HttpConnection)

/-- The read events deliver data or nothing, and neither fail nor meet the end of the file. -/
def Legal : Act → Prop
  | .read _ script answer =>
      Buffer.Deliverable 4096 script ∧ 0 < Buffer.readReturn script ∧ answer ≠ []
  | .write r => s.conn.event.isWritable = true ∧ r.Possible s.conn.writeBuffer.bytes.length

def next : Act → Option HttpConnection
  | .read timeInProcess script answer => do
      let (conn, control) ← server.tcpServer.preConnMsgCallback l timeInProcess script s.conn
      if control = .connMsgCallback then
        let (conn, request) ← server.handleRtspRequest l answer conn
        some { conn, dispatched := s.dispatched ++ request.toList }
      else some { s with conn }
  | .write r =>
      (s.conn.sendNonblock server.tcpServer.source l r).map fun conn => { s with conn }

/-- The runs of a connection from its acceptance on. -/
def system : Transition.System HttpConnection Act where
  Init s := ∃ time, s = { conn := TcpServer.accepted l time }
  Step s a t := s.Legal a ∧ s.next server l a = some t

/-- The bytes a read event brings. -/
def Act.chunk : Act → Option (List Byte)
  | .read _ script _ => some (Buffer.received 4096 script)
  | .write _ => none

/-- The pieces in which a run reads what it receives. -/
def chunks (as : List Act) : List (List Byte) := as.filterMap Act.chunk

end HttpConnection

end Dagger

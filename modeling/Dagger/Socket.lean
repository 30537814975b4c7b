import Mathlib.Logic.Function.Basic
import Dagger.Kernel

/-! # Sockets and the objects that hold them

`Socket` of `src/Socket.h` over the descriptor table of the process, and what `TcpServer`,
`TcpClient`, `FreeServerClient` and `TcpConnection` do with their Sockets: the constructors,
`acceptCallback`, `connect`, `createServerPort`, `createClientConn`, `closeConnection` and the
destructors.

The table hands numbers out again after `::close`, so an `Fd` also remembers which of the
descriptors given out so far its number is a copy of. -/

namespace Dagger

/-- An `int` with the number of a descriptor; `origin` tells the descriptors apart that had the
number one after the other. -/
structure Fd where
  num : ℤ
  origin : Option ℕ
deriving DecidableEq, Repr

/-- What `::socket` and `::accept` answer. -/
inductive FdResult where
  | fd (n : ℕ)
  | error (e : Errno)
deriving DecidableEq, Repr

/-- What is open under a number: a descriptor from `::socket` or `::accept`, or a file that other
code of the process has opened. -/
inductive OpenFile where
  | socket (origin : ℕ)
  | other
deriving DecidableEq, Repr

structure FdTable where
  file : ℕ → Option OpenFile := fun _ => none
  /-- How many descriptors `::socket` and `::accept` have given out. -/
  given : ℕ := 0
  /-- The descriptors whose numbers Socket destructors have passed to `::close`. -/
  closed : List ℕ := []

namespace FdTable

/-- `::socket` and `::accept`: a number that was free, or `-1`. -/
def answer (r : FdResult) (k : FdTable) : Option (Fd × FdTable) :=
  match r with
  | .fd n =>
      if k.file n = none then
        some (⟨n, some k.given⟩,
          { k with
            file := Function.update k.file n (some (.socket k.given)), given := k.given + 1 })
      else none
  | .error _ => some (⟨-1, none⟩, k)

/-- `::close`. -/
def close (fd : Fd) (k : FdTable) : FdTable :=
  { k with file := fun n => if (n : ℤ) = fd.num then none else k.file n
           closed := k.closed ++ fd.origin.toList }

end FdTable

structure Socket where
  sockfd : Fd
deriving DecidableEq, Repr

namespace Socket

/-- An error of `::socket` is logged. -/
def makeNewSocket (r : FdResult) (k : FdTable) : Option (Socket × FdTable) := do
  let (sockfd, k) ← k.answer r
  some (⟨sockfd⟩, k)

def makeConnected (connfd : Fd) : Socket := ⟨connfd⟩

/-- `Socket(Socket &&other)`: the new Socket, and what is left of `other`. -/
def move (other : Socket) : Socket × Socket := (⟨other.sockfd⟩, ⟨⟨0, none⟩⟩)

/-- `~Socket()`. -/
def destruct (s : Socket) (k : FdTable) : FdTable :=
  if s.sockfd.num ≠ 0 then k.close s.sockfd else k

/-- The destructor of a `std::vector<Socket>`. -/
def destructAll (v : List Socket) (k : FdTable) : FdTable := v.foldl (fun k s => s.destruct k) k

/-- `push_back` of the temporary `s`; to `grow` is to move all elements to larger storage. -/
def pushBack (grow : Bool) (v : List Socket) (s : Socket) (k : FdTable) : List Socket × FdTable :=
  let (back, s) := s.move
  let (v, k) :=
    if grow then (v.map (·.move.1), destructAll (v.map (·.move.2)) k) else (v, k)
  (v ++ [back], s.destruct k)

end Socket

/-! ### The objects -/

/-- A live object with its Sockets. -/
inductive Object where
  /-- A variable of the program. -/
  | socket (s : Socket)
  | tcpServer (listenfd : Socket)
  | tcpClient (clients : List Socket)
  | freeServerClient (serverfds clientfds : List Socket)
  /-- A connection: the `fd_` of its event, and `socket_`. -/
  | tcpConnection (eventFd : Fd) (socket : Socket)
deriving DecidableEq, Repr

namespace Object

/-- `Event::make(fd, ..)` and `TcpConnection::makeHeapObject(event, ..)`. -/
def makeHeapObject (fd : Fd) : Object := tcpConnection fd (Socket.makeConnected fd)

/-- The destructors; members go in the reverse order of their declaration. -/
def destruct : Object → FdTable → FdTable
  | socket s, k => s.destruct k
  | tcpServer listenfd, k => listenfd.destruct k
  | tcpClient clients, k => Socket.destructAll clients k
  | freeServerClient serverfds clientfds, k =>
      Socket.destructAll serverfds (Socket.destructAll clientfds k)
  | tcpConnection _ s, k => s.destruct k

end Object

/-- The descriptor table and the live objects. -/
structure World where
  table : FdTable := {}
  objects : List Object := []

namespace World

/-- `Socket s = Socket::makeNewSocket();`. -/
def makeNewSocket (r : FdResult) (w : World) : Option World := do
  let (s, table) ← Socket.makeNewSocket r w.table
  some { table, objects := w.objects ++ [.socket s] }

/-- `Socket t(std::move(s));`, where `s` is a variable or the `socket()` of a connection. -/
def moveSocket (i : ℕ) (w : World) : Option World :=
  match w.objects[i]? with
  | some (.socket s) =>
      let (t, s) := s.move
      some { w with objects := w.objects.set i (.socket s) ++ [.socket t] }
  | some (.tcpConnection eventFd s) =>
      let (t, s) := s.move
      some { w with objects := w.objects.set i (.tcpConnection eventFd s) ++ [.socket t] }
  | _ => none

/-! #### `TcpServer` -/

/-- `TcpServer server(std::move(s), ..);`: the parameter is made from `s`, `listenfd_` from the
parameter. -/
def newTcpServer (i : ℕ) (w : World) : Option World :=
  match w.objects[i]? with
  | some (.socket s) =>
      let (listenfd, s) := s.move
      let (listenfd_, listenfd) := listenfd.move
      some { table := listenfd.destruct w.table
             objects := w.objects.set i (.socket s) ++ [.tcpServer listenfd_] }
  | _ => none

/-- One round of the loop in `acceptCallback`, up to the user's `connEstaCallback_`. -/
def acceptCallback (i : ℕ) (r : FdResult) (w : World) : Option World :=
  match w.objects[i]? with
  | some (.tcpServer _) => do
      let (connfd, table) ← w.table.answer r
      if connfd.num ≤ 0 then some { w with table }
      else some { table, objects := w.objects ++ [.makeHeapObject connfd] }
  | _ => none

/-! #### `TcpClient` -/

def newTcpClient (w : World) : World := { w with objects := w.objects ++ [.tcpClient []] }

def connect (i : ℕ) (r : FdResult) (grow : Bool) (w : World) : Option World :=
  match w.objects[i]? with
  | some (.tcpClient clients) => do
      let (s, table) ← Socket.makeNewSocket r w.table
      let (clients, table) := Socket.pushBack grow clients s table
      let clientfd ← clients.getLast?
      some { table
             objects := w.objects.set i (.tcpClient clients) ++ [.makeHeapObject clientfd.sockfd] }
  | _ => none

/-! #### `FreeServerClient` -/

def newFreeServerClient (w : World) : World :=
  { w with objects := w.objects ++ [.freeServerClient [] []] }

def createServerPort (i : ℕ) (r : FdResult) (grow : Bool) (w : World) : Option World :=
  match w.objects[i]? with
  | some (.freeServerClient serverfds clientfds) => do
      let (s, table) ← Socket.makeNewSocket r w.table
      let (serverfds, table) := Socket.pushBack grow serverfds s table
      some { table, objects := w.objects.set i (.freeServerClient serverfds clientfds) }
  | _ => none

def createClientConn (i : ℕ) (r : FdResult) (grow : Bool) (w : World) : Option World :=
  match w.objects[i]? with
  | some (.freeServerClient serverfds clientfds) => do
      let (s, table) ← Socket.makeNewSocket r w.table
      let (clientfds, table) := Socket.pushBack grow clientfds s table
      let clientfd ← clientfds.getLast?
      some { table
             objects := w.objects.set i (.freeServerClient serverfds clientfds) ++
               [.makeHeapObject clientfd.sockfd] }
  | _ => none

/-- `FreeServerClient::acceptCallback` for one of the ports; an error of another kind is logged,
and a connection is made all the same. -/
def acceptPort (i : ℕ) (r : FdResult) (w : World) : Option World :=
  match w.objects[i]? with
  | some (.freeServerClient (_ :: _) _) => do
      let (connfd, table) ← w.table.answer r
      match r with
      | .error .EAGAIN | .error .EPROTO | .error .ECONNABORTED => some { w with table }
      | _ => some { table, objects := w.objects ++ [.makeHeapObject connfd] }
  | _ => none

/-! #### Closing and destruction -/

/-- The `closeConnection`s: with `unsent` bytes the connection stays for now, without it is
destroyed and deleted. -/
def closeConnection (i : ℕ) (unsent : Bool) (w : World) : Option World :=
  match w.objects[i]? with
  | some (.tcpConnection eventFd s) =>
      if unsent then some w
      else some { table := (Object.tcpConnection eventFd s).destruct w.table
                  objects := w.objects.eraseIdx i }
  | _ => none

/-- The end of a variable, a server or a client; the connections of a server or a client are
objects of their own. -/
def destroy (i : ℕ) (w : World) : Option World :=
  match w.objects[i]? with
  | some (.tcpConnection _ _) => none
  | some o => some { table := o.destruct w.table, objects := w.objects.eraseIdx i }
  | none => none

/-! #### Other code of the process -/

def openOther (n : ℕ) (w : World) : Option World :=
  if w.table.file n = none then
    some { w with table := { w.table with file := Function.update w.table.file n (some .other) } }
  else none

def closeOther (n : ℕ) (w : World) : Option World :=
  if w.table.file n = some .other then
    some { w with table := { w.table with file := Function.update w.table.file n none } }
  else none

end World

end Dagger

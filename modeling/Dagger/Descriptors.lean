import Mathlib.Data.List.Perm.Basic
import Dagger.Ownership
import Dagger.Socket
import Dagger.Transition

/-! # Who owns a descriptor

A Socket owns the descriptor that its destructor will pass to `::close`.  `change_of_step` says
what a step does to the descriptors given out, to those that Sockets own and to those closed;
`connect` and `createClientConn` give a new descriptor to two Sockets, and a descriptor with the
number 0 gets no owner at all.  In the runs without such steps the books of `Ownership` are
balanced (`owned_once`), and every number that a Socket holds still stands for the Socket's own
descriptor (`stands_of_reachable`). -/

namespace Dagger

open Ownership Transition

/-! ### What is owned -/

/-- What the destructor will pass to `::close`. -/
def Socket.owned (s : Socket) : List Fd := if s.sockfd.num ≠ 0 then [s.sockfd] else []

namespace Object

def sockets : Object → List Socket
  | socket s => [s]
  | tcpServer listenfd => [listenfd]
  | tcpClient clients => clients
  | freeServerClient serverfds clientfds => clientfds ++ serverfds
  | tcpConnection _ s => [s]

def owned (o : Object) : List Fd := o.sockets.flatMap Socket.owned

end Object

namespace World

def owned (w : World) : List Fd := w.objects.flatMap Object.owned

/-- The live Sockets that own the descriptor `d`. -/
def owners (w : World) (d : ℕ) : ℕ := (w.owned.filterMap Fd.origin).count d

/-- The calls of `::close` by Socket destructors with the descriptor `d`. -/
def closes (w : World) (d : ℕ) : ℕ := w.table.closed.count d

/-- No descriptor has two owners or is closed twice, and those without an owner are closed. -/
def OwnedOnce (w : World) : Prop :=
  ∀ d < w.table.given, w.owners d ≤ 1 ∧ w.closes d ≤ 1 ∧ (w.closes d = 1 ↔ w.owners d = 0)

end World

/-! ### Runs -/

namespace World

inductive Act where
  | makeNewSocket (r : FdResult)
  | moveSocket (i : ℕ)
  | newTcpServer (i : ℕ)
  | acceptCallback (i : ℕ) (r : FdResult)
  | newTcpClient
  | connect (i : ℕ) (r : FdResult) (grow : Bool)
  | newFreeServerClient
  | createServerPort (i : ℕ) (r : FdResult) (grow : Bool)
  | createClientConn (i : ℕ) (r : FdResult) (grow : Bool)
  | acceptPort (i : ℕ) (r : FdResult)
  | closeConnection (i : ℕ) (unsent : Bool)
  | destroy (i : ℕ)
  | openOther (n : ℕ)
  | closeOther (n : ℕ)

def step (w : World) : Act → Option World
  | .makeNewSocket r => w.makeNewSocket r
  | .moveSocket i => w.moveSocket i
  | .newTcpServer i => w.newTcpServer i
  | .acceptCallback i r => w.acceptCallback i r
  | .newTcpClient => some w.newTcpClient
  | .connect i r grow => w.connect i r grow
  | .newFreeServerClient => some w.newFreeServerClient
  | .createServerPort i r grow => w.createServerPort i r grow
  | .createClientConn i r grow => w.createClientConn i r grow
  | .acceptPort i r => w.acceptPort i r
  | .closeConnection i unsent => w.closeConnection i unsent
  | .destroy i => w.destroy i
  | .openOther n => w.openOther n
  | .closeOther n => w.closeOther n

/-- Runs from a process without Sockets, whatever else it has open. -/
def system : System World Act where
  Init w := w.objects = [] ∧ w.table.given = 0 ∧ w.table.closed = [] ∧
    ∀ n d, w.table.file n ≠ some (.socket d)
  Step w a t := w.step a = some t

namespace Act

/-- What `::socket` or `::accept` answers in the step. -/
def answer : Act → Option FdResult
  | .makeNewSocket r | .acceptCallback _ r | .connect _ r _ | .createServerPort _ r _
  | .createClientConn _ r _ | .acceptPort _ r => some r
  | _ => none

/-- A Socket keeps the descriptor, and a connection makes another Socket of its number. -/
def Shares : Act → Prop
  | .connect .. | .createClientConn .. => True
  | _ => False

instance : DecidablePred Shares := fun a => by cases a <;> unfold Shares <;> infer_instance

/-- A descriptor that the step obtains has a number other than 0 and goes to one Socket. -/
def Single (a : Act) : Prop := ∀ n, a.answer = some (.fd n) → n ≠ 0 ∧ ¬ a.Shares

/-- How many Sockets own the descriptor that the step obtains under the number `n`. -/
def newOwners (a : Act) (n : ℕ) : ℕ := if n = 0 then 0 else if a.Shares then 2 else 1

end Act

/-- What a step does to the table and to what Sockets own. -/
inductive Change (w : World) (a : Act) (t : World) : Prop
  /-- Sockets are moved, or made of the error `-1`. -/
  | keep (k : ℕ) : (∀ n, a.answer ≠ some (.fd n)) → t.table = w.table →
      t.owned.Perm (List.replicate k ⟨-1, none⟩ ++ w.owned) → Change w a t
  /-- A descriptor is given out. -/
  | give (n : ℕ) : a.answer = some (.fd n) →
      w.table.answer (.fd n) = some (⟨n, some w.table.given⟩, t.table) →
      t.owned.Perm (List.replicate (a.newOwners n) ⟨n, some w.table.given⟩ ++ w.owned) →
      Change w a t
  /-- Sockets are destroyed. -/
  | release (gone : List Fd) : (∀ n, a.answer ≠ some (.fd n)) →
      t.table = gone.foldl (fun k fd => k.close fd) w.table →
      w.owned.Perm (gone ++ t.owned) → Change w a t
  /-- Other code opens or closes a file. -/
  | other : (∀ n, a.answer ≠ some (.fd n)) → t.owned = w.owned →
      t.table.given = w.table.given → t.table.closed = w.table.closed →
      (∀ n d, w.table.file n = some (.socket d) → t.table.file n = some (.socket d)) →
      Change w a t

end World

/-! ### Steps -/

namespace Socket

theorem destruct_eq (s : Socket) (k : FdTable) :
    s.destruct k = s.owned.foldl (fun k fd => k.close fd) k := by
  unfold destruct owned
  split <;> rfl

theorem destructAll_eq (v : List Socket) (k : FdTable) :
    destructAll v k = (v.flatMap owned).foldl (fun k fd => k.close fd) k := by
  unfold destructAll
  induction v generalizing k with
  | nil => rfl
  | cons s v ih =>
      rw [List.foldl_cons, List.flatMap_cons, List.foldl_append, ih, destruct_eq]

theorem destructAll_moved (v : List Socket) (k : FdTable) :
    destructAll (v.map (·.move.2)) k = k := by
  induction v with
  | nil => rfl
  | cons s v ih => exact ih

theorem pushBack_eq (grow : Bool) (v : List Socket) (s : Socket) (k : FdTable) :
    pushBack grow v s k = (v ++ [s], k) := by
  have hv : v.map (·.move.1) = v := List.map_id v
  cases grow with
  | false => rfl
  | true =>
      unfold pushBack
      simp only [if_true, hv, destructAll_moved]
      rfl

theorem owned_of_ne {fd : Fd} (h : fd.num ≠ 0) : (⟨fd⟩ : Socket).owned = [fd] := if_pos h

theorem owned_of_eq {fd : Fd} (h : fd.num = 0) : (⟨fd⟩ : Socket).owned = [] :=
  if_neg (not_not_intro h)

theorem owned_replicate_of_ne {fd : Fd} (h : fd.num ≠ 0) (m : ℕ) :
    (List.replicate m (⟨fd⟩ : Socket)).flatMap owned = List.replicate m fd := by
  induction m with
  | zero => rfl
  | succ m ih => rw [List.replicate_succ, List.flatMap_cons, ih, owned_of_ne h]; rfl

theorem owned_replicate_of_eq {fd : Fd} (h : fd.num = 0) (m : ℕ) :
    (List.replicate m (⟨fd⟩ : Socket)).flatMap owned = [] := by
  induction m with
  | zero => rfl
  | succ m ih => rw [List.replicate_succ, List.flatMap_cons, ih, owned_of_eq h]; rfl

theorem owned_concat (v : List Socket) (s : Socket) :
    ((v ++ [s]).flatMap owned).Perm (s.owned ++ v.flatMap owned) := by
  rw [List.flatMap_append, List.flatMap_singleton]
  exact List.perm_append_comm

end Socket

namespace Object

theorem owned_socket (s : Socket) : (socket s).owned = s.owned := List.flatMap_singleton ..

theorem owned_makeHeapObject (fd : Fd) : (makeHeapObject fd).owned = (⟨fd⟩ : Socket).owned :=
  List.flatMap_singleton ..

theorem owned_clients (clients : List Socket) (s : Socket) :
    (tcpClient (clients ++ [s])).owned.Perm (s.owned ++ (tcpClient clients).owned) :=
  Socket.owned_concat clients s

theorem owned_serverfds (serverfds clientfds : List Socket) (s : Socket) :
    (freeServerClient (serverfds ++ [s]) clientfds).owned.Perm
      (s.owned ++ (freeServerClient serverfds clientfds).owned) := by
  show (List.flatMap Socket.owned (clientfds ++ (serverfds ++ [s]))).Perm
    (s.owned ++ (clientfds ++ serverfds).flatMap Socket.owned)
  rw [← List.append_assoc]
  exact Socket.owned_concat (clientfds ++ serverfds) s

theorem owned_clientfds (serverfds clientfds : List Socket) (s : Socket) :
    (freeServerClient serverfds (clientfds ++ [s])).owned.Perm
      (s.owned ++ (freeServerClient serverfds clientfds).owned) := by
  show (List.flatMap Socket.owned ((clientfds ++ [s]) ++ serverfds)).Perm
    (s.owned ++ (clientfds ++ serverfds).flatMap Socket.owned)
  have hsplit : (clientfds ++ serverfds).flatMap Socket.owned =
      clientfds.flatMap Socket.owned ++ serverfds.flatMap Socket.owned :=
    List.flatMap_append
  rw [hsplit, List.flatMap_append, ← List.append_assoc]
  exact (Socket.owned_concat clientfds s).append_right _

theorem destruct_eq (o : Object) (k : FdTable) :
    o.destruct k = o.owned.foldl (fun k fd => k.close fd) k := by
  cases o with
  | socket s => simp [destruct, owned, sockets, Socket.destruct_eq]
  | tcpServer s => simp [destruct, owned, sockets, Socket.destruct_eq]
  | tcpClient v => exact Socket.destructAll_eq v k
  | freeServerClient v u =>
      show Socket.destructAll v (Socket.destructAll u k) = _
      rw [Socket.destructAll_eq, Socket.destructAll_eq, ← List.foldl_append,
        ← List.flatMap_append]
      rfl
  | tcpConnection _ s => simp [destruct, owned, sockets, Socket.destruct_eq]

end Object

namespace FdTable

theorem answer_cases {r : FdResult} {k k' : FdTable} {fd : Fd} (h : k.answer r = some (fd, k')) :
    (∃ n, r = .fd n ∧ fd = ⟨n, some k.given⟩) ∨ (∃ e, r = .error e ∧ fd = ⟨-1, none⟩ ∧ k' = k) := by
  cases r with
  | error e =>
      cases h
      exact .inr ⟨e, rfl, rfl, rfl⟩
  | fd n =>
      unfold answer at h
      dsimp only at h
      split at h
      · cases h
        exact .inl ⟨n, rfl, rfl⟩
      · cases h

end FdTable

/-! #### Lists of objects -/

section Objects

variable {os : List Object} {i : ℕ} {o o' new : Object}

theorem owned_at (h : os[i]? = some o) :
    (os.flatMap Object.owned).Perm (o.owned ++ (os.eraseIdx i).flatMap Object.owned) := by
  obtain ⟨hi, rfl⟩ := List.getElem?_eq_some_iff.mp h
  exact ((List.getElem_cons_eraseIdx_perm hi).symm).flatMap_right Object.owned

theorem owned_set (h : os[i]? = some o) (o' : Object) :
    ((os.set i o').flatMap Object.owned).Perm
      (o'.owned ++ (os.eraseIdx i).flatMap Object.owned) := by
  obtain ⟨hi, -⟩ := List.getElem?_eq_some_iff.mp h
  exact (List.set_perm_cons_eraseIdx hi o').flatMap_right Object.owned

theorem owned_append (os : List Object) {fds : List Fd} (h : new.owned = fds) :
    ((os ++ [new]).flatMap Object.owned).Perm (fds ++ os.flatMap Object.owned) := by
  rw [List.flatMap_append, List.flatMap_singleton, h]
  exact List.perm_append_comm

/-- The object at `i` takes over `fds`. -/
theorem owned_grow {fds : List Fd} (h : os[i]? = some o) (hp : o'.owned.Perm (fds ++ o.owned)) :
    ((os.set i o').flatMap Object.owned).Perm (fds ++ os.flatMap Object.owned) := by
  refine (owned_set h o').trans ((hp.append_right _).trans ?_)
  rw [List.append_assoc]
  exact (owned_at h).symm.append_left fds

/-- A new object takes over what the one at `i` owns. -/
theorem owned_move (h : os[i]? = some o) (ho : o'.owned = []) (hn : new.owned = o.owned) :
    ((os.set i o' ++ [new]).flatMap Object.owned).Perm (os.flatMap Object.owned) := by
  have hset := owned_set h o'
  rw [ho, List.nil_append] at hset
  refine (owned_append _ hn).trans ?_
  exact (hset.append_left o.owned).trans (owned_at h).symm

end Objects

namespace World

variable {w t : World} {a : Act}

theorem Change.of_perm (ha : ∀ n, a.answer ≠ some (.fd n)) (ht : t.table = w.table)
    (hp : t.owned.Perm w.owned) : Change w a t :=
  .keep 0 ha ht hp

/-- A step that makes `m` Sockets of what `::socket` or `::accept` answers. -/
theorem Change.of_sockets {r : FdResult} {fd : Fd} {m : ℕ} (ha : a.answer = some r)
    (hm : (if a.Shares then 2 else 1) = m) (hk : w.table.answer r = some (fd, t.table))
    (hp : t.owned.Perm ((List.replicate m (⟨fd⟩ : Socket)).flatMap Socket.owned ++ w.owned)) :
    Change w a t := by
  obtain ⟨n, rfl, rfl⟩ | ⟨e, rfl, rfl, ht⟩ := FdTable.answer_cases hk
  · refine .give n ha hk ?_
    unfold Act.newOwners
    rw [hm]
    by_cases hn : n = 0
    · rw [Socket.owned_replicate_of_eq (by simpa using hn)] at hp
      rw [if_pos hn]
      exact hp
    · rw [Socket.owned_replicate_of_ne (by simpa using hn)] at hp
      rw [if_neg hn]
      exact hp
  · rw [Socket.owned_replicate_of_ne (by decide)] at hp
    refine .keep _ ?_ ht hp
    intro n hn
    rw [ha] at hn
    cases hn

theorem Change.of_socket {r : FdResult} {fd : Fd} (ha : a.answer = some r) (hn : ¬ a.Shares)
    (hk : w.table.answer r = some (fd, t.table))
    (hp : t.owned.Perm ((⟨fd⟩ : Socket).owned ++ w.owned)) : Change w a t := by
  refine .of_sockets ha (if_neg hn) hk ?_
  rw [List.replicate_one, List.flatMap_singleton]
  exact hp

theorem Change.of_shared {r : FdResult} {fd : Fd} (ha : a.answer = some r) (hn : a.Shares)
    (hk : w.table.answer r = some (fd, t.table))
    (hp : t.owned.Perm ((⟨fd⟩ : Socket).owned ++ ((⟨fd⟩ : Socket).owned ++ w.owned))) :
    Change w a t := by
  refine .of_sockets ha (if_pos hn) hk ?_
  rw [List.replicate_succ, List.flatMap_cons, List.replicate_one, List.flatMap_singleton,
    List.append_assoc]
  exact hp

/-- `acceptCallback` of a server stops at an answer that is not positive. -/
theorem Change.of_stop {r : FdResult} {fd : Fd} (ha : a.answer = some r)
    (hk : w.table.answer r = some (fd, t.table)) (hfd : fd.num ≤ 0) (hp : t.owned = w.owned) :
    Change w a t := by
  obtain ⟨n, rfl, rfl⟩ | ⟨e, rfl, rfl, ht⟩ := FdTable.answer_cases hk
  · have hn : n = 0 := by simpa using hfd
    refine .give n ha hk ?_
    unfold Act.newOwners
    rw [if_pos hn, hp]
    exact .refl _
  · refine .of_perm ?_ ht (by rw [hp])
    intro n hn
    rw [ha] at hn
    cases hn

/-- The destructor of the object at `i`. -/
theorem Change.of_destruct {i : ℕ} {o : Object} (ha : ∀ n, a.answer ≠ some (.fd n))
    (hi : w.objects[i]? = some o)
    (ht : t = { table := o.destruct w.table, objects := w.objects.eraseIdx i }) :
    Change w a t := by
  subst ht
  exact .release o.owned ha (o.destruct_eq w.table) (owned_at hi)

theorem update_socket {file : ℕ → Option OpenFile} {n m d : ℕ} {x : Option OpenFile}
    (hn : ∀ d, file n ≠ some (.socket d)) (h : file m = some (.socket d)) :
    Function.update file n x m = some (.socket d) := by
  have hne : m ≠ n := fun he => hn d (he ▸ h)
  rw [Function.update_of_ne hne]
  exact h

/-! #### The steps -/

theorem change_makeNewSocket {r : FdResult} (hs : w.makeNewSocket r = some t) :
    Change w (.makeNewSocket r) t := by
  simp only [makeNewSocket, Socket.makeNewSocket, Option.bind_eq_bind, Option.bind_eq_some_iff,
    Option.some.injEq] at hs
  obtain ⟨-, ⟨⟨fd, table⟩, hk, rfl⟩, rfl⟩ := hs
  refine .of_socket rfl id hk ?_
  exact owned_append w.objects (Object.owned_socket ⟨fd⟩)

theorem change_moveSocket {i : ℕ} (hs : w.moveSocket i = some t) :
    Change w (.moveSocket i) t := by
  unfold moveSocket at hs
  split at hs
  next s hi =>
    cases hs
    exact .of_perm nofun rfl (owned_move hi rfl rfl)
  next eventFd s hi =>
    cases hs
    exact .of_perm nofun rfl (owned_move hi rfl rfl)
  next => cases hs

theorem change_newTcpServer {i : ℕ} (hs : w.newTcpServer i = some t) :
    Change w (.newTcpServer i) t := by
  unfold newTcpServer at hs
  split at hs
  next s hi =>
    cases hs
    exact .of_perm nofun rfl (owned_move hi rfl rfl)
  next => cases hs

theorem change_acceptCallback {i : ℕ} {r : FdResult} (hs : w.acceptCallback i r = some t) :
    Change w (.acceptCallback i r) t := by
  unfold acceptCallback at hs
  split at hs
  next =>
    simp only [Option.bind_eq_bind, Option.bind_eq_some_iff] at hs
    obtain ⟨⟨fd, table⟩, hk, hs⟩ := hs
    split at hs
    next hfd =>
      cases hs
      exact .of_stop rfl hk hfd rfl
    next =>
      cases hs
      refine .of_socket rfl id hk ?_
      exact owned_append w.objects (Object.owned_makeHeapObject fd)
  next => cases hs

theorem change_connect {i : ℕ} {r : FdResult} {grow : Bool} (hs : w.connect i r grow = some t) :
    Change w (.connect i r grow) t := by
  unfold connect at hs
  split at hs
  next clients hi =>
    simp only [Socket.makeNewSocket, Socket.pushBack_eq, Option.bind_eq_bind,
      Option.bind_eq_some_iff, Option.some.injEq, List.getLast?_concat] at hs
    obtain ⟨-, ⟨⟨fd, table⟩, hk, rfl⟩, -, rfl, rfl⟩ := hs
    refine .of_shared rfl trivial hk ?_
    refine (owned_append _ (Object.owned_makeHeapObject fd)).trans ?_
    exact (owned_grow hi (Object.owned_clients clients ⟨fd⟩)).append_left (⟨fd⟩ : Socket).owned
  next => cases hs

theorem change_createServerPort {i : ℕ} {r : FdResult} {grow : Bool}
    (hs : w.createServerPort i r grow = some t) : Change w (.createServerPort i r grow) t := by
  unfold createServerPort at hs
  split at hs
  next serverfds clientfds hi =>
    simp only [Socket.makeNewSocket, Socket.pushBack_eq, Option.bind_eq_bind,
      Option.bind_eq_some_iff, Option.some.injEq] at hs
    obtain ⟨-, ⟨⟨fd, table⟩, hk, rfl⟩, rfl⟩ := hs
    refine .of_socket rfl id hk ?_
    exact owned_grow hi (Object.owned_serverfds serverfds clientfds ⟨fd⟩)
  next => cases hs

theorem change_createClientConn {i : ℕ} {r : FdResult} {grow : Bool}
    (hs : w.createClientConn i r grow = some t) : Change w (.createClientConn i r grow) t := by
  unfold createClientConn at hs
  split at hs
  next serverfds clientfds hi =>
    simp only [Socket.makeNewSocket, Socket.pushBack_eq, Option.bind_eq_bind,
      Option.bind_eq_some_iff, Option.some.injEq, List.getLast?_concat] at hs
    obtain ⟨-, ⟨⟨fd, table⟩, hk, rfl⟩, -, rfl, rfl⟩ := hs
    have hgrow := owned_grow hi (Object.owned_clientfds serverfds clientfds ⟨fd⟩)
    refine .of_shared rfl trivial hk ?_
    refine (owned_append _ (Object.owned_makeHeapObject fd)).trans ?_
    exact hgrow.append_left (⟨fd⟩ : Socket).owned
  next => cases hs

theorem change_acceptPort {i : ℕ} {r : FdResult} (hs : w.acceptPort i r = some t) :
    Change w (.acceptPort i r) t := by
  unfold acceptPort at hs
  split at hs
  next =>
    simp only [Option.bind_eq_bind, Option.bind_eq_some_iff] at hs
    obtain ⟨⟨fd, table⟩, hk, hs⟩ := hs
    split at hs
    case h_4 =>
      cases hs
      refine .of_socket rfl id hk ?_
      exact owned_append w.objects (Object.owned_makeHeapObject fd)
    all_goals
      -- the errors
      cases hk
      cases hs
      exact .of_perm nofun rfl (.refl _)
  next => cases hs

theorem change_closeConnection {i : ℕ} {unsent : Bool}
    (hs : w.closeConnection i unsent = some t) : Change w (.closeConnection i unsent) t := by
  unfold closeConnection at hs
  split at hs
  next eventFd s hi =>
    split at hs
    next =>
      cases hs
      exact .of_perm nofun rfl (.refl _)
    next => exact .of_destruct nofun hi (Option.some.inj hs).symm
  next => cases hs

theorem change_destroy {i : ℕ} (hs : w.destroy i = some t) : Change w (.destroy i) t := by
  unfold destroy at hs
  split at hs
  next => cases hs
  next o hne hi => exact .of_destruct nofun hi (Option.some.inj hs).symm
  next => cases hs

/-- Other code changes a number that is no socket. -/
theorem Change.of_other {n : ℕ} {x : Option OpenFile} (ha : ∀ n, a.answer ≠ some (.fd n))
    (hn : ∀ d, w.table.file n ≠ some (.socket d))
    (ht : t = { w with table := { w.table with file := Function.update w.table.file n x } }) :
    Change w a t := by
  subst ht
  exact .other ha rfl rfl rfl fun m d hm => update_socket hn hm

theorem change_openOther {n : ℕ} (hs : w.openOther n = some t) : Change w (.openOther n) t := by
  unfold openOther at hs
  split at hs
  next hn => exact .of_other nofun (by rw [hn]; nofun) (Option.some.inj hs).symm
  next => cases hs

theorem change_closeOther {n : ℕ} (hs : w.closeOther n = some t) :
    Change w (.closeOther n) t := by
  unfold closeOther at hs
  split at hs
  next hn => exact .of_other nofun (by rw [hn]; nofun) (Option.some.inj hs).symm
  next => cases hs

/-- Every step changes the table and the ownership in one of the four ways. -/
theorem change_of_step (hs : system.Step w a t) : Change w a t := by
  change w.step a = some t at hs
  cases a with
  | makeNewSocket r => exact change_makeNewSocket hs
  | moveSocket i => exact change_moveSocket hs
  | newTcpServer i => exact change_newTcpServer hs
  | acceptCallback i r => exact change_acceptCallback hs
  | newTcpClient =>
      cases hs
      exact .of_perm nofun rfl (owned_append w.objects rfl)
  | connect i r grow => exact change_connect hs
  | newFreeServerClient =>
      cases hs
      exact .of_perm nofun rfl (owned_append w.objects rfl)
  | createServerPort i r grow => exact change_createServerPort hs
  | createClientConn i r grow => exact change_createClientConn hs
  | acceptPort i r => exact change_acceptPort hs
  | closeConnection i unsent => exact change_closeConnection hs
  | destroy i => exact change_destroy hs
  | openOther n => exact change_openOther hs
  | closeOther n => exact change_closeOther hs

/-! ### Runs that obtain descriptors for single Sockets -/

/-- The descriptors that Sockets own. -/
def held (w : World) : List ℕ := w.owned.filterMap Fd.origin

def Books (w : World) : Prop := Balanced (List.range w.table.given) w.held w.table.closed

theorem Books.ownedOnce (h : w.Books) : w.OwnedOnce := by
  intro d hd
  have hone : w.owners d + w.closes d = 1 := h.count_of_mem (List.mem_range.mpr hd)
  omega

theorem foldl_close (gone : List Fd) (k : FdTable) :
    (gone.foldl (fun k fd => k.close fd) k).given = k.given ∧
      (gone.foldl (fun k fd => k.close fd) k).closed = k.closed ++ gone.filterMap Fd.origin := by
  induction gone generalizing k with
  | nil => exact ⟨rfl, (List.append_nil _).symm⟩
  | cons fd gone ih =>
      obtain ⟨hg, hc⟩ := ih (k.close fd)
      refine ⟨hg, hc.trans ?_⟩
      unfold FdTable.close
      cases ho : fd.origin with
      | none => simp [ho]
      | some d => simp [ho]

theorem answer_fd {n : ℕ} {k k' : FdTable} {fd : Fd} (h : k.answer (.fd n) = some (fd, k')) :
    k.file n = none ∧ k' = { k with
      file := Function.update k.file n (some (.socket k.given)), given := k.given + 1 } := by
  unfold FdTable.answer at h
  dsimp only at h
  split at h
  · rename_i hn
    cases h
    exact ⟨hn, rfl⟩
  · cases h

theorem held_give {n m d : ℕ} (hp : t.owned.Perm (List.replicate m ⟨n, some d⟩ ++ w.owned)) :
    t.held.Perm (List.replicate m d ++ w.held) := by
  have hf := hp.filterMap Fd.origin
  rw [List.filterMap_append, List.filterMap_replicate] at hf
  exact hf

/-- A new descriptor has the owners that the step makes. -/
theorem Books.new_owners (h : w.Books) {n : ℕ}
    (hk : w.table.answer (.fd n) = some (⟨n, some w.table.given⟩, t.table))
    (hp : t.owned.Perm (List.replicate (a.newOwners n) ⟨n, some w.table.given⟩ ++ w.owned)) :
    t.owners w.table.given + t.closes w.table.given = a.newOwners n := by
  have hc : t.table.closed = w.table.closed := by rw [(answer_fd hk).2]
  unfold closes
  rw [hc]
  exact h.count_entry List.not_mem_range_self (held_give hp)

theorem Act.newOwners_eq_one {n : ℕ} : a.newOwners n = 1 ↔ n ≠ 0 ∧ ¬ a.Shares := by
  unfold newOwners
  split
  · simp [*]
  · split <;> simp [*]

theorem Act.single_of {n : ℕ} (ha : a.answer = some (.fd n)) (hn : n ≠ 0) (hs : ¬ a.Shares) :
    a.Single := by
  intro m hm
  rw [ha] at hm
  cases hm
  exact ⟨hn, hs⟩

theorem books_step (h : w.Books) (hc : Change w a t) (ha : a.Single) : t.Books := by
  unfold Books
  cases hc with
  | keep k _ ht hp =>
      rw [ht]
      refine h.of_perm ?_
      have hf := hp.filterMap Fd.origin
      rw [List.filterMap_append, List.filterMap_replicate] at hf
      exact hf
  | give n hr hk hp =>
      rw [Act.newOwners_eq_one.mpr (ha n hr)] at hp
      rw [(answer_fd hk).2, List.range_succ]
      exact h.give List.not_mem_range_self (held_give hp)
  | release gone _ ht hp =>
      obtain ⟨hg, hcl⟩ := foldl_close gone w.table
      rw [ht, hg, hcl]
      refine h.giveBack ?_
      have hf := hp.filterMap Fd.origin
      rw [List.filterMap_append] at hf
      exact hf
  | other _ ho hg hcl _ =>
      unfold held
      rw [ho, hg, hcl]
      exact h

theorem books_of_reachable (h : Reachable (system.guarded fun _ a => a.Single) w) : w.Books := by
  induction h with
  | init hi =>
      obtain ⟨ho, hg, hcl, -⟩ := hi
      unfold Books held owned
      rw [ho, hg, hcl]
      exact .nil
  | step _ hs ih => exact books_step ih (change_of_step hs.1) hs.2

/-- In the runs that obtain every descriptor, under a number other than 0, for a single Socket,
a descriptor has one owner, or none and was closed once; and a step keeps it so if and only if
it obtains its descriptor like that. -/
theorem owned_once (h : Reachable (system.guarded fun _ a => a.Single) w) :
    w.OwnedOnce ∧ ∀ a t, system.Step w a t → (t.OwnedOnce ↔ a.Single) := by
  have hb := books_of_reachable h
  refine ⟨hb.ownedOnce, fun a t hs => ⟨fun ht n hr => ?_, fun ha => ?_⟩⟩
  · have hc := change_of_step hs
    cases hc with
    | give m hr' hk hp =>
        obtain rfl : m = n := by
          rw [hr] at hr'
          cases hr'
          rfl
        have hnew := hb.new_owners hk hp
        have hlt : w.table.given < t.table.given := by
          rw [(answer_fd hk).2]
          exact Nat.lt_succ_self _
        have hone := ht w.table.given hlt
        exact Act.newOwners_eq_one.mp (by omega)
    | keep k hno => exact absurd hr (hno n)
    | release gone hno => exact absurd hr (hno n)
    | other hno => exact absurd hr (hno n)
  · exact (books_step hb (change_of_step hs) ha).ownedOnce

/-- A server that accepts a connection and closes it, and is destroyed. -/
def servedOnce : List Act :=
  [.makeNewSocket (.fd 3), .newTcpServer 0, .acceptCallback 1 (.fd 4),
    .acceptCallback 1 (.error .EAGAIN), .closeConnection 2 false, .destroy 1]

theorem owned_once_servedOnce :
    ∃ w, Path (system.guarded fun _ a => a.Single) {} servedOnce w ∧ w.table.closed = [1, 0] ∧
      w.OwnedOnce ∧ ∀ a t, system.Step w a t → (t.OwnedOnce ↔ a.Single) := by
  obtain ⟨w, hp, hc⟩ : ∃ w, Path (system.guarded fun _ a => a.Single) {} servedOnce w ∧
      w.table.closed = [1, 0] :=
    ⟨_, .cons ⟨rfl, Act.single_of rfl (by decide) id⟩ (.cons ⟨rfl, nofun⟩
      (.cons ⟨rfl, Act.single_of rfl (by decide) id⟩ (.cons ⟨rfl, nofun⟩
        (.cons ⟨rfl, nofun⟩ (.cons ⟨rfl, nofun⟩ (.nil _)))))), rfl⟩
  exact ⟨w, hp, hc, owned_once (hp.reachable (.init ⟨rfl, rfl, rfl, nofun⟩))⟩

/-- A client connects, its connection is closed, and another Socket gets the number; the end of
the client closes that Socket's descriptor. -/
theorem connect_closes_twice : system.Init {} ∧ ∃ v w,
    Path system {} [.newTcpClient, .connect 0 (.fd 5) false] v ∧ v.owners 0 = 2 ∧
      Path system v [.closeConnection 1 false, .makeNewSocket (.fd 5), .destroy 0] w ∧
        w.closes 0 = 2 ∧ w.owners 1 = 1 ∧ w.table.file 5 = none :=
  ⟨⟨rfl, rfl, rfl, nofun⟩, _, _, .cons rfl (.cons rfl (.nil _)), by decide,
    .cons rfl (.cons rfl (.cons rfl (.nil _))), by decide, by decide, by decide⟩

/-! ### Numbers stand for their descriptors -/

/-- The number is open for the descriptor it is a copy of, or is the error `-1`. -/
def Standing (k : FdTable) (fd : Fd) : Prop :=
  match fd.origin with
  | some d => ∃ n : ℕ, fd.num = n ∧ k.file n = some (.socket d)
  | none => fd.num < 0

theorem Standing.of_file {k k' : FdTable} {fd : Fd} (h : Standing k fd)
    (hf : ∀ n d, k.file n = some (.socket d) → k'.file n = some (.socket d)) :
    Standing k' fd := by
  obtain ⟨num, origin⟩ := fd
  cases origin with
  | none => exact h
  | some d =>
      obtain ⟨n, hn, hfile⟩ := h
      exact ⟨n, hn, hf n d hfile⟩

/-- To close one Socket leaves the numbers of the others open. -/
theorem Standing.close {k : FdTable} {fd x : Fd} {fds : List Fd}
    (hnd : ((fd :: fds).filterMap Fd.origin).Nodup) (hfd : Standing k fd) (hx : x ∈ fds)
    (h : Standing k x) : Standing (k.close fd) x := by
  obtain ⟨num, origin⟩ := x
  cases origin with
  | none => exact h
  | some d =>
      obtain ⟨n, rfl, hfile⟩ := h
      refine ⟨n, rfl, ?_⟩
      have hne : (n : ℤ) ≠ fd.num := by
        intro he
        obtain ⟨num', origin'⟩ := fd
        cases origin' with
        | none =>
            have hneg : num' < 0 := hfd
            change (n : ℤ) = num' at he
            omega
        | some d' =>
            obtain ⟨m, hm, hfile'⟩ := hfd
            have hmn : m = n := Int.ofNat.inj (hm.symm.trans he.symm)
            rw [hmn, hfile] at hfile'
            obtain rfl : d = d' := by
              cases hfile'
              rfl
            exact (List.nodup_cons.mp hnd).1 (List.mem_filterMap.mpr ⟨_, hx, rfl⟩)
      show (if (n : ℤ) = fd.num then none else k.file n) = _
      rw [if_neg hne]
      exact hfile

theorem standing_release {k : FdTable} {gone fds : List Fd}
    (hnd : ((gone ++ fds).filterMap Fd.origin).Nodup) (h : ∀ x ∈ gone ++ fds, Standing k x) :
    ∀ x ∈ fds, Standing (gone.foldl (fun k fd => k.close fd) k) x := by
  induction gone generalizing k with
  | nil => exact h
  | cons fd gone ih =>
      have hfd : Standing k fd := h fd (List.mem_cons_self ..)
      refine ih ?_ fun x hx => Standing.close hnd hfd hx (h x (List.mem_cons_of_mem _ hx))
      rw [List.cons_append, List.filterMap_cons] at hnd
      split at hnd
      · exact hnd
      · exact (List.nodup_cons.mp hnd).2

/-- Every number that a Socket owns still stands for the Socket's descriptor. -/
def Stands (w : World) : Prop := ∀ fd ∈ w.owned, Standing w.table fd

theorem stands_step (hb : w.Books) (h : w.Stands) (hc : Change w a t) : t.Stands := by
  intro x hx
  cases hc with
  | keep k _ ht hp =>
      rw [ht]
      obtain hk | hw := List.mem_append.mp (hp.mem_iff.mp hx)
      · rw [List.eq_of_mem_replicate hk]
        exact (by decide : (-1 : ℤ) < 0)
      · exact h x hw
  | give n _ hk hp =>
      obtain ⟨hfree, ht⟩ := answer_fd hk
      rw [ht]
      obtain hk | hw := List.mem_append.mp (hp.mem_iff.mp hx)
      · rw [List.eq_of_mem_replicate hk]
        exact ⟨n, rfl, Function.update_self ..⟩
      · refine (h x hw).of_file fun m d hm => update_socket (fun d' => ?_) hm
        rw [hfree]
        nofun
  | release gone _ ht hp =>
      rw [ht]
      refine standing_release ?_ (fun y hy => h y (hp.mem_iff.mpr hy)) x hx
      exact (hp.filterMap Fd.origin).nodup_iff.mp hb.held_nodup
  | other _ ho _ _ hf => exact (h x (ho ▸ hx)).of_file hf

theorem stands_of_reachable (h : Reachable (system.guarded fun _ a => a.Single) w) :
    w.Stands := by
  induction h with
  | init hi =>
      intro x hx
      rw [owned, hi.1] at hx
      cases hx
  | step hr hs ih => exact stands_step (books_of_reachable hr) ih (change_of_step hs.1)

end World

end Dagger

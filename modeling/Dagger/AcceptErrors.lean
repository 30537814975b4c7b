import Dagger.EventLoopPool
import Dagger.FreeServerClient
import Dagger.Socket

/-! # Errors of `accept`

The two `acceptCallback`s with what they leave behind: the events and connections they make, the
loops that `getNextPool` picks, the epoll sets, and the calls of the user's callback for a new
connection.  `TcpServer` breaks out of its loop whenever `accept` fails.  `FreeServerClient` returns
after three errors and only logs the others, and then makes a connection of the number -1.

`made_iff` says when a callback makes one connection for each descriptor and nothing else.  The
errors that are only logged leave no trace here. -/

namespace Dagger

deriving instance DecidableEq for PooledLoop

/-- The number a loop has among those of the server. -/
def PooledLoop.id : PooledLoop → LoopId
  | .single => 0
  | .helper i => i + 1

/-- A result of `::accept`. -/
structure Answer where
  accept : FdResult
  /-- `epoll_ctl` finds room for another descriptor. -/
  room : Bool := true

/-- The `int` that `::accept` returns. -/
def Answer.connfd (a : Answer) : ℤ :=
  match a.accept with
  | .fd n => n
  | .error _ => -1

structure Acceptor where
  pool : EventLoopPool := {}
  timeInProcess : UInt32 := 0
  /-- The `Event`s made, with the loops of their epollers. -/
  events : List (ℤ × PooledLoop) := []
  /-- The connections made, with their descriptors. -/
  conns : List (ℤ × TcpConnection) := []
  /-- The epoll sets. -/
  epoll : PooledLoop × ℤ → Option EpollFlags := fun _ => none
  /-- The descriptors of the connections that the user's callback was called with. -/
  calls : List ℤ := []

namespace Acceptor

open TcpConnection

section Defs

variable (s : Acceptor)

/-- `EPOLL_CTL_ADD`. -/
def addEvent (loop : PooledLoop) (fd : ℤ) (room : Bool) : Acceptor :=
  if 0 ≤ fd ∧ s.epoll (loop, fd) = none ∧ room then
    { s with epoll := Function.update s.epoll (loop, fd) (some {}) }
  else s

/-- `EPOLL_CTL_MOD`. -/
def updateEvent (loop : PooledLoop) (fd : ℤ) (events : EpollFlags) : Acceptor :=
  if (s.epoll (loop, fd)).isSome then
    { s with epoll := Function.update s.epoll (loop, fd) (some events) }
  else s

/-- What both callbacks do with a descriptor once a loop is picked: `Event::make`,
`TcpConnection::makeHeapObject`, `setReadable(true)` and the user's callback. -/
def connected (loop : PooledLoop) (connfd : ℤ) (room : Bool) (newConn : LoopId → TcpConnection)
    (establishedCallback : Bool) : Acceptor :=
  let s := { s with pool := s.pool.next .getNextPool, events := s.events ++ [(connfd, loop)] }
  let s := s.addEvent loop connfd room
  let conn := newConn loop.id
  let s := { s with conns := s.conns ++ [(connfd, conn)] }
  let s := s.updateEvent loop connfd conn.event.events
  if establishedCallback then { s with calls := s.calls ++ [connfd] } else s

/-- `none` is a division by zero in `getNextPool`. -/
def connect (connfd : ℤ) (room : Bool) (newConn : LoopId → TcpConnection)
    (establishedCallback : Bool) : Option Acceptor := do
  let ownerEventLoop ← s.pool.getNextPool
  some (s.connected ownerEventLoop connfd room newConn establishedCallback)

end Defs

/-- `TcpServer::acceptCallback` with the results of its calls of `accept`. -/
def acceptCallback (server : TcpServer) : List Answer → Acceptor → Option Acceptor
  | [], s => some s
  | a :: answers, s =>
      if a.connfd ≤ 0 then some s
      else do
        let s ← s.connect a.connfd a.room (fun l => TcpServer.accepted l s.timeInProcess)
          server.connEstaCallback
        acceptCallback server answers s

/-- `FreeServerClient::acceptCallback` with the result of its call of `accept`. -/
def acceptPort (free : FreeServerClient) (a : Answer) (s : Acceptor) : Option Acceptor :=
  match a.accept with
  | .error .EAGAIN | .error .EPROTO | .error .ECONNABORTED => some s
  | _ => s.connect a.connfd a.room free.accepted free.establishedCallback

/-! ### What the callbacks are for -/

/-- The positive descriptors up to the first other result. -/
def positives : List Answer → List ℕ
  | [] => []
  | a :: answers =>
      match a.accept with
      | .fd n => if n = 0 then [] else n :: positives answers
      | .error _ => []

/-- The kernel reports reads on the descriptor to the loop. -/
def Reads (s : Acceptor) (loop : PooledLoop) (fd : ℤ) : Prop :=
  ∃ flags, s.epoll (loop, fd) = some flags ∧ flags.EPOLLIN = true

/-- `t` has one more connection for each of the new descriptors than `s`, with one event, one pick
of a loop and, if there is a callback, one call of it; and nothing else. -/
structure Made (establishedCallback : Bool) (s : Acceptor) (new : List (ℕ × PooledLoop))
    (t : Acceptor) : Prop where
  events : t.events = s.events ++ new.map fun e => ((e.1 : ℤ), e.2)
  conns : ∃ conns : List (ℤ × TcpConnection), t.conns = s.conns ++ conns ∧
    conns.map (fun e => (e.1, e.2.loop)) = new.map fun e => ((e.1 : ℤ), e.2.id)
  pool : t.pool = new.foldl (fun pool _ => pool.next .getNextPool) s.pool
  calls : t.calls = s.calls ++ if establishedCallback then new.map fun e => (e.1 : ℤ) else []
  reads : ∀ e ∈ new, ∀ loop, t.Reads loop e.1 ↔ loop = e.2
  others : ∀ fd, (∀ e ∈ new, (e.1 : ℤ) ≠ fd) → ∀ loop, t.epoll (loop, fd) = s.epoll (loop, fd)

/-- The callback that ends in `r` has made connections of the descriptors, and nothing else. -/
def Makes (establishedCallback : Bool) (s : Acceptor) (fds : List ℕ) (r : Option Acceptor) :
    Prop :=
  ∃ t new, r = some t ∧ new.map Prod.fst = fds ∧ Made establishedCallback s new t

/-- The descriptors are new: no epoll set has them. -/
def Fresh (s : Acceptor) (fds : List ℕ) : Prop :=
  fds.Nodup ∧ ∀ n ∈ fds, ∀ loop, s.epoll (loop, n) = none

/-- `getNextPool` does not divide by zero. -/
def CanPick (s : Acceptor) : Prop := s.pool.threads = [] ∨ s.pool.realSize ≠ 0

/-- The epoll sets have room for the positive descriptors. -/
def Room : List Answer → Prop
  | [] => True
  | a :: answers =>
      match a.accept with
      | .fd n => n = 0 ∨ (a.room = true ∧ Room answers)
      | .error _ => True

/-- The errors after which `FreeServerClient::acceptCallback` returns. -/
def Transient (e : Errno) : Prop := e = .EAGAIN ∨ e = .EPROTO ∨ e = .ECONNABORTED

/-- A port can go on with the descriptor, or returns with the error. -/
def Spares (s : Acceptor) (a : Answer) : Prop :=
  match a.accept with
  | .fd _ => s.CanPick ∧ a.room = true
  | .error e => Transient e

variable {s t u : Acceptor} {loop : PooledLoop} {fd : ℤ} {room esta : Bool}
  {newConn : LoopId → TcpConnection} {n : ℕ} {ns : List ℕ} {a : Answer} {answers : List Answer}

/-! ### `getNextPool` -/

theorem exists_getNextPool : (∃ loop, s.pool.getNextPool = some loop) ↔ s.CanPick := by
  unfold EventLoopPool.getNextPool CanPick
  by_cases ht : s.pool.threads = []
  · simp [ht]
  · by_cases hr : s.pool.realSize = 0
    · simp [ht, hr]
    · simp [ht, hr]

/-! ### One connection -/

/-- The epoll sets after `Event::make` and `setReadable(true)`. -/
def watched (s : Acceptor) (loop : PooledLoop) (fd : ℤ) (room : Bool) (events : EpollFlags) :
    PooledLoop × ℤ → Option EpollFlags :=
  ((s.addEvent loop fd room).updateEvent loop fd events).epoll

theorem connected_eq (s : Acceptor) (loop : PooledLoop) (fd : ℤ) (room : Bool)
    (newConn : LoopId → TcpConnection) (esta : Bool) :
    s.connected loop fd room newConn esta = { s with
      pool := s.pool.next .getNextPool
      events := s.events ++ [(fd, loop)]
      conns := s.conns ++ [(fd, newConn loop.id)]
      epoll := s.watched loop fd room (newConn loop.id).event.events
      calls := s.calls ++ if esta then [fd] else [] } := by
  unfold connected watched addEvent updateEvent
  dsimp only
  cases esta with
  | false =>
      simp only [Bool.false_eq_true, if_false, List.append_nil]
      split_ifs <;> rfl
  | true =>
      simp only [if_true]
      split_ifs <;> rfl

theorem threads_getNextPool (pool : EventLoopPool) :
    (pool.next .getNextPool).threads = pool.threads ∧
      (pool.next .getNextPool).realSize = pool.realSize := by
  unfold EventLoopPool.next
  dsimp only
  split_ifs <;> exact ⟨rfl, rfl⟩

theorem canPick_connected : (s.connected loop fd room newConn esta).CanPick ↔ s.CanPick := by
  obtain ⟨hthreads, hsize⟩ := threads_getNextPool s.pool
  unfold CanPick
  rw [connected_eq]
  dsimp only
  rw [hthreads, hsize]

/-- Another descriptor keeps its place in the epoll sets. -/
theorem watched_of_ne {loop' : PooledLoop} {fd' : ℤ} (hne : fd' ≠ fd) (events : EpollFlags) :
    s.watched loop fd room events (loop', fd') = s.epoll (loop', fd') := by
  have hpair : (loop', fd') ≠ (loop, fd) := fun he => hne (congrArg Prod.snd he)
  unfold watched updateEvent addEvent
  split_ifs <;> simp only [Function.update_of_ne hpair]

theorem watched_of_full (hfree : s.epoll (loop, fd) = none) (events : EpollFlags) :
    s.watched loop fd false events = s.epoll := by
  unfold watched updateEvent addEvent
  simp [hfree]

/-- A new descriptor is in the set of one loop. -/
theorem watched_of_room {loop' : PooledLoop} (hfree : ∀ l, s.epoll (l, (n : ℤ)) = none)
    (events : EpollFlags) : s.watched loop n true events (loop', n) =
      if loop' = loop then some events else none := by
  unfold watched updateEvent addEvent
  simp only [hfree, Int.natCast_nonneg, true_and, if_true, Function.update_self,
    Option.isSome_some]
  by_cases hl : loop' = loop
  · rw [if_pos hl, hl, Function.update_self]
  · have hpair : (loop', (n : ℤ)) ≠ (loop, (n : ℤ)) := fun he => hl (congrArg Prod.fst he)
    rw [if_neg hl, Function.update_of_ne hpair, Function.update_of_ne hpair, hfree]

theorem made_connected (hfree : ∀ l, s.epoll (l, (n : ℤ)) = none)
    (hloop : (newConn loop.id).loop = loop.id)
    (hread : (newConn loop.id).event.isReadable = true) :
    Made esta s [(n, loop)] (s.connected loop n true newConn esta) := by
  rw [connected_eq]
  refine ⟨rfl, ⟨[(n, newConn loop.id)], rfl, ?_⟩, rfl, ?_, ?_, ?_⟩
  · simp [hloop]
  · rfl
  · intro e he l
    obtain rfl := List.mem_singleton.mp he
    unfold Reads
    dsimp only
    rw [watched_of_room hfree]
    split_ifs with hl
    · exact iff_of_true ⟨_, rfl, hread⟩ hl
    · exact iff_of_false (fun ⟨_, hf, _⟩ => by cases hf) hl
  · intro fd hfd l
    exact watched_of_ne (hfd _ (List.mem_singleton.mpr rfl)).symm _

theorem Made.refl (esta : Bool) (s : Acceptor) : Made esta s [] s := by
  refine ⟨(List.append_nil _).symm, ⟨[], (List.append_nil _).symm, rfl⟩, rfl, ?_, nofun,
    fun _ _ _ => rfl⟩
  simp

theorem Made.trans {new new' : List (ℕ × PooledLoop)} (h : Made esta s new t)
    (h' : Made esta t new' u) (hdis : ∀ e ∈ new, ∀ e' ∈ new', e'.1 ≠ e.1) :
    Made esta s (new ++ new') u := by
  obtain ⟨conns, hc, hm⟩ := h.conns
  obtain ⟨conns', hc', hm'⟩ := h'.conns
  refine ⟨?_, ⟨conns ++ conns', ?_, ?_⟩, ?_, ?_, ?_, ?_⟩
  · rw [h'.events, h.events, List.map_append, List.append_assoc]
  · rw [hc', hc, List.append_assoc]
  · rw [List.map_append, List.map_append, hm, hm']
  · rw [h'.pool, h.pool, List.foldl_append]
  · rw [h'.calls, h.calls, List.append_assoc]
    cases esta <;> simp
  · intro e he l
    rcases List.mem_append.mp he with he | he
    · rw [← h.reads e he l]
      unfold Reads
      rw [h'.others e.1 (fun e' he' heq => hdis e he e' he' (Int.ofNat_inj.mp heq))]
    · exact h'.reads e he l
  · intro fd hfd l
    rw [h'.others fd fun e he => hfd e (List.mem_append_right _ he),
      h.others fd fun e he => hfd e (List.mem_append_left _ he)]

theorem not_reads_connected (hfree : ∀ l, s.epoll (l, fd) = none) (l : PooledLoop) :
    ¬ (s.connected loop fd false newConn esta).Reads l fd := by
  rintro ⟨flags, hf, -⟩
  rw [connected_eq] at hf
  dsimp only at hf
  rw [watched_of_full (hfree loop), hfree] at hf
  cases hf

theorem connect_of_pick (hp : s.pool.getNextPool = some loop) :
    s.connect fd room newConn esta = some (s.connected loop fd room newConn esta) := by
  unfold connect
  rw [hp]
  rfl

theorem connect_eq_some (ht : s.connect fd room newConn esta = some t) : ∃ loop,
    s.pool.getNextPool = some loop ∧ t = s.connected loop fd room newConn esta := by
  obtain ⟨loop, hp, ht⟩ := Option.bind_eq_some_iff.mp ht
  exact ⟨loop, hp, (Option.some.inj ht).symm⟩

theorem makes_connect_iff (hfree : ∀ l, s.epoll (l, (n : ℤ)) = none)
    (hloop : ∀ l, (newConn l).loop = l) (hread : ∀ l, (newConn l).event.isReadable = true) :
    Makes esta s [n] (s.connect n room newConn esta) ↔ s.CanPick ∧ room = true := by
  constructor
  · rintro ⟨t, new, ht, hnew, hm⟩
    obtain ⟨loop, hp, rfl⟩ := connect_eq_some ht
    refine ⟨exists_getNextPool.mp ⟨loop, hp⟩, ?_⟩
    by_contra hroom
    rw [Bool.not_eq_true] at hroom
    subst hroom
    obtain ⟨e, rest, rfl⟩ : ∃ e rest, new = e :: rest :=
      List.exists_cons_of_ne_nil fun hnil => by rw [hnil] at hnew; cases hnew
    have he : e.1 = n := (List.cons.inj hnew).1
    have hreads := (hm.reads e List.mem_cons_self e.2).mpr rfl
    rw [he] at hreads
    exact not_reads_connected hfree e.2 hreads
  · rintro ⟨hpick, rfl⟩
    obtain ⟨loop, hp⟩ := exists_getNextPool.mpr hpick
    rw [connect_of_pick hp]
    exact ⟨_, [(n, loop)], rfl, rfl, made_connected hfree (hloop _) (hread _)⟩

/-! ### `FreeServerClient` -/

/-- A connection of the number -1 is one too many. -/
theorem not_makes_nil (r : Option Acceptor) (hr : ∀ t, r = some t → t.events ≠ s.events) :
    ¬ Makes esta s [] r := by
  rintro ⟨t, new, ht, hnew, hm⟩
  obtain rfl := List.map_eq_nil_iff.mp hnew
  refine hr t ht ?_
  rw [hm.events]
  exact List.append_nil _

theorem makes_acceptPort_iff (free : FreeServerClient) (hf : s.Fresh (positives [a]))
    (hzero : a.accept ≠ .fd 0) :
    Makes free.establishedCallback s (positives [a]) (acceptPort free a s) ↔ s.Spares a := by
  obtain ⟨r, room⟩ := a
  cases r with
  | fd n =>
      have hn : n ≠ 0 := fun he => hzero (by rw [he])
      have hpos : positives [⟨.fd n, room⟩] = [n] := by
        unfold positives
        exact if_neg hn
      rw [hpos] at hf ⊢
      exact makes_connect_iff (hf.2 n List.mem_cons_self) (fun _ => rfl) (fun _ => rfl)
  | error e =>
      have hreturns : Makes free.establishedCallback s [] (some s) := ⟨s, [], rfl, rfl, .refl _ s⟩
      cases e with
      | EAGAIN => exact iff_of_true hreturns (Or.inl rfl)
      | EPROTO => exact iff_of_true hreturns (Or.inr (Or.inl rfl))
      | ECONNABORTED => exact iff_of_true hreturns (Or.inr (Or.inr rfl))
      | EINTR | other code =>
          refine iff_of_false (not_makes_nil _ fun t ht => ?_) (by simp [Spares, Transient])
          obtain ⟨loop, -, rfl⟩ := connect_eq_some ht
          rw [connected_eq]
          exact fun he => List.cons_ne_nil _ _ (List.append_right_eq_self.mp he)

/-! ### `TcpServer` -/

variable {server : TcpServer}

theorem acceptCallback_fd (hn : n ≠ 0) (room : Bool) (answers : List Answer) :
    acceptCallback server (⟨.fd n, room⟩ :: answers) s =
      (s.connect n room (fun l => TcpServer.accepted l s.timeInProcess)
        server.connEstaCallback).bind (acceptCallback server answers) := by
  have hpos : ¬ ((n : ℤ) ≤ 0) := by omega
  exact if_neg hpos

theorem positives_fd (hn : n ≠ 0) (room : Bool) (answers : List Answer) :
    positives (⟨.fd n, room⟩ :: answers) = n :: positives answers := if_neg hn

/-- Descriptors that `accept` does not return keep their places. -/
theorem epoll_acceptCallback (ht : acceptCallback server answers s = some t)
    (hfd : ∀ n ∈ positives answers, (n : ℤ) ≠ fd) (l : PooledLoop) :
    t.epoll (l, fd) = s.epoll (l, fd) := by
  induction answers generalizing s with
  | nil =>
      obtain rfl := Option.some.inj ht
      rfl
  | cons a answers ih =>
      obtain ⟨r, room⟩ := a
      cases r with
      | error e =>
          obtain rfl := Option.some.inj ht
          rfl
      | fd n =>
          by_cases hn : n = 0
          · subst hn
            obtain rfl := Option.some.inj ht
            rfl
          · rw [acceptCallback_fd hn] at ht
            rw [positives_fd hn] at hfd
            obtain ⟨u, hu, ht⟩ := Option.bind_eq_some_iff.mp ht
            obtain ⟨loop, -, rfl⟩ := connect_eq_some hu
            rw [ih ht (fun m hm => hfd m (List.mem_cons_of_mem _ hm)), connected_eq]
            exact watched_of_ne (hfd n List.mem_cons_self).symm _

/-- After the first connection the other descriptors are still new. -/
theorem Fresh.connected {loop : PooledLoop} (hf : s.Fresh (n :: ns)) (room : Bool)
    (newConn : LoopId → TcpConnection) (esta : Bool) :
    (s.connected loop n room newConn esta).Fresh ns := by
  obtain ⟨hnodup, hfree⟩ := hf
  obtain ⟨hn, hnodup⟩ := List.nodup_cons.mp hnodup
  refine ⟨hnodup, fun m hm l => ?_⟩
  have hne : (m : ℤ) ≠ n := by
    intro he
    rw [Int.ofNat_inj] at he
    exact hn (he ▸ hm)
  rw [connected_eq]
  exact (watched_of_ne hne _).trans (hfree m (List.mem_cons_of_mem _ hm) l)

/-- By induction on the results of `accept`, with the state left by the connections so far. -/
theorem makes_acceptCallback (hf : s.Fresh (positives answers)) (hroom : Room answers)
    (hpick : positives answers ≠ [] → s.CanPick) :
    Makes server.connEstaCallback s (positives answers) (acceptCallback server answers s) := by
  induction answers generalizing s with
  | nil => exact ⟨s, [], rfl, rfl, .refl _ s⟩
  | cons a answers ih =>
      obtain ⟨r, room⟩ := a
      cases r with
      | error e => exact ⟨s, [], rfl, rfl, .refl _ s⟩
      | fd n =>
          by_cases hn : n = 0
          · subst hn
            exact ⟨s, [], rfl, rfl, .refl _ s⟩
          · rw [positives_fd hn] at hf hpick ⊢
            rw [acceptCallback_fd hn]
            obtain ⟨rfl, hrest⟩ := hroom.resolve_left hn
            have hcan := hpick (List.cons_ne_nil _ _)
            obtain ⟨loop, hp⟩ := exists_getNextPool.mpr hcan
            rw [connect_of_pick hp]
            obtain ⟨t, new, ht, hnew, hm⟩ := ih (hf.connected true _ _) hrest
              fun _ => canPick_connected.mpr hcan
            refine ⟨t, (n, loop) :: new, ht, by rw [List.map_cons, hnew], ?_⟩
            refine (made_connected (hf.2 n List.mem_cons_self) rfl rfl).trans hm ?_
            intro e he e' he' heq
            rw [List.mem_singleton.mp he] at heq
            have hin : e'.1 ∈ positives answers := hnew ▸ List.mem_map_of_mem he'
            rw [heq] at hin
            exact (List.nodup_cons.mp hf.1).1 hin

theorem room_of_reads (hf : s.Fresh (positives answers))
    (ht : acceptCallback server answers s = some t)
    (hreads : ∀ n ∈ positives answers, ∃ l, t.Reads l n) :
    Room answers ∧ (positives answers ≠ [] → s.CanPick) := by
  induction answers generalizing s with
  | nil => exact ⟨trivial, fun hne => absurd rfl hne⟩
  | cons a answers ih =>
      obtain ⟨r, room⟩ := a
      cases r with
      | error e => exact ⟨trivial, fun hne => absurd rfl hne⟩
      | fd n =>
          by_cases hn : n = 0
          · subst hn
            exact ⟨Or.inl rfl, fun hne => absurd rfl hne⟩
          · rw [positives_fd hn] at hf hreads ⊢
            rw [acceptCallback_fd hn] at ht
            obtain ⟨u, hu, ht⟩ := Option.bind_eq_some_iff.mp ht
            obtain ⟨loop, hp, rfl⟩ := connect_eq_some hu
            refine ⟨Or.inr ⟨?_, ?_⟩, fun _ => exists_getNextPool.mp ⟨loop, hp⟩⟩
            · by_contra hroom
              rw [Bool.not_eq_true] at hroom
              subst hroom
              obtain ⟨l, hl⟩ := hreads n List.mem_cons_self
              have hno : ¬ (s.connected loop n false (fun l => TcpServer.accepted l s.timeInProcess)
                  server.connEstaCallback).Reads l n :=
                not_reads_connected (hf.2 n List.mem_cons_self) l
              refine hno ?_
              unfold Reads at hl
              rw [epoll_acceptCallback ht] at hl
              · exact hl
              · intro m hm he
                rw [Int.ofNat_inj] at he
                exact (List.nodup_cons.mp hf.1).1 (he ▸ hm)
            · exact (ih (hf.connected _ _ _) ht
                fun m hm => hreads m (List.mem_cons_of_mem _ hm)).1

theorem makes_acceptCallback_iff (hf : s.Fresh (positives answers)) :
    Makes server.connEstaCallback s (positives answers) (acceptCallback server answers s) ↔
      Room answers ∧ (positives answers ≠ [] → s.CanPick) := by
  constructor
  · rintro ⟨t, new, ht, hnew, hm⟩
    refine room_of_reads hf ht fun n hn => ?_
    rw [← hnew] at hn
    obtain ⟨e, he, rfl⟩ := List.mem_map.mp hn
    exact ⟨e.2, (hm.reads e he e.2).mpr rfl⟩
  · rintro ⟨hroom, hpick⟩
    exact makes_acceptCallback hf hroom hpick

/-- **A failed `accept` creates nothing**, and each positive descriptor becomes one connection that
one loop reads from: in `TcpServer::acceptCallback` exactly when `getNextPool` can pick a loop and
the epoll sets have room for the descriptors; in `FreeServerClient::acceptCallback` exactly when
that holds of its descriptor, or its error is one of the three after which it returns. -/
theorem makes_iff (s : Acceptor) :
    (∀ (server : TcpServer) (answers : List Answer), s.Fresh (positives answers) →
      (Makes server.connEstaCallback s (positives answers) (acceptCallback server answers s) ↔
        Room answers ∧ (positives answers ≠ [] → s.CanPick))) ∧
    ∀ (free : FreeServerClient) (a : Answer), s.Fresh (positives [a]) → a.accept ≠ .fd 0 →
      (Makes free.establishedCallback s (positives [a]) (acceptPort free a s) ↔ s.Spares a) :=
  ⟨fun _ _ hf => makes_acceptCallback_iff hf,
    fun free _ hf hzero => makes_acceptPort_iff free hf hzero⟩

/-- `EMFILE`. -/
def noDescriptors : Answer := { accept := .error (.other 24) }

/-- A port with all callbacks. -/
def allCallbacks : FreeServerClient := ⟨fun b => (true, b), true, true, true, true⟩

/-- A server accepts one connection before the descriptors run out, and a port does not get that
far. -/
theorem makes_iff_noDescriptors :
    Makes true {} [5] (acceptCallback ⟨fun b => (true, b), true, true, false⟩
      [{ accept := .fd 5 }, noDescriptors] {}) ∧
    ¬ Makes true {} [] (acceptPort allCallbacks noDescriptors {}) := by
  have hfive : Fresh {} [5] := ⟨List.nodup_singleton 5, fun _ _ _ => rfl⟩
  constructor
  · refine ((makes_iff {}).1 _ [{ accept := .fd 5 }, noDescriptors] hfive).mpr ?_
    exact ⟨Or.inr ⟨rfl, trivial⟩, fun _ => Or.inl rfl⟩
  · intro h
    have hnil : Fresh {} [] := ⟨List.nodup_nil, nofun⟩
    have hs := ((makes_iff {}).2 allCallbacks noDescriptors hnil nofun).mp h
    revert hs
    simp [Spares, noDescriptors, Transient]

/-- With one helper thread the port makes an event and a connection of the number -1, takes a slot
of the helper and calls the user. -/
theorem acceptPort_noDescriptors : ∃ t,
    acceptPort allCallbacks noDescriptors { pool := EventLoopPool.oneWorker } = some t ∧
      t.events = [(-1, .helper 0)] ∧ t.conns.map Prod.fst = [-1] ∧ t.calls = [-1] ∧
      t.pool.nextIndex = 1 ∧
      ¬ Makes true { pool := EventLoopPool.oneWorker } [] (some t) := by
  refine ⟨_, rfl, rfl, rfl, rfl, rfl, not_makes_nil _ fun t ht => ?_⟩
  rw [← Option.some.inj ht]
  exact List.cons_ne_nil _ _

end Acceptor

end Dagger

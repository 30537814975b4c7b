import Dagger.Echo
import Dagger.FairRuns
import Dagger.ServerDelivery
import Mathlib.Data.List.Rotate

/-! # Ping-pong

The client and the server of `examples/ping-pong`: the client connects and sends one message, and
both send back whatever arrives (the client counts the bytes as well).  The runs are those of
`Act.Moves`: nothing resets the connection or closes it, no end of the file is read, reads bring
bytes and writes take some.

The bytes then go round in a ring of four queues: the two write buffers and the two directions of
the connection.  `ring_rotated` says that they stay the message, up to where it starts, and
`always_returns` that they keep going round when no event is put off for ever.  All this needs the
connect callback to have run by the time `send` looks whether writes are asked for; a `send` that is
over before the callback starts nothing (`never_starts`). -/

namespace Dagger

open TcpConnection Transition

namespace TcpConnection

variable {c : TcpConnection}

theorem Delivering.report (h : c.Delivering) (flags : EpollFlags) : (c.report flags).Delivering :=
  h.effect (.report flags c : Effect false false _ _)

theorem Delivering.read (h : c.Delivering) (readBuffer : ValidBuffer IO_BUFFER_SIZE)
    (data : Option LoopId) (last : UInt32) :
    Delivering { c with readBuffer, data, lastReceiveTime := last } :=
  h.effect (.read readBuffer data last c : Effect false false _ _)

theorem Delivering.message (h : c.Delivering) : (c.log .connMsgCallback).Delivering :=
  h.effect (.callback c nofun nofun : Effect false false _ (c.log .connMsgCallback))

end TcpConnection

namespace PingPong

open Link

/-- The client of `main`. -/
def client : TcpClient := ⟨ValidBuffer.check .UNLIMITED_MODEL 0, false, false, false⟩

/-- `handle()` at end `e`. -/
structure Act where
  e : End
  revents : EpollFlags
  timeInProcess : UInt32
  script : List ReadResult
  write : WriteResult

/-- The event of an action. -/
abbrev Act.event (a : Act) : Action := .event a.revents a.timeInProcess a.script a.write

/-- The callback that an event leads to. -/
def Act.callback (s : Link) (a : Act) : Option Callback :=
  ((s.conn a.e).report a.revents).event.handle

/-- The event may be reported, and brings or takes some bytes. -/
structure Act.Moves (s : Link) (a : Act) : Prop where
  serves : s.Serves a.e a.revents a.timeInProcess a.script a.write
  reads : a.callback s = some .preConnMsgCallback → 0 < Buffer.readReturn a.script
  writes : a.callback s = some .sendNonblock → ∃ n, 0 < n ∧ a.write = .accepted n

def next (idle : Bool) (l : End → LoopId) (s : Link) (a : Act) : Option Link :=
  s.serve client (Echo.server idle) l a.e a.revents a.timeInProcess a.script a.write

def system (idle : Bool) (l : End → LoopId) (msg : List Byte) : System Link Act where
  Init s := ∃ time, s = opened l time msg
  Step s a t := a.Moves s ∧ next idle l s a = some t

/-- The bytes on their way round, from those that reach the client next to those that it has sent
last. -/
def ring (s : Link) : List Byte :=
  (s.pipes .server).flight ++ (s.conn .server).writeBuffer.bytes ++ (s.pipes .client).flight ++
    (s.conn .client).writeBuffer.bytes

/-! ### What one event does -/

/-- An end between two events. -/
structure Ready (p : Peer) : Prop where
  delivering : p.session.conn.Delivering
  alive : p.session.conn.destroys = 0
  staying : p.session.conn.isWillClose = false
  readable : p.session.conn.event.isReadable = true
  loop : p.session.control = .loop
  connected : p.session.attempt = .succeeded
  empty : p.session.conn.readBuffer.bytes = []

structure Playing (s : Link) : Prop where
  ends : ∀ e, Ready (s.ends e)
  intact : ∀ e, (s.pipes e).broken = false

/-- What is queued at end `e` and behind it, and what its user has got. -/
structure Kept (s t : Link) (e : End) : Prop where
  queued : (t.conn e).writeBuffer.bytes = (s.conn e).writeBuffer.bytes
  got : (t.ends e).retrieved = (s.ends e).retrieved

/-- An event that leads to a callback moves bytes from one queue of the ring to the next. -/
inductive Moved (s : Link) (e : End) : Option Callback → Link → Prop
  | idle {t : Link} : (∀ d, Kept s t d) → t.pipes = s.pipes → Moved s e none t
  | read {t : Link} {bs : List Byte} : bs ≠ [] →
      (s.pipes e.peer).flight = bs ++ (t.pipes e.peer).flight →
      (t.conn e).writeBuffer.bytes = (s.conn e).writeBuffer.bytes ++ bs →
      (t.ends e).retrieved = (s.ends e).retrieved ++ bs →
      (t.pipes e).flight = (s.pipes e).flight → Kept s t e.peer →
      Moved s e (some .preConnMsgCallback) t
  | write {t : Link} {bs : List Byte} : bs ≠ [] →
      (s.conn e).writeBuffer.bytes = bs ++ (t.conn e).writeBuffer.bytes →
      (t.pipes e).flight = (s.pipes e).flight ++ bs →
      (t.ends e).retrieved = (s.ends e).retrieved →
      (t.pipes e.peer).flight = (s.pipes e.peer).flight → Kept s t e.peer →
      Moved s e (some .sendNonblock) t

variable {idle : Bool} {l : End → LoopId} {msg : List Byte} {s t : Link} {a : Act} {e : End}

/-- The code at end `e`. -/
abbrev source (idle : Bool) (e : End) : TcpSource := Link.source client (Echo.server idle) e

theorem unlimited (idle : Bool) (e : End) : Unlimited client (Echo.server idle) e := by
  cases e <;> rfl

theorem Ready.callback_cases {p : Peer} (h : Ready p) {revents : EpollFlags}
    (hr : p.session.conn.event.events.Reportable revents) {callback : Callback}
    (hh : (p.session.conn.report revents).event.handle = some callback) :
    callback = .preConnMsgCallback ∨
      (callback = .sendNonblock ∧ p.session.conn.event.writeCallback = some .sendNonblock) := by
  rcases Event.handle_cases h.delivering.wired.plain hr hh with ⟨-, hcb⟩ | ⟨hw, hcb⟩
  · rw [h.delivering.wired.readCallback] at hcb
    exact Or.inl (Option.some.inj hcb).symm
  · have hslot := h.delivering.flushed hw
    exact Or.inr ⟨Option.some.inj (hcb.symm.trans hslot), hslot⟩

/-- Nobody has closed, so that no end of the file is read. -/
theorem readsEof_of_playing (h : Playing s) (hm : a.Moves s) :
    (s.ends a.e).session.readsEof a.event = false := by
  by_contra hne
  obtain ⟨-, -, hd⟩ := hm.serves.legal.2.2.eof (Bool.not_eq_false _ ▸ hne)
  exact absurd (h.ends a.e.peer).alive (Nat.pos_iff_ne_zero.mp hd)

/-- What becomes of the other end and of the pipes. -/
theorem Playing.of_end {p : Peer} {bs : List Byte} {n : ℕ} (h : Playing s) (hp : Ready p) :
    Playing { ends := s.setEnd e p, pipes := s.flow e bs n } := by
  constructor
  · intro d
    rcases eq_or_eq_peer d e with rfl | rfl
    · simpa only [setEnd_self] using hp
    · simpa only [setEnd_peer] using h.ends e.peer
  · intro d
    rcases eq_or_eq_peer d e with rfl | rfl
    · simp only [flow_self]
      unfold Pipe.push
      split_ifs with hb
      · exact h.intact d
      · exact h.intact d
    · simp only [flow_peer]
      exact h.intact e.peer

theorem flight_push {p : Pipe} {bs : List Byte} (h : p.broken = false) :
    (p.push bs).flight = p.flight ++ bs := by
  unfold Pipe.push
  rw [if_neg (by rw [h]; exact Bool.false_ne_true)]

theorem next_of_loop {p : Peer} {pipes : End → Pipe}
    (h : s.next client (Echo.server idle) l (.act a.e a.event) = some ⟨s.setEnd a.e p, pipes⟩)
    (hctl : p.session.control = .loop) : next idle l s a = some ⟨s.setEnd a.e p, pipes⟩ :=
  serve_of_loop h (by simpa only [setEnd_self] using hctl)

theorem kept_peer {p : Peer} {pipes : End → Pipe} : Kept s ⟨s.setEnd e p, pipes⟩ e.peer where
  queued := by simp only [conn, setEnd_peer]
  got := by simp only [setEnd_peer]

theorem readsEof_of_handle {session : Session} {revents : EpollFlags} {time : UInt32}
    {script : List ReadResult} {write : WriteResult} {callback : Option Callback}
    (hh : (session.conn.report revents).event.handle = callback)
    (hne : callback ≠ some .preConnMsgCallback) :
    session.readsEof (.event revents time script write) = false := by
  show (decide (_ = some Callback.preConnMsgCallback) && _) = false
  rw [hh, decide_eq_false hne, Bool.false_and]

/-- The flags that an event stores. -/
def reported (s : Link) (a : Act) : Peer :=
  let p := s.ends a.e
  { p with session := { p.session with conn := p.session.conn.report a.revents } }

theorem next_of_none (idle : Bool) (l : End → LoopId) (hm : a.Moves s) (hc : a.callback s = none) :
    next idle l s a = some { s with ends := s.setEnd a.e (reported s a) } := by
  have hstep : (s.ends a.e).session.step (source idle a.e) (l a.e) a.event =
      some (reported s a).session := by
    have hh : ((s.ends a.e).session.conn.report a.revents).event.handle = none := hc
    simp only [Session.step, Session.handle, hh]
    rfl
  have hnext : s.next client (Echo.server idle) l (.act a.e a.event) =
      some { s with ends := s.setEnd a.e (reported s a) } :=
    next_of_quiet hstep rfl (readBytes_of_handle hc (by decide)) (readsEof_of_handle hc (by decide))
  exact next_of_loop hnext hm.serves.legal.1.2.1

theorem next_idle (h : Playing s) (hm : a.Moves s) (hc : a.callback s = none) :
    ∃ t, next idle l s a = some t ∧ Playing t ∧ Moved s a.e none t := by
  have hend := h.ends a.e
  have hready : Ready (reported s a) :=
    ⟨hend.delivering.report a.revents, hend.alive, hend.staying, hend.readable, hend.loop,
      hend.connected, hend.empty⟩
  refine ⟨_, next_of_none idle l hm hc, ?_, .idle ?_ rfl⟩
  · have hplaying := @Playing.of_end s a.e (reported s a) [] 0 h hready
    rwa [flow_nil] at hplaying
  · intro d
    rcases eq_or_eq_peer d a.e with he | rfl
    · rw [he]
      constructor
      · simp only [conn, setEnd_self]
        rfl
      · simp only [setEnd_self]
        rfl
    · exact kept_peer

/-- A write of an end that has something to write. -/
theorem sends_of_playing (idle : Bool) (l : End → LoopId) (revents : EpollFlags) {n : ℕ}
    (h : Ready (s.ends e)) (hn : n ≤ (s.conn e).writeBuffer.bytes.length) (hpos : 0 < n)
    (hcb : (s.conn e).event.writeCallback = some .sendNonblock) :
    ∃ c : TcpConnection, ((s.conn e).report revents).sendNonblock (source idle e) (l e)
        (.accepted n) = some c ∧
      Ready { s.ends e with session := { (s.ends e).session with conn := c } } ∧
      c.written = (s.conn e).written ++ (s.conn e).writeBuffer.bytes.take n ∧
      (s.conn e).writeBuffer.bytes =
        (s.conn e).writeBuffer.bytes.take n ++ c.writeBuffer.bytes := by
  let c := (s.conn e).report revents
  have hc : c.Delivering :=
    h.delivering.report revents
  have hn' : n ≤ c.writeBuffer.bytes.length := hn
  have hslot : c.event.writeCallback = some .sendNonblock := hcb
  have hwill : c.isWillClose = false := h.staying
  obtain ⟨rest, hrest, heq⟩ := @sendNonblock_eq c (source idle e) (l e) n hn'
  have hsplit : (s.conn e).writeBuffer.bytes =
      (s.conn e).writeBuffer.bytes.take n ++ rest.bytes := by
    rw [hrest]
    exact (List.take_append_drop ..).symm
  by_cases hlt : n < c.writeBuffer.bytes.length
  · rw [if_pos hlt] at heq
    exact ⟨_, heq, ⟨hc.effect (.write hslot hlt hrest : Effect false false _ _),
      h.alive, h.staying, h.readable, h.loop, h.connected, h.empty⟩, rfl, hsplit⟩
  · have hall : n = c.writeBuffer.bytes.length := by omega
    rw [if_neg hlt, if_neg (by rw [hwill]; exact Bool.false_ne_true)] at heq
    subst hall
    have hnil : rest.bytes = [] := hrest.trans List.drop_length
    exact ⟨_, heq, ⟨hc.effect (.flush hslot hnil hwill : Effect false false _ _),
      h.alive, h.staying, h.readable, h.loop, h.connected, h.empty⟩, rfl, hsplit⟩

theorem next_write (h : Playing s) (hm : a.Moves s) (hc : a.callback s = some .sendNonblock) :
    ∃ t, next idle l s a = some t ∧ Playing t ∧ Moved s a.e (some .sendNonblock) t := by
  obtain ⟨n, hpos, hwrite⟩ := hm.writes hc
  have hend := h.ends a.e
  have hrep := hm.serves.legal.1.2.2
  have hn : n ≤ (s.conn a.e).writeBuffer.bytes.length := by
    have := hrep.written
    rwa [hwrite] at this
  obtain ⟨-, hslot⟩ : _ ∧ (s.conn a.e).event.writeCallback = some .sendNonblock := by
    rcases hend.callback_cases hrep.interest hc with hcb | hcb
    · cases hcb
    · exact hcb
  obtain ⟨c, hsend, hready, hwritten, hleft⟩ := sends_of_playing idle l a.revents
    hend hn hpos hslot
  have hstep : (s.ends a.e).session.step (source idle a.e) (l a.e) a.event =
      some { (s.ends a.e).session with conn := c } := by
    refine Session.step_write hc ?_
    rw [hwrite]
    exact hsend
  have hne : (s.conn a.e).writeBuffer.bytes.take n ≠ [] :=
    List.ne_nil_of_length_pos (by rw [List.length_take]; omega)
  let p : Peer := { s.ends a.e with session := { (s.ends a.e).session with conn := c } }
  have hnext : s.next client (Echo.server idle) l (.act a.e a.event) =
      some ⟨s.setEnd a.e p, s.flow a.e ((s.conn a.e).writeBuffer.bytes.take n) 0⟩ := by
    have hnext := next_of_step hstep hwritten (readBytes_of_handle hc nofun)
      (readsEof_of_playing h hm)
    rwa [Bool.or_false] at hnext
  refine ⟨_, next_of_loop hnext hend.loop, h.of_end hready,
    .write hne ?_ ?_ ?_ ?_ kept_peer⟩
  · simp only [conn, setEnd_self]
    exact hleft
  · simp only [flow_self]
    exact flight_push (h.intact a.e)
  · simp only [setEnd_self, p]
  · simp only [flow_peer]
    rfl

theorem next_read (h : Playing s) (hm : a.Moves s) (hc : a.callback s = some .preConnMsgCallback) :
    ∃ t, next idle l s a = some t ∧ Playing t ∧ Moved s a.e (some .preConnMsgCallback) t := by
  have hend := h.ends a.e
  have hrep := hm.serves.legal.1.2.2
  obtain ⟨readBuffer, data, last, hbytes, hmsg⟩ := source_message l a.timeInProcess
    ((s.conn a.e).report a.revents) (unlimited idle a.e) hrep.deliverable (hm.reads hc)
  have hread : (s.ends a.e).session.readBytes a.event = Buffer.received 4096 a.script := if_pos hc
  have hne := hm.serves.brings (hm.reads hc)
  have hflight := hm.serves.legal.2.2.bytes
  rw [hread] at hflight
  generalize Buffer.received 4096 a.script = bs at hbytes hread hne hflight
  let c := log { (s.conn a.e).report a.revents with
    readBuffer, data, lastReceiveTime := last } .connMsgCallback
  let p : Peer := { s.ends a.e with
    session := { (s.ends a.e).session with
      conn := c
      control := .connMsgCallback
      soError := (s.ends a.e).session.soError && !Buffer.readsError 4096 a.script } }
  let u : Link := ⟨s.setEnd a.e p, s.flow a.e [] bs.length⟩
  have hstep : (s.ends a.e).session.step (source idle a.e) (l a.e) a.event = some p.session :=
    Session.step_read hc hmsg
  have hnext : s.next client (Echo.server idle) l (.act a.e a.event) = some u := by
    have hnext := next_of_step hstep (List.append_nil _).symm hread (readsEof_of_playing h hm)
    rwa [Bool.or_false] at hnext
  have hu : u.ends a.e = p := setEnd_self
  have hall : p.session.conn.readBuffer.bytes = bs := by
    refine hbytes.trans ?_
    show (s.ends a.e).session.conn.readBuffer.bytes ++ bs = bs
    rw [hend.empty]
    rfl
  have hall' : (u.conn a.e).readBuffer.bytes = bs := by
    unfold conn
    rwa [hu]
  obtain ⟨rest, hrest, hrun, -⟩ := @path_whenMsgArrived client (Echo.server idle) l u a.e
    (by rw [hu]) (by unfold conn; rw [hu]; exact hend.alive) (by rwa [hall'])
  have hserve : next idle l s a = some (u.echoed a.e rest) := by
    unfold next serve
    rw [hnext, Option.bind_eq_bind, Option.bind_some, if_pos (by rw [hu]), hrun]
  obtain ⟨tail, htail⟩ := hflight
  let c' := { c.queue bs with readBuffer := rest }
  let q : Peer := { p with
    session := { p.session with conn := c', control := .loop }
    retrieved := (s.ends a.e).retrieved ++ bs }
  have ht : u.echoed a.e rest = ⟨s.setEnd a.e q, s.flow a.e [] bs.length⟩ := by
    rw [echoed_of_ends hu hall]
    simp only [setEnd, u, Function.update_idem]
    rfl
  have hmessage : c.Delivering :=
    ((hend.delivering.report a.revents).read readBuffer data last).message
  have hready : Ready q :=
    ⟨(hmessage.queue hend.alive hne).read rest data last,
      hend.alive, rfl, Event.isReadable_wantWrite.trans hend.readable, rfl, hend.connected, hrest⟩
  refine ⟨_, hserve, ?_, .read hne ?_ ?_ ?_ ?_ ?_⟩
  all_goals rw [ht]
  · exact h.of_end hready
  · simp only [flow_peer, Pipe.pop]
    rw [← htail, List.drop_left]
  · simp only [conn, setEnd_self]
    exact ValidBuffer.bytes_append ..
  · simp only [setEnd_self, q]
  · simp only [flow_self]
    rw [flight_push (h.intact a.e), List.append_nil]
  · exact kept_peer

/-- Every event that may come is handled without a failing assertion, and moves bytes on. -/
theorem next_spec (idle : Bool) (l : End → LoopId) (h : Playing s) (hm : a.Moves s) :
    ∃ t, next idle l s a = some t ∧ Playing t ∧ Moved s a.e (a.callback s) t := by
  cases hc : a.callback s with
  | none => exact next_idle h hm hc
  | some callback =>
      rcases (h.ends a.e).callback_cases hm.serves.legal.1.2.2.interest hc with rfl | ⟨rfl, -⟩
      · exact next_read h hm hc
      · exact next_write h hm hc

theorem step_spec (h : Playing s) (hs : (system idle l msg).Step s a t) :
    Playing t ∧ Moved s a.e (a.callback s) t := by
  obtain ⟨u, hu, hplaying, hmoved⟩ := next_spec idle l h hs.1
  obtain rfl := Option.some.inj (hu.symm.trans hs.2)
  exact ⟨hplaying, hmoved⟩

/-- The events are the link's, and so is what follows from them. -/
theorem reachable_step (hr : Reachable (Link.system client (Echo.server idle) l) s)
    (hs : (system idle l msg).Step s a t) :
    Reachable (Link.system client (Echo.server idle) l) t := by
  have hbytes := @keepsBytes_check .UNLIMITED_MODEL 0 nofun
  obtain ⟨u, hu, ⟨rfl, -⟩ | ⟨rest, -, -, hpath, -⟩⟩ :=
    serve_cases hbytes (Echo.keepsBytes idle) (unlimited idle a.e)
      (sound_of_reachable hbytes (Echo.keepsBytes idle) hr) hs.1.serves hs.2
  · exact hr.step hu
  · exact hpath.reachable (hr.step hu)

theorem playing_opened (l : End → LoopId) (time : UInt32) (hmsg : msg ≠ []) :
    Playing (opened l time msg) := by
  have hconnected : (TcpClient.established
      ((TcpClient.connecting (l .client)).report { EPOLLOUT := true })).Delivering :=
    ⟨⟨⟨rfl, rfl, rfl, rfl, rfl⟩, rfl, nofun⟩, rfl,
      ⟨fun h => absurd rfl h, fun h => (Bool.false_ne_true h).elim⟩,
      fun h => (Bool.false_ne_true h).elim, fun _ => rfl⟩
  constructor
  · intro e
    cases e with
    | client =>
        exact ⟨hconnected.queue rfl hmsg, rfl, rfl, Event.isReadable_wantWrite, rfl, rfl, rfl⟩
    | server => exact ⟨.accepted _ time, rfl, rfl, rfl, rfl, rfl, rfl⟩
  · intro e
    cases e <;> rfl

theorem playing_of_reachable (hmsg : msg ≠ []) (h : Reachable (system idle l msg) s) :
    Playing s := by
  refine h.invariant ?_ (fun _ _ _ hp hs => (step_spec hp hs).1)
  rintro _ ⟨time, rfl⟩
  exact playing_opened l time hmsg

/-! ### The ring -/

/-- The client has got the message over and over, up to some byte, and the ring goes on from
there. -/
structure Turned (msg : List Byte) (s : Link) : Prop where
  periodic : (s.ends .client).retrieved ++ ring s = msg ++ (s.ends .client).retrieved
  rotated : ring s = msg.rotate (s.ends .client).retrieved.length

/-- The bytes that the client reads go to the other end of the ring. -/
theorem Turned.read (bs rest : List Byte) (h : Turned msg s) (hs : ring s = bs ++ rest)
    (ht : ring t = rest ++ bs)
    (hret : (t.ends .client).retrieved = (s.ends .client).retrieved ++ bs) : Turned msg t := by
  constructor
  · rw [ht, hret, List.append_assoc, ← List.append_assoc bs, ← hs, ← List.append_assoc, h.periodic,
      List.append_assoc]
  · rw [ht, hret, List.length_append, ← List.rotate_rotate, ← h.rotated, hs,
      List.rotate_append_length_eq]

theorem Turned.of_eq (h : Turned msg s) (hr : ring t = ring s)
    (hret : (t.ends .client).retrieved = (s.ends .client).retrieved) : Turned msg t := by
  constructor
  · rw [hr, hret]
    exact h.periodic
  · rw [hr, hret]
    exact h.rotated

theorem turned_moved {callback : Option Callback} (h : Turned msg s) (hm : Moved s e callback t) :
    Turned msg t := by
  cases hm with
  | idle hkept hpipes =>
      refine h.of_eq ?_ (hkept .client).got
      unfold ring
      rw [(hkept .client).queued, (hkept .server).queued, hpipes]
  | @read _ bs _ hflight hqueued hgot hback hkept =>
      cases e with
      | client =>
          simp only [End.peer] at hflight hkept
          refine h.read bs ((t.pipes .server).flight ++ (s.conn .server).writeBuffer.bytes ++
            (s.pipes .client).flight ++ (s.conn .client).writeBuffer.bytes) ?_ ?_ hgot
          · unfold ring
            rw [hflight]
            simp only [List.append_assoc]
          · unfold ring
            rw [hqueued, hback, hkept.queued]
            simp only [List.append_assoc]
      | server =>
          simp only [End.peer] at hflight hkept
          refine h.of_eq ?_ hkept.got
          unfold ring
          rw [hflight, hqueued, hback, hkept.queued]
          simp only [List.append_assoc]
  | @write _ bs _ hqueued hflight hgot hback hkept =>
      cases e with
      | client =>
          simp only [End.peer] at hback hkept
          refine h.of_eq ?_ hgot
          unfold ring
          rw [hqueued, hflight, hback, hkept.queued]
          simp only [List.append_assoc]
      | server =>
          simp only [End.peer] at hback hkept
          refine h.of_eq ?_ hkept.got
          unfold ring
          rw [hqueued, hflight, hback, hkept.queued]
          simp only [List.append_assoc]

theorem turned_of_reachable (hmsg : msg ≠ []) (h : Reachable (system idle l msg) s) :
    Turned msg s := by
  refine h.invariant_of (fun _ => playing_of_reachable hmsg) ?_
    (fun _ _ _ hp ht hs => turned_moved ht (step_spec hp hs).2)
  rintro _ ⟨time, rfl⟩
  have hring : ring (opened l time msg) = msg := ValidBuffer.bytes_append ..
  constructor
  · rw [hring]
    exact (List.append_nil msg).symm
  · rw [hring]
    exact (List.rotate_zero msg).symm

/-! ### Events that move bytes -/

/-- Bytes wait at end `e` for a callback. -/
def Waiting (e : End) : Callback → Link → Prop
  | .preConnMsgCallback, s => (s.pipes e.peer).flight ≠ []
  | .sendNonblock, s => (s.conn e).writeBuffer.bytes ≠ []
  | .connectCallback, _ => False

/-- An event that leads to `callback`, and moves what it can. -/
def turn (s : Link) (e : End) : Callback → Act
  | .preConnMsgCallback =>
      ⟨e, { EPOLLIN := true }, 0, [.data ((s.pipes e.peer).flight.take 4095)], .accepted 0⟩
  | _ => ⟨e, { EPOLLOUT := true }, 0, [.data []], .accepted (s.conn e).writeBuffer.bytes.length⟩

theorem exists_waiting (hne : ring s ≠ []) : ∃ e callback, Waiting e callback s := by
  by_contra hnone
  push Not at hnone
  refine hne ?_
  unfold ring
  have h1 : (s.pipes .server).flight = [] :=
    not_ne_iff.mp (hnone .client .preConnMsgCallback)
  have h2 : (s.conn .server).writeBuffer.bytes = [] :=
    not_ne_iff.mp (hnone .server .sendNonblock)
  have h3 : (s.pipes .client).flight = [] :=
    not_ne_iff.mp (hnone .server .preConnMsgCallback)
  have h4 : (s.conn .client).writeBuffer.bytes = [] :=
    not_ne_iff.mp (hnone .client .sendNonblock)
  rw [h1, h2, h3, h4]
  rfl

theorem Ready.handle_read {p : Peer} (h : Ready p) :
    (p.session.conn.report { EPOLLIN := true }).event.handle = some .preConnMsgCallback := by
  unfold Event.handle
  simp only [report, Event.setRevents, Bool.false_and, Bool.or_false,
    h.delivering.wired.readCallback, Option.isSome_some, Bool.and_true, if_true,
    Bool.false_eq_true, if_false]

theorem Ready.handle_write {p : Peer} (h : Ready p) (hw : p.session.conn.event.isWritable = true) :
    (p.session.conn.report { EPOLLOUT := true }).event.handle = some .sendNonblock := by
  unfold Event.handle
  simp only [report, Event.setRevents, Bool.false_and, Bool.or_false, h.delivering.flushed hw,
    Option.isSome_some, Bool.and_true, if_true, Bool.false_eq_true, if_false]

/-- An event on a connected end. -/
theorem Ready.legal (h : Ready (s.ends e)) (revents : EpollFlags) (script : List ReadResult) {n : ℕ}
    (hr : (s.conn e).event.events.Reportable revents) (hd : Buffer.Deliverable 4096 script)
    (hn : n ≤ (s.conn e).writeBuffer.bytes.length) :
    (Action.event revents 0 script (.accepted n)).Legal (s.ends e).session :=
  ⟨h.alive, h.loop, .of_succeeded hr h.connected hd hn⟩

theorem turn_read (h : Playing s) (hw : (s.pipes e.peer).flight ≠ []) :
    (turn s e .preConnMsgCallback).Moves s ∧
      (turn s e .preConnMsgCallback).callback s = some .preConnMsgCallback := by
  have hend := h.ends e
  have hh : (turn s e .preConnMsgCallback).callback s = some .preConnMsgCallback := hend.handle_read
  have hpos : 0 < ((s.pipes e.peer).flight.take 4095).length := by
    have := List.length_pos_iff.mpr hw
    rw [List.length_take]
    omega
  have hlen : ((s.pipes e.peer).flight.take 4095).length < 4096 := by
    rw [List.length_take]
    omega
  have hne := List.ne_nil_of_length_pos hpos
  have hrec : Buffer.received 4096 [.data ((s.pipes e.peer).flight.take 4095)] =
      (s.pipes e.peer).flight.take 4095 := by
    unfold Buffer.received
    rw [if_neg (by omega), List.append_nil]
  have heof : (s.ends e).session.readsEof (turn s e .preConnMsgCallback).event = false := by
    have hmet : Buffer.readsMet 4096 [.data ((s.pipes e.peer).flight.take 4095)] =
        [.data ((s.pipes e.peer).flight.take 4095)] := by
      unfold Buffer.readsMet
      rw [if_neg (by omega)]
    have hnot : .data [] ∉ Buffer.readsMet 4096 (turn s e .preConnMsgCallback).script := by
      show .data [] ∉ Buffer.readsMet 4096 [.data _]
      rw [hmet, List.mem_singleton]
      exact fun hx => hne (ReadResult.data.inj hx).symm
    unfold Session.readsEof
    show (_ && decide (_ ∈ Buffer.readsMet 4096 (turn s e .preConnMsgCallback).script)) = false
    rw [decide_eq_false hnot, Bool.and_false]
  have harrives : s.Arrives e (turn s e .preConnMsgCallback).event := by
    refine ⟨?_, fun hx => absurd (heof.symm.trans hx) Bool.false_ne_true⟩
    rw [show (s.ends e).session.readBytes (turn s e .preConnMsgCallback).event = _ from
      (if_pos hh).trans hrec]
    exact List.take_prefix ..
  have hlegal := hend.legal { EPOLLIN := true } [.data ((s.pipes e.peer).flight.take 4095)]
    (EpollFlags.reportable_read hend.readable) ⟨hlen.le, fun _ => trivial⟩ (Nat.zero_le _)
  refine ⟨⟨⟨⟨hlegal, by simp, harrives⟩, fun _ => ?_⟩, fun _ => ?_, fun hx => ?_⟩, hh⟩
  · exact hrec ▸ hne
  · exact Int.natCast_pos.mpr hpos
  · exact absurd (hh.symm.trans hx) (by decide)

theorem turn_write (h : Playing s) (hw : (s.conn e).writeBuffer.bytes ≠ []) :
    (turn s e .sendNonblock).Moves s ∧
      (turn s e .sendNonblock).callback s = some .sendNonblock := by
  have hend := h.ends e
  have hout : (s.conn e).event.isWritable = true := hend.delivering.watched.mp hw
  have hh : (turn s e .sendNonblock).callback s = some .sendNonblock := hend.handle_write hout
  have hlegal := hend.legal { EPOLLOUT := true } [.data []]
    (EpollFlags.reportable_write hout) (by decide) (le_refl _)
  refine ⟨⟨⟨⟨hlegal, nofun, arrives_of_quiet (readBytes_of_handle hh nofun)
    (readsEof_of_handle hh nofun)⟩, fun hx => ?_⟩, fun hx => ?_, fun _ => ?_⟩, hh⟩
  · exact absurd hx (Int.lt_irrefl 0)
  · exact absurd (hh.symm.trans hx) nofun
  · exact ⟨_, List.length_pos_iff.mpr hw, rfl⟩

/-- What waits can be moved. -/
theorem turn_moves (h : Playing s) {callback : Callback} (hw : Waiting e callback s) :
    (turn s e callback).Moves s ∧ (turn s e callback).callback s = some callback := by
  cases callback with
  | preConnMsgCallback => exact turn_read h hw
  | sendNonblock => exact turn_write h hw
  | connectCallback => exact hw.elim

/-! ### Fair runs -/

/-- No event is put off for ever while bytes wait for it. -/
def Fair (r : Run (system idle l msg)) : Prop :=
  ∀ e callback, r.WeaklyFair (Waiting e callback)
    (fun s a => a.e = e ∧ a.callback s = some callback)

/-- An event that nothing waits for. -/
def pass (e : End) : Act := ⟨e, {}, 0, [.data []], .accepted 0⟩

instance (e : End) (callback : Callback) (s : Link) : Decidable (Waiting e callback s) :=
  match callback with
  | .preConnMsgCallback => inferInstanceAs (Decidable ((s.pipes e.peer).flight ≠ []))
  | .sendNonblock => inferInstanceAs (Decidable ((s.conn e).writeBuffer.bytes ≠ []))
  | .connectCallback => isFalse id

/-- The events in turn. -/
def phase (n : ℕ) : End × Callback :=
  match n % 4 with
  | 0 => (.client, .sendNonblock)
  | 1 => (.server, .preConnMsgCallback)
  | 2 => (.server, .sendNonblock)
  | _ => (.client, .preConnMsgCallback)

def pick (s : Link) (n : ℕ) : Act :=
  if Waiting (phase n).1 (phase n).2 s then turn s (phase n).1 (phase n).2 else pass (phase n).1

def play (idle : Bool) (l : End → LoopId) (msg : List Byte) : ℕ → Link
  | 0 => opened l 0 msg
  | n + 1 =>
      let s := play idle l msg n
      (next idle l s (pick s n)).getD s

theorem pass_moves (hd : (s.conn e).destroys = 0) (hctl : (s.ends e).session.control = .loop)
    (ha : (s.ends e).session.attempt = .succeeded) : (pass e).Moves s := by
  have hh : (pass e).callback s = none := rfl
  have hlegal : (pass e).event.Legal (s.ends e).session :=
    ⟨hd, hctl, .of_succeeded ⟨nofun, nofun, nofun, nofun, nofun⟩ ha
      (show Buffer.Deliverable 4096 [.data []] by decide) (Nat.zero_le _)⟩
  refine ⟨⟨⟨hlegal, nofun, arrives_of_quiet (readBytes_of_handle hh nofun)
    (readsEof_of_handle hh nofun)⟩, fun hx => ?_⟩, fun hx => ?_, fun hx => ?_⟩
  · exact absurd hx (Int.lt_irrefl 0)
  · exact absurd (hh.symm.trans hx) nofun
  · exact absurd (hh.symm.trans hx) nofun

theorem pick_moves (h : Playing s) (n : ℕ) : (pick s n).Moves s := by
  unfold pick
  split_ifs with hw
  · exact (turn_moves h hw).1
  · have hend := h.ends (phase n).1
    exact pass_moves hend.alive hend.loop hend.connected

theorem playing_play (hmsg : msg ≠ []) : ∀ n, Playing (play idle l msg n)
  | 0 => playing_opened l 0 hmsg
  | n + 1 => by
      have h := playing_play hmsg n
      obtain ⟨t, ht, hplaying, -⟩ := next_spec idle l h (pick_moves h n)
      show Playing ((next idle l _ _).getD _)
      rw [ht]
      exact hplaying

/-- The run that gives every event its turn. -/
def fairRun (idle : Bool) (l : End → LoopId) {msg : List Byte} (hmsg : msg ≠ []) :
    Run (system idle l msg) where
  st := play idle l msg
  act n := pick (play idle l msg n) n
  init := ⟨0, rfl⟩
  step n := by
    have h : Playing (play idle l msg n) := playing_play hmsg n
    have hm := pick_moves h n
    obtain ⟨t, ht, -⟩ := next_spec idle l h hm
    refine ⟨hm, ht.trans (congrArg some ?_)⟩
    show t = (next idle l _ _).getD _
    rw [ht]
    rfl

theorem reachable_play (hmsg : msg ≠ []) (n : ℕ) :
    Reachable (system idle l msg) (play idle l msg n) :=
  (fairRun idle l hmsg).reachable n

theorem phase_add (n i : ℕ) : phase (4 * n + i) = phase i := by
  unfold phase
  rw [Nat.mul_add_mod]

theorem exists_phase {callback : Callback} (hc : callback ≠ .connectCallback) (e : End) (n : ℕ) :
    ∃ m, n ≤ m ∧ phase m = (e, callback) := by
  have hphase : ∀ i, phase i = (e, callback) → ∃ m, n ≤ m ∧ phase m = (e, callback) :=
    fun i hi => ⟨4 * n + i, by omega, (phase_add n i).trans hi⟩
  cases callback with
  | connectCallback => exact absurd rfl hc
  | preConnMsgCallback =>
      cases e with
      | client => exact hphase 3 rfl
      | server => exact hphase 1 rfl
  | sendNonblock =>
      cases e with
      | client => exact hphase 0 rfl
      | server => exact hphase 2 rfl

theorem fair_fairRun (hmsg : msg ≠ []) : Fair (fairRun idle l hmsg) := by
  intro e callback n hwaits
  have hc : callback ≠ .connectCallback := by
    rintro rfl
    exact hwaits n (le_refl n)
  obtain ⟨m, hm, hphase⟩ := exists_phase hc e n
  have hw : Waiting e callback (play idle l msg m) := hwaits m hm
  have hpick : pick (play idle l msg m) m = turn (play idle l msg m) e callback := by
    unfold pick
    rw [hphase, if_pos hw]
  refine ⟨m, hm, ?_, ?_⟩
  · show (pick (play idle l msg m) m).e = e
    rw [hpick]
    cases callback <;> rfl
  · show (pick (play idle l msg m) m).callback (play idle l msg m) = some callback
    rw [hpick]
    exact (turn_moves (playing_play hmsg m) hw).2

/-! ### What the client gets -/

/-- **The ring**: in every run the client has got its message over and over, up to some byte, and
the bytes on their way round are the message from there on. -/
theorem ring_rotated (hmsg : msg ≠ []) (h : Reachable (system idle l msg) s) :
    (s.ends .client).retrieved ++ ring s = msg ++ (s.ends .client).retrieved ∧
      ring s = msg.rotate (s.ends .client).retrieved.length := by
  have ht := turned_of_reachable hmsg h
  exact ⟨ht.periodic, ht.rotated⟩

theorem ring_rotated_fairRun :
    let s := play false (fun _ => 0) [1, 2] 4
    (s.ends .client).retrieved ++ ring s = [1, 2] ++ (s.ends .client).retrieved ∧
      ring s = [1, 2].rotate (s.ends .client).retrieved.length :=
  ring_rotated (by decide) (reachable_play (by decide) 4)

/-- **Progress**: in every reachable state some event moves bytes on, and no event that may come
makes an assertion fail. -/
theorem keeps_going (hmsg : msg ≠ []) (h : Reachable (system idle l msg) s) :
    (∀ a : Act, a.Moves s → ∃ t, next idle l s a = some t) ∧
      ∃ a : Act, a.Moves s ∧ a.callback s ≠ none := by
  have hplaying := playing_of_reachable hmsg h
  constructor
  · intro a hm
    obtain ⟨t, ht, -⟩ := next_spec idle l hplaying hm
    exact ⟨t, ht⟩
  · have hne : ring s ≠ [] := by
      rw [(turned_of_reachable hmsg h).rotated]
      exact fun hx => hmsg (List.rotate_eq_nil_iff.mp hx)
    obtain ⟨e, callback, hw⟩ := exists_waiting hne
    obtain ⟨hm, hc⟩ := turn_moves hplaying hw
    exact ⟨_, hm, by rw [hc]; exact nofun⟩

theorem keeps_going_fairRun :
    let s := play false (fun _ => 0) [1, 2] 4
    (∀ a : Act, a.Moves s → ∃ t, next false (fun _ => 0) s a = some t) ∧
      ∃ a : Act, a.Moves s ∧ a.callback s ≠ none :=
  keeps_going (by decide) (reachable_play (by decide) 4)

/-- What waits is moved by its own event only. -/
theorem Moved.waiting {d : End} {callback : Callback} {moved : Option Callback}
    (hm : Moved s d moved t) (hw : Waiting e callback s) (hne : ¬ (d = e ∧ moved = some callback)) :
    Waiting e callback t := by
  cases callback with
  | connectCallback => exact hw.elim
  | preConnMsgCallback =>
      cases hm with
      | idle _ hpipes =>
          show (t.pipes e.peer).flight ≠ []
          rw [hpipes]
          exact hw
      | read _ _ _ _ hback _ =>
          rcases eq_or_eq_peer e d with rfl | rfl
          · exact absurd ⟨rfl, rfl⟩ hne
          · show (t.pipes d.peer.peer).flight ≠ []
            rw [peer_peer, hback]
            rwa [Waiting, peer_peer] at hw
      | write _ _ hflight _ hback _ =>
          rcases eq_or_eq_peer e d with rfl | rfl
          · show (t.pipes e.peer).flight ≠ []
            rw [hback]
            exact hw
          · show (t.pipes d.peer.peer).flight ≠ []
            rw [Waiting, peer_peer] at hw
            rw [peer_peer, hflight]
            exact List.append_ne_nil_of_left_ne_nil hw _
  | sendNonblock =>
      cases hm with
      | idle hkept _ =>
          show (t.conn e).writeBuffer.bytes ≠ []
          rw [(hkept e).queued]
          exact hw
      | read hbs _ hqueued _ _ hkept =>
          rcases eq_or_eq_peer e d with rfl | rfl
          · show (t.conn e).writeBuffer.bytes ≠ []
            rw [hqueued]
            exact List.append_ne_nil_of_left_ne_nil hw _
          · show (t.conn d.peer).writeBuffer.bytes ≠ []
            rw [hkept.queued]
            exact hw
      | write _ _ _ _ _ hkept =>
          rcases eq_or_eq_peer e d with rfl | rfl
          · exact absurd ⟨rfl, rfl⟩ hne
          · show (t.conn d.peer).writeBuffer.bytes ≠ []
            rw [hkept.queued]
            exact hw

/-- How far the bytes are from the client: the queues before it count more. -/
def rank (s : Link) : ℕ :=
  3 * (s.conn .client).writeBuffer.bytes.length + 2 * (s.pipes .client).flight.length +
    (s.conn .server).writeBuffer.bytes.length

/-- The number of bytes that the client has got back. -/
def got (s : Link) : ℕ := (s.ends .client).retrieved.length

/-- An event brings bytes to the client, or nearer to it. -/
theorem Moved.rank_cases {d : End} {moved : Option Callback} (hm : Moved s d moved t) :
    got s < got t ∨ (got t = got s ∧ rank t ≤ rank s ∧ (moved ≠ none → rank t < rank s)) := by
  unfold got rank
  cases hm with
  | idle hkept hpipes =>
      refine Or.inr ⟨by rw [(hkept .client).got], ?_, fun hx => absurd rfl hx⟩
      rw [(hkept .client).queued, (hkept .server).queued, hpipes]
  | @read _ bs hbs hflight hqueued hgot hback hkept =>
      have hpos : 0 < bs.length := List.length_pos_iff.mpr hbs
      cases d with
      | client =>
          left
          rw [hgot, List.length_append]
          omega
      | server =>
          simp only [End.peer] at hflight hkept
          right
          rw [hkept.got, hkept.queued, hqueued, hflight, List.length_append, List.length_append]
          omega
  | @write _ bs hbs hqueued hflight hgot hback hkept =>
      have hpos : 0 < bs.length := List.length_pos_iff.mpr hbs
      cases d with
      | client =>
          simp only [End.peer] at hback hkept
          right
          rw [hgot, hkept.queued, hqueued, hflight, List.length_append, List.length_append]
          omega
      | server =>
          simp only [End.peer] at hback hkept
          right
          rw [hkept.got, hkept.queued, hqueued, hback, List.length_append]
          omega

/-- **Liveness**: in every run in which no event is put off for ever the client gets back more and
more bytes. -/
theorem always_returns (hmsg : msg ≠ []) (r : Run (system idle l msg)) (hfair : Fair r) (n k : ℕ) :
    ∃ m, n ≤ m ∧ k ≤ got (r.st m) := by
  have hplaying : ∀ n, Playing (r.st n) := fun n => playing_of_reachable hmsg (r.reachable n)
  have hmoved : ∀ n, Moved (r.st n) (r.act n).e ((r.act n).callback (r.st n)) (r.st (n + 1)) :=
    fun n => (step_spec (hplaying n) (r.step n)).2
  have hrank := fun n => (hmoved n).rank_cases
  have hnearer : ∀ n, ∃ m, n ≤ m ∧
      (got (r.st m) < got (r.st (m + 1)) ∨ rank (r.st (m + 1)) < rank (r.st m)) := by
    intro n
    have hne : ring (r.st n) ≠ [] := by
      rw [(turned_of_reachable hmsg (r.reachable n)).rotated]
      exact fun hx => hmsg (List.rotate_eq_nil_iff.mp hx)
    obtain ⟨e, callback, hw⟩ := exists_waiting hne
    obtain ⟨m, hm, -, -, hc⟩ :=
      (hfair e callback).taken (fun n hw hnot => (hmoved n).waiting hw hnot) hw
    rcases hrank m with hgot | ⟨-, -, hdrop⟩
    · exact ⟨m, hm, Or.inl hgot⟩
    · exact ⟨m, hm, Or.inr (hdrop (by rw [hc]; exact nofun))⟩
  refine unbounded_of_growth (fun n => got (r.st n)) ?_ ?_ n k
  · intro n
    rcases hrank n with hgot | ⟨hgot, -⟩
    · exact hgot.le
    · exact hgot.ge
  · intro n
    refine eventually_of_rank (fun n => rank (r.st n)) ?_ (fun m _ => hnearer m)
    intro n _ hnot
    rcases hrank n with hgot | ⟨-, hle, -⟩
    · exact absurd hgot hnot
    · exact hle

theorem always_returns_fairRun : ∃ m, 5 ≤ m ∧ 100 ≤ got (play false (fun _ => 0) [1, 2] m) :=
  always_returns (by decide) (fairRun false (fun _ => 0) (by decide)) (fair_fairRun _) 5 100

/-! ### A send before the connect callback

`main` does not wait for the connect callback: `connect` returns while another thread's loop takes
the event.  In `BLANK` `send` appends, sleeps for two seconds and then looks whether to ask for
writes, so that a callback that runs during the sleep does no harm.  Here the whole call is over
before the callback: the server answers later than that, or the loop is busy. -/

/-- The connection of a client whose `send` of `msg` was over before its connect callback. -/
def hasty (l : LoopId) (msg : List Byte) : TcpConnection :=
  TcpClient.established ((queue msg (TcpClient.connecting l)).report { EPOLLOUT := true })

def stranded (l : End → LoopId) (time : UInt32) (msg : List Byte) : Link where
  ends
    | .client => { session := { conn := hasty (l .client) msg } }
    | .server => { session := { conn := TcpServer.accepted (l .server) time } }
  pipes _ := {}

/-- The same three steps in another order. -/
theorem path_stranded (hmsg : msg ≠ []) (time : UInt32) :
    Path (Link.system client (Echo.server idle) l) (Link.start l time)
      [.act .client (.resolve true), .act .client (.send msg), .act .client connected]
      (stranded l time msg) := by
  let conn := TcpClient.connecting (l .client)
  let conn' := TcpClient.established ((queue msg conn).report { EPOLLOUT := true })
  let s := Link.start l time
  let s₁ : Link := { s with ends := s.setEnd .client { session := { conn } } }
  let s₂ : Link := { s with ends := s.setEnd .client { session := { conn := queue msg conn } } }
  have hconnect : Session.step client.source (l .client) { conn := queue msg conn } connected =
      some { conn := conn' } :=
    Session.step_connect rfl (TcpClient.connectCallback_of_unset rfl)
  have hlegal : connected.Legal { conn := queue msg conn } :=
    Session.legal_write rfl rfl rfl rfl (by decide) (Nat.zero_le _)
  have h1 : (Link.system client (Echo.server idle) l).Step s (.act .client (.resolve true)) s₁ :=
    step_of_quiet rfl rfl nofun rfl rfl rfl rfl
  have h2 : (Link.system client (Echo.server idle) l).Step s₁ (.act .client (.send msg)) s₂ :=
    step_of_ends (step_of_quiet (p := { session := { conn } }) rfl ⟨rfl, hmsg⟩ nofun
      (Session.step_send hmsg) rfl rfl rfl) rfl rfl rfl
  have h3 : (Link.system client (Echo.server idle) l).Step s₂ (.act .client connected)
      (stranded l time msg) :=
    step_of_ends (step_of_quiet (p := { session := { conn := queue msg conn } }) rfl hlegal nofun
      hconnect rfl rfl rfl) rfl rfl rfl
  exact .cons h1 (.cons h2 (.cons h3 (.nil _)))

/-- Nothing is on its way and nobody asks for writes. -/
structure Stalled (msg : List Byte) (s : Link) : Prop where
  wired : ∀ e, (s.conn e).Wired
  unwatched : ∀ e, (s.conn e).event.isWritable = false
  flight : ∀ e, (s.pipes e).flight = []
  queued : (s.conn .client).writeBuffer.bytes = msg

theorem Stalled.callback (h : Stalled msg s) (hm : a.Moves s) : a.callback s = none := by
  cases hc : a.callback s with
  | none => rfl
  | some callback =>
      exfalso
      have hrep := hm.serves.legal.1.2.2
      rcases Event.handle_cases (h.wired a.e).plain hrep.interest hc with ⟨-, hcb⟩ | ⟨hw, -⟩
      · rw [(h.wired a.e).readCallback] at hcb
        obtain rfl := Option.some.inj hcb
        have hbytes := hm.serves.legal.2.2.bytes
        have hread : (s.ends a.e).session.readBytes a.event = Buffer.received 4096 a.script :=
          if_pos hc
        rw [h.flight, hread] at hbytes
        exact hm.serves.brings (hm.reads hc) (List.prefix_nil.mp hbytes)
      · exact absurd ((h.unwatched a.e).symm.trans hw) Bool.false_ne_true

theorem Stalled.step (h : Stalled msg s) (hs : (system idle l msg).Step s a t) : Stalled msg t := by
  obtain ⟨hm, ht⟩ := hs
  rw [next_of_none idle l hm (h.callback hm)] at ht
  obtain rfl := Option.some.inj ht
  have hconn : ∀ d, ∃ flags, conn { s with ends := s.setEnd a.e (reported s a) } d =
      (s.conn d).report flags ∨
        conn { s with ends := s.setEnd a.e (reported s a) } d = s.conn d := by
    intro d
    refine ⟨a.revents, ?_⟩
    rcases eq_or_eq_peer d a.e with he | rfl
    · rw [he]
      left
      simp only [conn, setEnd_self]
      rfl
    · right
      simp only [conn, setEnd_peer]
  constructor
  · intro d
    obtain ⟨flags, he | he⟩ := hconn d
    · rw [he]
      exact (h.wired d).report flags
    · rw [he]
      exact h.wired d
  · intro d
    obtain ⟨flags, he | he⟩ := hconn d
    · rw [he]
      exact h.unwatched d
    · rw [he]
      exact h.unwatched d
  · exact h.flight
  · obtain ⟨flags, he | he⟩ := hconn .client
    · rw [he]
      exact h.queued
    · rw [he]
      exact h.queued

theorem stalled_stranded (l : End → LoopId) (time : UInt32) (msg : List Byte) :
    Stalled msg (stranded l time msg) := by
  refine ⟨fun e => ?_, fun e => ?_, fun _ => rfl, ValidBuffer.bytes_append ..⟩
  · cases e with
    | client => exact ⟨⟨rfl, rfl, rfl, rfl, rfl⟩, rfl, nofun⟩
    | server => exact ⟨⟨rfl, rfl, rfl, rfl, rfl⟩, rfl, nofun⟩
  · cases e <;> rfl

/-- **Stranded**: when the whole of `send` comes before the connect callback, which the link allows,
the message stays in the client's buffer, and no event calls anything any more. -/
theorem never_starts (hmsg : msg ≠ []) {time : UInt32} {as : List Act}
    (h : Path (system idle l msg) (stranded l time msg) as s) :
    Reachable (Link.system client (Echo.server idle) l) s ∧
      (s.conn .client).writeBuffer.bytes = msg ∧ (∀ e, (s.pipes e).flight = []) ∧
      ∀ a : Act, a.Moves s → a.callback s = none := by
  have hstalled : Stalled msg s :=
    h.invariant (fun _ _ _ hs => hs.step) (stalled_stranded l time msg)
  refine ⟨h.invariant (fun _ _ _ => reachable_step) ?_, hstalled.queued, hstalled.flight,
    fun _ => hstalled.callback⟩
  exact (path_stranded hmsg time).reachable (.init ⟨time, rfl⟩)

/-- After an event that reports nothing. -/
theorem never_starts_pass : ∃ s : Link,
    Reachable (Link.system client (Echo.server false) fun _ => 0) s ∧
      (s.conn .client).writeBuffer.bytes = [1, 2] ∧ (∀ e, (s.pipes e).flight = []) ∧
      ∀ a : Act, a.Moves s → a.callback s = none := by
  have hm : (pass .client).Moves (stranded (fun _ => 0) 0 [1, 2]) := pass_moves rfl rfl rfl
  have hstep := next_of_none false (fun _ => 0) hm rfl
  exact ⟨_, never_starts (by decide) (.cons ⟨hm, hstep⟩ (.nil _))⟩

end PingPong

end Dagger

import Dagger.ClientConnect
import Dagger.CloseCallback
import Dagger.Codec
import Dagger.DeferredClose
import Dagger.FatalReads
import Mathlib.Data.List.Infix

/-! # Client and server

A connection between a `TcpClient` and a `TcpServer`, with the kernels between them: each end is a
session, and a pipe holds the bytes that one end has written and the other has not read yet.  The
ends take their steps in any order, their users send, retrieve and close as they like, and a reset
may lose what is on its way at any time.  The end of the file is read when the other end has
destroyed its connection, which closes the socket, and everything has arrived.

`in_order` follows the bytes from one user to the other.  `eof_complete` says that a connection that
is closed is never cut short, as long as `connCloseCallback_` sends nothing on it. -/

namespace Dagger

open TcpConnection Transition

/-! ### The bytes of a session -/

/-- A codec that only looks at the buffer. -/
def KeepsBytes (codec : ValidBuffer IO_BUFFER_SIZE → Bool × ValidBuffer IO_BUFFER_SIZE) : Prop :=
  ∀ b, (codec b).2.bytes = b.bytes

theorem keepsBytes_check {model : Codec.Model} (data : ℕ) (h : model ≠ .HTTP_MODEL) :
    KeepsBytes (ValidBuffer.check model data) := by
  intro b
  cases model with
  | HTTP_MODEL => exact absurd rfl h
  | LENGTH_DATA_MODEL =>
      show ((Codec.lengthDataDefaultCallback data b.raw).2).readable = b.raw.readable
      rw [Codec.lengthDataDefaultCallback_snd]
  | FIXED_LENGTH_MODEL | UNLIMITED_MODEL => rfl

/-- A read callback adds to the read buffer what the socket delivers. -/
def TcpSource.Receives (source : TcpSource) : Prop :=
  ∀ {l time script c c' control}, Buffer.Deliverable 4096 script →
    source.preConnMsgCallback l time script c = some (c', control) →
      c'.readBuffer.bytes = c.readBuffer.bytes ++ Buffer.received 4096 script

namespace TcpConnection

/-- What was sent is written or still in the buffer. -/
structure Conserving (c : TcpConnection) : Prop where
  closing : c.Closing
  conserved : c.written ++ c.writeBuffer.bytes = c.sent

variable {closeCallback erase connects : Bool} {c c' : TcpConnection}

theorem Conserving.effect (h : c.Conserving) (he : Effect closeCallback erase c c') :
    c'.Conserving := by
  have hclosing := h.closing.effect he
  have hwrote : ∀ (rest : ValidBuffer IO_BUFFER_SIZE) (n : ℕ),
      rest.bytes = c.writeBuffer.bytes.drop n →
        (c.wrote rest n).written ++ rest.bytes = c.sent := by
    intro rest n hrest
    show c.written ++ c.writeBuffer.bytes.take n ++ rest.bytes = c.sent
    rw [hrest, List.append_assoc, List.take_append_drop, h.conserved]
  cases he with
  | write _ _ hrest => exact ⟨hclosing, hwrote _ _ hrest⟩
  | flush _ hrest _ => exact ⟨hclosing, hwrote _ _ (hrest.trans List.drop_length.symm)⟩
  | flushClose _ hrest _ => exact ⟨hclosing, hwrote _ _ (hrest.trans List.drop_length.symm)⟩
  | _ => exact ⟨hclosing, h.conserved⟩

theorem written_effect (he : Effect closeCallback erase c c') : c.written <+: c'.written := by
  cases he with
  | write | flush | flushClose => exact List.prefix_append ..
  | _ => exact List.prefix_refl _

theorem sent_effect (he : Effect closeCallback erase c c') : c'.sent = c.sent := by
  cases he <;> rfl

theorem readBuffer_of_closeWith (h : c.closeWith closeCallback erase = some c') :
    c'.readBuffer = c.readBuffer := by
  obtain ⟨-, rfl⟩ | ⟨-, rfl⟩ := closeWith_cases h
  · rfl
  · rfl

end TcpConnection

namespace TcpServer

theorem source_receives (server : TcpServer) (hcodec : KeepsBytes server.codec) :
    server.source.Receives := by
  intro l time script c c' control hd h
  obtain ⟨readBuffer, n, last, hr, hcase⟩ := preConnMsgCallback_cases h
  obtain ⟨b, e, hb⟩ := ValidBuffer.readFromSocket_of_deliverable (b := c.readBuffer) hd
  rw [e] at hr
  obtain ⟨rfl, -⟩ := Prod.mk.inj (Option.some.inj hr)
  rcases hcase with ⟨-, -, hc⟩ | ⟨-, -, -, rfl⟩ | ⟨-, -, -, rfl⟩
  · rw [readBuffer_of_closeWith hc]
    exact hb
  · exact (hcodec b).trans hb
  · exact (hcodec b).trans hb

end TcpServer

namespace TcpClient

theorem source_receives (client : TcpClient) (hcodec : KeepsBytes client.codec) :
    client.source.Receives := by
  intro l time script c c' control hd h
  obtain ⟨readBuffer, n, hr, hcase⟩ := preConnMsgCallback_cases h
  obtain ⟨b, e, hb⟩ := ValidBuffer.readFromSocket_of_deliverable (b := c.readBuffer) hd
  rw [e] at hr
  obtain ⟨rfl, -⟩ := Prod.mk.inj (Option.some.inj hr)
  rcases hcase with ⟨-, -, hc⟩ | ⟨-, -, -, rfl⟩ | ⟨-, -, -, rfl⟩ | ⟨-, -, -, rfl⟩
  · rw [readBuffer_of_closeWith hc]
    exact hb
  · exact hb
  · exact (hcodec b).trans hb
  · exact (hcodec b).trans hb

end TcpClient

namespace Session

variable {closeCallback erase connects : Bool} {source : TcpSource} {l : LoopId}
  {Init : Session → Prop} {s t : Session} {a : Action}

/-- The bytes that a step reads from the socket. -/
def readBytes (s : Session) : Action → List Byte
  | .event revents _ script _ =>
      if (s.conn.report revents).event.handle = some .preConnMsgCallback then
        Buffer.received 4096 script
      else []
  | _ => []

/-- One of the reads of a step meets the end of the file. -/
def readsEof (s : Session) : Action → Bool
  | .event revents _ script _ =>
      (s.conn.report revents).event.handle = some .preConnMsgCallback &&
        .data [] ∈ Buffer.readsMet 4096 script
  | _ => false

/-- A read adds to the read buffer what it reads, and no other step changes it. -/
theorem readBuffer_step (hsrc : source.Regular closeCallback erase connects)
    (hrec : source.Receives) (hw : s.conn.Wired) (hl : a.Legal s)
    (h : s.step source l a = some t) :
    t.conn.readBuffer.bytes = s.conn.readBuffer.bytes ++ s.readBytes a := by
  cases a with
  | send str =>
      rw [step_send hl.2] at h
      obtain rfl := Option.some.inj h
      exact (List.append_nil _).symm
  | activeClose =>
      obtain ⟨conn, hc, h⟩ := Option.bind_eq_some_iff.mp h
      obtain rfl := Option.some.inj h
      rw [readBuffer_of_closeWith (hsrc.closeConnection hc)]
      exact (List.append_nil _).symm
  | ret =>
      obtain ⟨conn, hc, h⟩ := Option.bind_eq_some_iff.mp h
      obtain rfl := Option.some.inj h
      refine Eq.trans ?_ (List.append_nil _).symm
      rcases hsrc.callbackReturned hc with rfl | ⟨-, hc⟩ | ⟨-, -, rfl⟩
      · rfl
      · rw [readBuffer_of_closeWith hc]
      · rfl
  | resolve ok =>
      obtain rfl := Option.some.inj h
      exact (List.append_nil _).symm
  | reset =>
      obtain rfl := Option.some.inj h
      exact (List.append_nil _).symm
  | event revents time script write =>
      show _ = _ ++ if _ then _ else []
      rcases event_cases hw hl.2.2.interest h with
        ⟨hh, rfl⟩ | ⟨hh, hc, -⟩ | ⟨hh, -, -, hc, -⟩ | ⟨hh, -, -, hc, -⟩
      · rw [hh, if_neg nofun, List.append_nil]
        rfl
      · rw [if_pos hh]
        exact hrec (c := s.conn.report revents) hl.2.2.deliverable hc
      · rw [hh, if_neg nofun, List.append_nil]
        obtain ⟨n, rest, -, -, ⟨-, ht⟩ | ⟨-, -, hc⟩ | ⟨-, -, ht⟩⟩ :=
          sendNonblock_cases (c := s.conn.report revents) hl.2.2.written hc
        · rw [ht]
          rfl
        · rw [readBuffer_of_closeWith (hsrc.closeConnection hc)]
          rfl
        · rw [ht]
          rfl
      · rw [hh, if_neg nofun, List.append_nil]
        rcases (hsrc.connectCallback hc).2 with ⟨-, -, hc⟩ | ⟨-, -, ht⟩ | ⟨-, -, ht⟩
        · rw [readBuffer_of_closeWith hc]
          rfl
        · rw [ht]
          rfl
        · rw [ht]
          rfl

/-- Only `send` adds to what was sent. -/
theorem sent_step (hsrc : source.Regular closeCallback erase connects) (hw : s.conn.Wired)
    (hl : a.Legal s) (h : s.step source l a = some t) (hne : ∀ str, a ≠ .send str) :
    t.conn.sent = s.conn.sent := by
  rcases step_cases hsrc hw hl h with
    ⟨str, rfl, -, -⟩ | ⟨-, he⟩ | ⟨revents, time, script, write, rfl, -, hc⟩ | ⟨rfl, hr, -⟩
  · exact absurd rfl (hne str)
  · exact he.invariant (I := fun c => c.sent = s.conn.sent)
      (fun _ _ hc he => (sent_effect he).trans hc) rfl
  · rcases (hsrc.connectCallback hc).2 with ⟨-, -, hc⟩ | ⟨-, -, ht⟩ | ⟨-, -, ht⟩
    · exact sent_effect (c := s.conn.report revents) (closeWith_effect hc)
    · rw [ht]
      rfl
    · rw [ht]
      rfl
  · rcases hsrc.callbackReturned hr with ht | ⟨-, hc⟩ | ⟨-, -, ht⟩
    · rw [ht]
    · exact sent_effect (closeWith_effect hc)
    · rw [ht]
      rfl

/-- What a step keeps of the bytes sent. -/
theorem conserving_step (hsrc : source.Regular closeCallback erase connects)
    (h : s.conn.Conserving) (hs : (Session.system source l Init).Step s a t) :
    t.conn.Conserving ∧ s.conn.written <+: t.conn.written := by
  have hclosing := closing_step hsrc h.closing hs
  obtain ⟨hl, hs⟩ := hs
  rcases step_cases hsrc h.closing.wired hl hs with
    ⟨str, rfl, -, rfl⟩ | ⟨-, he⟩ | ⟨revents, time, script, write, rfl, -, hc⟩ | ⟨rfl, hr, -⟩
  · refine ⟨⟨hclosing, ?_⟩, List.prefix_refl _⟩
    show s.conn.written ++ (s.conn.writeBuffer.append str).bytes = s.conn.sent ++ str
    rw [ValidBuffer.bytes_append, ← List.append_assoc, h.conserved]
  · exact he.invariant (I := fun c => c.Conserving ∧ s.conn.written <+: c.written)
      (fun _ _ hc he => ⟨hc.1.effect he, hc.2.trans (written_effect he)⟩) ⟨h, List.prefix_refl _⟩
  · have hrep : (s.conn.report revents).Conserving := ⟨h.closing.report revents, h.conserved⟩
    rcases (hsrc.connectCallback hc).2 with ⟨-, -, hc⟩ | ⟨-, -, ht⟩ | ⟨-, -, ht⟩
    · exact ⟨hrep.effect (closeWith_effect hc),
        written_effect (c := s.conn.report revents) (closeWith_effect hc)⟩
    · rw [ht] at hclosing ⊢
      exact ⟨⟨hclosing, h.conserved⟩, List.prefix_refl _⟩
    · rw [ht] at hclosing ⊢
      exact ⟨⟨hclosing, h.conserved⟩, List.prefix_refl _⟩
  · rcases hsrc.callbackReturned hr with ht | ⟨-, hc⟩ | ⟨-, -, ht⟩
    · rw [ht]
      exact ⟨h, List.prefix_refl _⟩
    · exact ⟨h.effect (closeWith_effect hc), written_effect (closeWith_effect hc)⟩
    · rw [ht] at hclosing ⊢
      exact ⟨⟨hclosing, h.conserved⟩, List.prefix_refl _⟩

end Session

/-! ### The two ends -/

inductive End where
  | client
  | server
deriving DecidableEq

def End.peer : End → End
  | client => server
  | server => client

/-- The bytes that one end has written and the other has not read. -/
structure Pipe where
  flight : List Byte := []
  /-- A reset has lost what was on its way. -/
  broken : Bool := false

namespace Pipe

def push (p : Pipe) (bs : List Byte) : Pipe :=
  if p.broken then p else { p with flight := p.flight ++ bs }

def pop (p : Pipe) (n : ℕ) : Pipe := { p with flight := p.flight.drop n }

end Pipe

/-- An end with its user: what the user has retrieved, and whether a read has met the end of the
file. -/
structure Peer where
  session : Session
  retrieved : List Byte := []
  eof : Bool := false

/-- `pipes e` carries what end `e` writes. -/
structure Link where
  ends : End → Peer
  pipes : End → Pipe

namespace Link

inductive Act where
  | act (e : End) (a : Action)
  /-- The user of end `e` calls `readBuffer().retrieve(len)`. -/
  | retrieve (e : End) (len : ℕ)
  /-- What end `e` has written is lost. -/
  | lose (e : End)

section Defs

variable (client : TcpClient) (server : TcpServer) (l : End → LoopId)

def source : End → TcpSource
  | .client => client.source
  | .server => server.source

variable (s : Link)

def conn (e : End) : TcpConnection := (s.ends e).session.conn

/-- What the user of end `e` has of the bytes that arrived, and what is left for it. -/
def received (e : End) : List Byte := (s.ends e).retrieved ++ (s.conn e).readBuffer.bytes

def setEnd (e : End) (p : Peer) : End → Peer := Function.update s.ends e p

/-- The pipes after end `e` has written `bs` and read `n` bytes. -/
def flow (e : End) (bs : List Byte) (n : ℕ) (e' : End) : Pipe :=
  if e' = e then (s.pipes e').push bs else (s.pipes e').pop n

def next : Act → Option Link
  | .act e a => do
      let p := s.ends e
      let session ← p.session.step (source client server e) (l e) a
      let bs := session.conn.written.drop p.session.conn.written.length
      some {
        ends := s.setEnd e { p with session, eof := p.eof || p.session.readsEof a }
        pipes := s.flow e bs (p.session.readBytes a).length }
  | .retrieve e len => do
      let p := s.ends e
      let (readBuffer, _) ← p.session.conn.readBuffer.retrieve len
      let session := { p.session with conn := { p.session.conn with readBuffer } }
      let retrieved := p.retrieved ++ p.session.conn.readBuffer.bytes.take len
      some { s with ends := s.setEnd e { p with session, retrieved } }
  | .lose e => some { s with pipes := Function.update s.pipes e ⟨[], true⟩ }

/-- What a read may find: bytes that are on their way, and the end of the file when the other end is
closed and there are no more of them. -/
structure Arrives (e : End) (a : Action) : Prop where
  bytes : (s.ends e).session.readBytes a <+: (s.pipes e.peer).flight
  eof : (s.ends e).session.readsEof a = true →
    (s.pipes e.peer).flight = (s.ends e).session.readBytes a ∧
      (s.pipes e.peer).broken = false ∧ 0 < (s.conn e.peer).destroys

/-- The connect succeeds, since there is a server. -/
def Act.Legal : Act → Prop
  | .act e a => a.Legal (s.ends e).session ∧ a ≠ .resolve false ∧ s.Arrives e a
  | .retrieve e len => (s.conn e).destroys = 0 ∧ len ≤ (s.conn e).readBuffer.bytes.length
  | .lose _ => True

/-- A connection that is being made, with the one that the server has accepted for it. -/
def start (time : UInt32) : Link where
  ends
    | .client => { session := { conn := TcpClient.connecting (l .client), attempt := .pending } }
    | .server => { session := { conn := TcpServer.accepted (l .server) time } }
  pipes _ := {}

def system : System Link Act where
  Init s := ∃ time, s = start l time
  Step s a t := a.Legal s ∧ s.next client server l a = some t

end Defs

/-! ### One direction -/

/-- What was written has been received or is on its way, up to what is lost; behind the end of the
file there is nothing. -/
structure Carried (written received : List Byte) (p : Pipe) (eof : Bool) (closed : Prop) :
    Prop where
  arrived : received <+: written
  whole : p.broken = false → received ++ p.flight = written
  lost : p.broken = true → p.flight = []
  eof : eof = true → closed ∧ p.flight = [] ∧ received = written

section Carried

variable {written written' received bs : List Byte} {p : Pipe} {eof eof' : Bool}
  {closed closed' : Prop}

theorem Carried.write (h : Carried written received p eof closed) (hw : written <+: written')
    (hclosed : closed → closed' ∧ written' = written) :
    Carried written' received (p.push (written'.drop written.length)) eof closed' := by
  obtain ⟨bs, rfl⟩ := hw
  rw [List.drop_left]
  refine ⟨h.arrived.trans (List.prefix_append ..), ?_, ?_, ?_⟩
  · intro hb
    unfold Pipe.push at hb ⊢
    split_ifs at hb ⊢ with hbroken
    · rw [hb] at hbroken
      cases hbroken
    show received ++ (p.flight ++ bs) = written ++ bs
    rw [← List.append_assoc, h.whole (Bool.not_eq_true _ ▸ hbroken)]
  · intro hb
    unfold Pipe.push at hb ⊢
    split_ifs at hb ⊢ with hbroken
    · exact h.lost hbroken
    · exact absurd hb hbroken
  · intro he
    obtain ⟨hc, hf, hr⟩ := h.eof he
    obtain ⟨hc', hw⟩ := hclosed hc
    have hbs : bs = [] := List.append_cancel_left (hw.trans (List.append_nil _).symm)
    refine ⟨hc', ?_, hr.trans hw.symm⟩
    unfold Pipe.push
    split_ifs
    · exact hf
    · show p.flight ++ bs = []
      rw [hf, hbs]
      rfl

theorem Carried.read (h : Carried written received p eof closed) (hbs : bs <+: p.flight)
    (heof : eof' = true → eof = true ∨ (p.flight = bs ∧ p.broken = false ∧ closed)) :
    Carried written (received ++ bs) (p.pop bs.length) eof' closed := by
  obtain ⟨rest, hrest⟩ := hbs
  have hpop : (p.pop bs.length).flight = rest := by
    show p.flight.drop bs.length = rest
    rw [← hrest, List.drop_left]
  have hwhole : p.broken = false → received ++ bs ++ rest = written := by
    intro hb
    rw [List.append_assoc, hrest]
    exact h.whole hb
  have hempty : p.flight = [] → bs = [] ∧ rest = [] := fun hf =>
    List.append_eq_nil_iff.mp (hrest.trans hf)
  refine ⟨?_, ?_, ?_, ?_⟩
  · cases hb : p.broken with
    | false => exact ⟨rest, hwhole hb⟩
    | true =>
        rw [(hempty (h.lost hb)).1, List.append_nil]
        exact h.arrived
  · intro hb
    rw [hpop]
    exact hwhole hb
  · intro hb
    rw [hpop]
    exact (hempty (h.lost hb)).2
  · intro he
    rw [hpop]
    rcases heof he with he | ⟨hf, hb, hc⟩
    · obtain ⟨hc, hf, hr⟩ := h.eof he
      obtain ⟨rfl, rfl⟩ := hempty hf
      exact ⟨hc, rfl, by rw [List.append_nil, hr]⟩
    · have hnil : rest = [] :=
        List.append_cancel_left (hrest.trans (hf.trans (List.append_nil _).symm))
      refine ⟨hc, hnil, ?_⟩
      have hw := hwhole hb
      rwa [hnil, List.append_nil] at hw

theorem Carried.lose (h : Carried written received p eof closed) :
    Carried written received ⟨[], true⟩ eof closed where
  arrived := h.arrived
  whole hb := by cases hb
  lost _ := rfl
  eof he := ⟨(h.eof he).1, rfl, (h.eof he).2.2⟩

end Carried

/-! ### Both directions -/

structure Sound (s : Link) : Prop where
  conserving : ∀ e, (s.conn e).Conserving
  carried : ∀ e, Carried (s.conn e).written (s.received e.peer) (s.pipes e) (s.ends e.peer).eof
    (0 < (s.conn e).destroys)

variable {client : TcpClient} {server : TcpServer} {l : End → LoopId} {s t : Link} {e : End}

theorem peer_peer (e : End) : e.peer.peer = e := by cases e <;> rfl

theorem peer_ne (e : End) : e.peer ≠ e := by cases e <;> decide

theorem eq_or_eq_peer (d e : End) : d = e ∨ d = e.peer := by cases d <;> cases e <;> decide

@[simp] theorem setEnd_self {p : Peer} : s.setEnd e p e = p := Function.update_self ..

@[simp] theorem setEnd_peer {p : Peer} : s.setEnd e p e.peer = s.ends e.peer :=
  Function.update_of_ne (peer_ne e) ..

@[simp] theorem flow_self {bs : List Byte} {n : ℕ} : s.flow e bs n e = (s.pipes e).push bs :=
  if_pos rfl

@[simp] theorem flow_peer {bs : List Byte} {n : ℕ} :
    s.flow e bs n e.peer = (s.pipes e.peer).pop n :=
  if_neg (peer_ne e)

theorem ends_peer_retrieve {len : ℕ} (h : s.next client server l (.retrieve e len) = some t) :
    t.ends e.peer = s.ends e.peer := by
  obtain ⟨r, -, ht⟩ := Option.bind_eq_some_iff.mp h
  obtain rfl := Option.some.inj ht
  exact setEnd_peer

theorem flow_nil : s.flow e [] 0 = s.pipes := by
  funext d
  unfold flow Pipe.push Pipe.pop
  split_ifs
  · rfl
  · rw [List.append_nil]
  · rfl

theorem next_act_cases {a : Action} (h : s.next client server l (.act e a) = some t) :
    ∃ session, (s.ends e).session.step (source client server e) (l e) a = some session ∧
      (t.ends e).session = session ∧ (t.ends e).retrieved = (s.ends e).retrieved ∧
      t.ends e.peer = s.ends e.peer := by
  obtain ⟨session, hstep, ht⟩ := Option.bind_eq_some_iff.mp h
  obtain rfl := Option.some.inj ht
  simp only [setEnd_self, setEnd_peer, hstep, and_self, exists_eq_left',
    Option.some.injEq]

theorem next_of_step {a : Action} {session : Session} {bs rs : List Byte} {eof : Bool}
    (h : (s.ends e).session.step (source client server e) (l e) a = some session)
    (hw : session.conn.written = (s.conn e).written ++ bs)
    (hr : (s.ends e).session.readBytes a = rs) (heof : (s.ends e).session.readsEof a = eof) :
    s.next client server l (.act e a) = some {
      ends := s.setEnd e { s.ends e with session, eof := (s.ends e).eof || eof }
      pipes := s.flow e bs rs.length } := by
  have hdrop : session.conn.written.drop (s.ends e).session.conn.written.length = bs := by
    rw [hw]
    exact List.drop_left
  simp only [next, h, Option.bind_eq_bind, Option.bind_some, hdrop, hr, heof]

/-- An action that neither writes nor reads. -/
theorem next_of_quiet {a : Action} {session : Session}
    (h : (s.ends e).session.step (source client server e) (l e) a = some session)
    (hw : session.conn.written = (s.conn e).written) (hr : (s.ends e).session.readBytes a = [])
    (heof : (s.ends e).session.readsEof a = false) :
    s.next client server l (.act e a) =
      some { s with ends := s.setEnd e { s.ends e with session } } := by
  have hnext := next_of_step h (hw.trans (List.append_nil _).symm) hr heof
  rwa [Bool.or_false, List.length_nil, flow_nil] at hnext

theorem arrives_of_quiet {a : Action} (hr : (s.ends e).session.readBytes a = [])
    (heof : (s.ends e).session.readsEof a = false) : s.Arrives e a where
  bytes := by
    rw [hr]
    exact List.nil_prefix
  eof h := by
    rw [heof] at h
    cases h

theorem source_regular (client : TcpClient) (server : TcpServer) (e : End) :
    ∃ closeCallback erase connects,
      (source client server e).Regular closeCallback erase connects := by
  cases e with
  | client => exact ⟨_, _, _, client.source_regular⟩
  | server => exact ⟨_, _, _, server.source_regular⟩

theorem source_receives (hc : KeepsBytes client.codec) (hs : KeepsBytes server.codec) (e : End) :
    (source client server e).Receives := by
  cases e with
  | client => exact client.source_receives hc
  | server => exact server.source_receives hs

/-- A step of one end. -/
theorem sound_act (hc : KeepsBytes client.codec) (hs : KeepsBytes server.codec) {a : Action}
    (h : s.Sound) (hl : (Act.act e a).Legal s) (ht : s.next client server l (.act e a) = some t) :
    t.Sound := by
  obtain ⟨hlegal, -, harrives⟩ := hl
  obtain ⟨session, hstep, ht⟩ := Option.bind_eq_some_iff.mp ht
  obtain rfl := Option.some.inj ht
  obtain ⟨closeCallback, erase, connects, hreg⟩ := source_regular client server e
  have hsys : (Session.system (source client server e) (l e) fun _ => True).Step
      (s.ends e).session a session := ⟨hlegal, hstep⟩
  obtain ⟨hcons, hwritten⟩ := Session.conserving_step hreg (h.conserving e) hsys
  have hread := Session.readBuffer_step hreg (source_receives hc hs e)
    (h.conserving e).closing.wired hlegal hstep
  have hclosed : 0 < (s.conn e).destroys →
      0 < session.conn.destroys ∧ session.conn.written = (s.conn e).written := by
    intro hd
    rcases conn_eq_or_alive hlegal hstep with he | hzero
    · rw [he]
      exact ⟨hd, rfl⟩
    · exact absurd hzero (Nat.pos_iff_ne_zero.mp hd)
  constructor
  · intro d
    rcases eq_or_eq_peer d e with rfl | rfl
    · simpa only [conn, setEnd_self] using hcons
    · simpa only [conn, setEnd_peer] using h.conserving e.peer
  · intro d
    rcases eq_or_eq_peer d e with rfl | rfl
    · simpa only [conn, received, setEnd_self, setEnd_peer, flow_self] using
        (h.carried d).write hwritten hclosed
    · have hcarried := h.carried e.peer
      simp only [conn, received, peer_peer] at hcarried
      simp only [conn, received, setEnd_self, setEnd_peer, flow_peer, peer_peer]
      rw [hread, ← List.append_assoc]
      refine hcarried.read harrives.bytes fun heof => ?_
      rcases Bool.or_eq_true_iff.mp heof with heof | heof
      · exact Or.inl heof
      · exact Or.inr (harrives.eof heof)

theorem sound_step (hc : KeepsBytes client.codec) (hs : KeepsBytes server.codec) {a : Act}
    (h : s.Sound) (ht : (system client server l).Step s a t) : t.Sound := by
  obtain ⟨hl, ht⟩ := ht
  cases a with
  | act e a => exact sound_act hc hs h hl ht
  | retrieve e len =>
      obtain ⟨rest, p, e1, hrest⟩ := ValidBuffer.retrieve_of_le hl.2
      have hret : (s.ends e).session.conn.readBuffer.retrieve len = some (rest, p) := e1
      simp only [next, hret, Option.bind_eq_bind, Option.bind_some, Option.some.injEq] at ht
      obtain rfl := ht
      have hkeep : (s.ends e).retrieved ++ (s.conn e).readBuffer.bytes.take len ++ rest.bytes =
          s.received e := by
        rw [hrest, List.append_assoc, List.take_append_drop]
        rfl
      constructor
      · intro d
        rcases eq_or_eq_peer d e with rfl | rfl
        · have hd := h.conserving d
          simp only [conn, setEnd_self]
          have hwired := hd.closing.wired
          exact ⟨⟨⟨hwired.plain, hwired.readCallback, hwired.writeCallback⟩, hd.closing.requested,
            hd.closing.destroyed⟩, hd.conserved⟩
        · simpa only [conn, setEnd_peer] using h.conserving e.peer
      · intro d
        rcases eq_or_eq_peer d e with rfl | rfl
        · simpa only [conn, received, setEnd_self, setEnd_peer] using h.carried d
        · have hr := h.carried e.peer
          rw [peer_peer, ← hkeep] at hr
          simpa only [conn, received, setEnd_self, setEnd_peer, peer_peer] using hr
  | lose e =>
      obtain rfl := Option.some.inj ht
      refine ⟨h.conserving, fun d => ?_⟩
      by_cases hd : d = e
      · subst hd
        have hp : Function.update s.pipes d ⟨[], true⟩ d = ⟨[], true⟩ := Function.update_self ..
        simpa only [conn, received, hp] using (h.carried d).lose
      · have hp : Function.update s.pipes e ⟨[], true⟩ d = s.pipes d := Function.update_of_ne hd ..
        simpa only [conn, received, hp] using h.carried d

theorem sound_of_reachable (hc : KeepsBytes client.codec) (hs : KeepsBytes server.codec)
    (h : Reachable (system client server l) s) : s.Sound := by
  refine h.invariant ?_ (fun _ _ _ => sound_step hc hs)
  rintro _ ⟨time, rfl⟩
  constructor
  · intro d
    cases d with
    | client => exact ⟨Closing.connecting _, rfl⟩
    | server => exact ⟨Closing.accepted _ time, rfl⟩
  · intro d
    cases d with
    | client => exact ⟨List.prefix_refl _, fun _ => rfl, nofun, nofun⟩
    | server => exact ⟨List.prefix_refl _, fun _ => rfl, nofun, nofun⟩

theorem Sound.arrival (h : s.Sound) (e : End) :
    s.received e.peer <+: (s.conn e).sent ∧ ((s.pipes e).broken = false →
      s.received e.peer ++ (s.pipes e).flight ++ (s.conn e).writeBuffer.bytes =
        (s.conn e).sent) := by
  have hsent := (h.conserving e).conserved
  have hcarried := h.carried e
  constructor
  · exact hcarried.arrived.trans ⟨_, hsent⟩
  · intro hb
    rw [hcarried.whole hb, hsent]

/-! ### Making the connection -/

/-- A step of one end as a step of the link. -/
theorem step_act {p : Peer} {a : Action} {session : Session} {bs rs : List Byte} {eof : Bool}
    (hp : s.ends e = p) (hl : a.Legal p.session) (hne : a ≠ .resolve false)
    (hstep : p.session.step (source client server e) (l e) a = some session)
    (hw : session.conn.written = p.session.conn.written ++ bs) (hr : p.session.readBytes a = rs)
    (heof : p.session.readsEof a = eof) (hrs : rs <+: (s.pipes e.peer).flight)
    (hend : eof = true → (s.pipes e.peer).flight = rs ∧ (s.pipes e.peer).broken = false ∧
      0 < (s.conn e.peer).destroys) :
    (system client server l).Step s (.act e a)
      ⟨s.setEnd e { p with session, eof := p.eof || eof }, s.flow e bs rs.length⟩ := by
  subst hp hr heof
  exact ⟨⟨hl, hne, hrs, hend⟩, next_of_step hstep hw rfl rfl⟩

theorem step_of_quiet {p : Peer} {a : Action} {session : Session} (hp : s.ends e = p)
    (hl : a.Legal p.session) (hne : a ≠ .resolve false)
    (hstep : p.session.step (source client server e) (l e) a = some session)
    (hw : session.conn.written = p.session.conn.written) (hr : p.session.readBytes a = [])
    (heof : p.session.readsEof a = false) :
    (system client server l).Step s (.act e a)
      { s with ends := s.setEnd e { p with session } } := by
  subst hp
  exact ⟨⟨hl, hne, arrives_of_quiet hr heof⟩, next_of_quiet hstep hw hr heof⟩

theorem eq_of_ends {u : Link} (hclient : t.ends .client = u.ends .client)
    (hserver : t.ends .server = u.ends .server) (hpipes : t.pipes = u.pipes) : t = u := by
  obtain ⟨ends, pipes⟩ := t
  obtain ⟨ends', pipes'⟩ := u
  have hends : ends = ends' := by
    funext e
    cases e with
    | client => exact hclient
    | server => exact hserver
  rw [hends, show pipes = pipes' from hpipes]

theorem step_of_ends {u : Link} {a : Act} (h : (system client server l).Step s a t)
    (hclient : t.ends .client = u.ends .client) (hserver : t.ends .server = u.ends .server)
    (hpipes : t.pipes = u.pipes) : (system client server l).Step s a u :=
  eq_of_ends hclient hserver hpipes ▸ h

/-- The event of a connect that has succeeded. -/
def connected : Action := .event { EPOLLOUT := true } 0 [.data []] (.accepted 0)

/-- The connection of a client that has connected, and sent `msg` after its connect callback. -/
def greeted (l : LoopId) (msg : List Byte) : TcpConnection :=
  queue msg (TcpClient.established ((TcpClient.connecting l).report { EPOLLOUT := true }))

/-- The client has connected and sent `msg`; the server has accepted the connection. -/
def opened (l : End → LoopId) (time : UInt32) (msg : List Byte) : Link where
  ends
    | .client => { session := { conn := greeted (l .client) msg } }
    | .server => { session := { conn := TcpServer.accepted (l .server) time } }
  pipes _ := {}

theorem path_opened {msg : List Byte} (hcb : client.connEstaCallback = false) (hmsg : msg ≠ [])
    (time : UInt32) : Path (system client server l) (start l time)
      [.act .client (.resolve true), .act .client connected, .act .client (.send msg)]
      (opened l time msg) := by
  let conn := TcpClient.connecting (l .client)
  let conn' := TcpClient.established (conn.report { EPOLLOUT := true })
  have hconnect : Session.step client.source (l .client) { conn } connected =
      some { conn := conn' } :=
    Session.step_connect rfl (TcpClient.connectCallback_of_unset hcb)
  have hlegal : connected.Legal { conn } :=
    Session.legal_write rfl rfl rfl rfl (by decide) (Nat.zero_le _)
  let s := start l time
  let s₁ : Link := { s with ends := s.setEnd .client { session := { conn } } }
  let s₂ : Link := { s with ends := s.setEnd .client { session := { conn := conn' } } }
  have h1 : (system client server l).Step s (.act .client (.resolve true)) s₁ :=
    step_of_quiet rfl rfl nofun rfl rfl rfl rfl
  have h2 : (system client server l).Step s₁ (.act .client connected) s₂ :=
    step_of_ends
      (step_of_quiet (p := { session := { conn } }) rfl hlegal nofun hconnect rfl rfl rfl)
      rfl rfl rfl
  have h3 : (system client server l).Step s₂ (.act .client (.send msg)) (opened l time msg) :=
    step_of_ends (step_of_quiet (p := { session := { conn := conn' } }) rfl ⟨rfl, hmsg⟩ nofun
      (Session.step_send hmsg) rfl rfl rfl) rfl rfl rfl
  exact .cons h1 (.cons h2 (.cons h3 (.nil _)))

/-- With codecs that never find a message complete. -/
abbrev quiet : System Link Act := system TcpClient.waiting TcpServer.waiting fun _ => 0

theorem reachable_opened {msg : List Byte} (hmsg : msg ≠ []) :
    Reachable quiet (opened (fun _ => 0) 0 msg) :=
  (path_opened rfl hmsg 0).reachable (.init ⟨0, rfl⟩)

/-- A write that takes one byte. -/
def writesOne : Action := .event { EPOLLOUT := true } 0 [.data []] (.accepted 1)

/-- A read of what has arrived. -/
def reads (bs : List Byte) : Action := .event { EPOLLIN := true } 0 [.data bs] (.accepted 0)

/-- The client has written the first byte of its message. -/
def departed (l : End → LoopId) (time : UInt32) (b : Byte) (msg : List Byte) (c : TcpConnection) :
    Link :=
  let s := opened l time (b :: msg)
  ⟨s.setEnd .client { session := { conn := c } }, s.flow .client [b] 0⟩

theorem step_departed {b : Byte} {msg : List Byte} {time : UInt32} {c : TcpConnection}
    (hc : ((greeted (l .client) (b :: msg)).report { EPOLLOUT := true }).sendNonblock client.source
      (l .client) (.accepted 1) = some c) (hw : c.written = [b]) :
    (system client server l).Step (opened l time (b :: msg)) (.act .client writesOne)
      (departed l time b msg c) := by
  let c₀ := greeted (l .client) (b :: msg)
  have hb : c₀.writeBuffer.bytes = b :: msg := ValidBuffer.bytes_append (.make _) _
  have hlen : 1 ≤ c₀.writeBuffer.bytes.length := by
    rw [hb]
    exact Nat.succ_pos _
  exact step_act (p := { session := { conn := c₀ } }) (a := writesOne) rfl
    (Session.legal_write rfl rfl rfl rfl (by decide) hlen) nofun
    (Session.step_write rfl hc) hw rfl rfl List.nil_prefix nofun

/-- The client has written one byte, which is in the read buffer of the server. -/
def carried (c : TcpConnection) (readBuffer : ValidBuffer IO_BUFFER_SIZE) : Link where
  ends
    | .client => { session := { conn := c } }
    | .server =>
        let d := (TcpServer.accepted 0 0).report { EPOLLIN := true }
        { session := { conn := { d with data := some 0, readBuffer } } }
  pipes _ := {}

theorem path_carried {b : Byte} {msg : List Byte} {c : TcpConnection}
    (hc : ((greeted 0 (b :: msg)).report { EPOLLOUT := true }).sendNonblock
      TcpClient.waiting.source 0 (.accepted 1) = some c) (hw : c.written = [b]) :
    ∃ readBuffer : ValidBuffer IO_BUFFER_SIZE, readBuffer.bytes = [b] ∧
      Path quiet (opened (fun _ => 0) 0 (b :: msg))
        [.act .client writesOne, .act .server (reads [b])] (carried c readBuffer) := by
  let d := TcpServer.accepted 0 0
  have hd : Buffer.Deliverable 4096 [.data [b]] := by simp [Buffer.Deliverable]
  obtain ⟨readBuffer, hbytes, hread⟩ := @TcpServer.preConnMsgCallback_of_pos TcpServer.waiting 0 0
    [.data [b]] (d.report { EPOLLIN := true }) hd Int.one_pos
  have h2 : quiet.Step (departed (fun _ => 0) 0 b msg c) (.act .server (reads [b]))
      (carried c readBuffer) :=
    step_of_ends (step_act (e := .server) (p := { session := { conn := d } }) (a := reads [b]) rfl
      (Session.legal_read rfl rfl rfl rfl hd) nofun
      (Session.step_read rfl hread) (List.append_nil _).symm rfl rfl (List.prefix_refl _) nofun)
      rfl rfl (funext fun e => by cases e <;> rfl)
  exact ⟨readBuffer, hbytes, .cons (step_departed hc hw) (.cons h2 (.nil _))⟩

/-- **Order**: in every run, what a user has retrieved and what is left in its read buffer is what
the other user sent, in order and up to some byte, and the rest is on its way or in the write buffer
as long as nothing was lost. -/
theorem in_order (hc : KeepsBytes client.codec) (hs : KeepsBytes server.codec)
    (h : Reachable (system client server l) s) (e : End) :
    s.received e.peer <+: (s.conn e).sent ∧ ((s.pipes e).broken = false →
      s.received e.peer ++ (s.pipes e).flight ++ (s.conn e).writeBuffer.bytes = (s.conn e).sent) :=
  (sound_of_reachable hc hs h).arrival e

/-- The client has sent two bytes, of which one has arrived. -/
theorem in_order_carried : ∃ s, Reachable quiet s ∧ s.received .server = [1] ∧
    (s.conn .client).writeBuffer.bytes = [2] ∧ s.received .server <+: (s.conn .client).sent ∧
    s.received .server ++ (s.pipes .client).flight ++ (s.conn .client).writeBuffer.bytes =
      (s.conn .client).sent := by
  let c := (greeted 0 [1, 2]).report { EPOLLOUT := true }
  have hb : c.writeBuffer.bytes = [1, 2] := ValidBuffer.bytes_append (.make _) [1, 2]
  obtain ⟨rest, hrest, hwrite⟩ := @sendNonblock_part c TcpClient.waiting.source 0 1
    (by rw [hb]; decide)
  have hwrote : (c.wrote rest 1).written = [1] := by
    show [] ++ c.writeBuffer.bytes.take 1 = [1]
    rw [hb]
    rfl
  obtain ⟨readBuffer, hread, hp⟩ := path_carried hwrite hwrote
  have hr := hp.reachable (reachable_opened (by decide))
  obtain ⟨hfirst, hwhole⟩ := in_order (fun _ => rfl) (fun _ => rfl) hr .client
  exact ⟨_, hr, hread, by rw [hb] at hrest; exact hrest, hfirst, hwhole rfl⟩

/-- **Closing**: when `connCloseCallback_` makes no calls, an end that has read the end of the file
has everything that the user of the other end has sent, and the other end will send nothing
more. -/
theorem eof_complete (hc : KeepsBytes client.codec) (hs : KeepsBytes server.codec)
    (h : Reachable (system client server l) s) (e : End) (heof : (s.ends e.peer).eof = true) :
    s.received e.peer = (s.conn e).sent ∧ (s.conn e).state = .CLOSED ∧
      (s.conn e).writeBuffer.bytes = [] := by
  have hsound := sound_of_reachable hc hs h
  have hsent := (hsound.conserving e).conserved
  obtain ⟨hd, -, hr⟩ := (hsound.carried e).eof heof
  obtain ⟨hstate, hb⟩ := (hsound.conserving e).closing.destroyed hd
  rw [hb, List.append_nil] at hsent
  exact ⟨hr.trans hsent, hstate, hb⟩

/-- The client sends one byte, which the server reads, and closes; the server reads the end of the
file. -/
theorem eof_complete_closed : ∃ s, Reachable quiet s ∧
    s.received .server = (s.conn .client).sent ∧ (s.conn .client).state = .CLOSED ∧
      (s.conn .client).writeBuffer.bytes = [] := by
  let c₀ := (greeted 0 [7]).report { EPOLLOUT := true }
  have hb : c₀.writeBuffer.bytes = [7] := ValidBuffer.bytes_append (.make _) [7]
  obtain ⟨rest, hrest, hflush⟩ := @sendNonblock_all c₀ TcpClient.waiting.source 0 1
    (by rw [hb]; rfl) rfl
  let c₁ := (c₀.wrote rest 1).unwatch
  have hwrote : c₁.written = [7] := by
    show [] ++ c₀.writeBuffer.bytes.take 1 = [7]
    rw [hb]
    rfl
  obtain ⟨readBuffer, -, hp⟩ := path_carried hflush hwrote
  have hclose : c₁.activeClose TcpClient.waiting.source 0 = some (c₁.closeNow false true) :=
    closeWith_of_empty hrest
  let s := carried c₁ readBuffer
  let s₁ : Link := { s with
    ends := s.setEnd .client { session := { conn := c₁.closeNow false true } } }
  let d := (s.conn .server).report { EPOLLIN := true }
  obtain ⟨readBuffer', hlast⟩ : ∃ readBuffer' : ValidBuffer IO_BUFFER_SIZE,
      TcpServer.waiting.preConnMsgCallback 0 0 [.data []] d = some
        (closeNow false true { d with data := some 0, readBuffer := readBuffer' }, .loop) :=
    TcpServer.preConnMsgCallback_of_nonpos (by decide) (by decide) rfl
  have h1 : quiet.Step s (.act .client .activeClose) s₁ :=
    step_of_quiet (p := { session := { conn := c₁ } }) (a := .activeClose) rfl rfl nofun
      (Session.step_activeClose hclose) rfl rfl rfl
  have h2 := ((hp.reachable (reachable_opened (by decide))).step h1).step
    (step_act (e := .server) (p := s.ends .server) (a := reads []) rfl
      (Session.legal_read rfl rfl rfl rfl (by decide)) nofun (Session.step_read rfl hlast)
      (List.append_nil _).symm rfl rfl List.nil_prefix (fun _ => ⟨rfl, rfl, Nat.one_pos⟩))
  exact ⟨_, h2, eof_complete (fun _ => rfl) (fun _ => rfl) h2 .client rfl⟩

end Link

end Dagger

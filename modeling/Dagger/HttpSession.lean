import Dagger.CallbackOrder
import Dagger.DeferredClose
import Dagger.Link
import Dagger.OwnerMark
import Dagger.Segmentation
import Dagger.ServerDelivery

/-! # The answers of the HTTP server

A connection of `RtspServer` from its acceptance on, with every event that epoll may report: reads
bring bytes, the end of the file or an error, and writes take some bytes.  A client sends a stream
of requests, in pieces of any size.

`answers_in_order` follows the answers: they are sent in the order of the requests, and a request
for no service is the last one that is answered.  `never_stuck` is about the assertions on the
way. -/

namespace Dagger

open TcpConnection RequestText Transition

namespace TcpConnection

/-- A close that was requested is kept in `isWillClose_`, with bytes to wait for. -/
structure Kept (c : TcpConnection) : Prop where
  closing : c.Closing
  wanted : c.Wanted
  unsent : c.Unsent

variable {closeCallback erase : Bool} {c c' : TcpConnection}

theorem Kept.accepted (l : LoopId) (time : UInt32) : (TcpServer.accepted l time).Kept :=
  ⟨.accepted l time, fun _ h => absurd h List.not_mem_nil, fun _ h => absurd h List.not_mem_nil⟩

theorem Kept.effect (h : c.Kept) (he : Effect closeCallback erase c c') : c'.Kept := by
  refine ⟨h.closing.effect he, h.wanted.effect he, ?_⟩
  cases he with
  | report => exact h.unsent
  | read => exact h.unsent
  | callback _ hne => exact h.unsent.log hne
  | deferClose hb => exact .of_bytes hb
  | close => exact .of_destroyed (Nat.succ_ne_zero _)
  | @write rest n c _ hlt hrest =>
      refine .of_bytes ?_
      show rest.bytes ≠ []
      rw [hrest]
      exact List.ne_nil_of_length_pos (by rw [List.length_drop]; omega)
  | flush _ _ hwill =>
      -- a request would have been found
      intro hd hreq
      have hw := h.wanted hd hreq
      exact absurd (hw.symm.trans hwill) (by decide)
  | flushClose => exact .of_destroyed (Nat.succ_ne_zero _)

theorem Kept.effects (h : c.Kept) (he : Effects closeCallback erase c c') : c'.Kept :=
  he.invariant (fun _ _ => Kept.effect) h

/-- A `send` before any close. -/
theorem Kept.queue (h : c.Kept) {str : List Byte} (hd : c.destroys = 0)
    (hopen : Call.closeConnection ∉ c.calls) : (c.queue str).Kept :=
  ⟨h.closing.queue hd, fun _ hreq => absurd hreq hopen, fun _ hreq => absurd hreq hopen⟩

end TcpConnection

/-- A connection with its history. -/
structure HttpSession where
  conn : TcpConnection
  /-- What was read. -/
  received : List Byte := []
  /-- The requests that were parsed, each with what was sent for it. -/
  answered : List (RequestText × List Byte) := []

namespace HttpSession

/-- The handling of an event, with the results its system calls meet, and the answer of the service
that it may lead to. -/
structure Act where
  revents : EpollFlags
  timeInProcess : UInt32
  script : List ReadResult
  write : WriteResult
  answer : List Byte

section Defs

variable (server : RtspServer) (l : LoopId) (s : HttpSession) (a : Act)

/-- `handle()`. -/
def next : Option HttpSession :=
  let c := s.conn.report a.revents
  match c.event.handle with
  | none => some { s with conn := c }
  | some .preConnMsgCallback => do
      let (conn, control) ← server.tcpServer.preConnMsgCallback l a.timeInProcess a.script c
      let received := s.received ++ Buffer.received 4096 a.script
      if control = .connMsgCallback then
        let (_, request) ← conn.readBuffer.parseRequest
        let (conn', _) ← server.handleRtspRequest l a.answer conn
        let reply := conn'.sent.drop conn.sent.length
        some { conn := conn', received, answered := s.answered ++ [(request, reply)] }
      else some { s with conn, received }
  | some .sendNonblock => do
      let conn ← c.sendNonblock server.tcpServer.source l a.write
      some { s with conn }
  | some .connectCallback => none

/-- What the kernel may report; nothing is done with a connection after `destroy()`. -/
structure Legal : Prop where
  alive : s.conn.destroys = 0
  interest : s.conn.event.events.Reportable a.revents
  deliverable : Buffer.Deliverable 4096 a.script
  written : a.write.Possible s.conn.writeBuffer.bytes.length
  answer : a.answer ≠ []

def system : Transition.System HttpSession Act where
  Init s := ∃ time, s = { conn := TcpServer.accepted l time }
  Step s a t := s.Legal a ∧ s.next server l a = some t

/-- The client sends the requests `rs`. -/
def Sends (rs : List RequestText) (s : HttpSession) (a : Act) : Prop :=
  (s.conn.report a.revents).event.handle = some .preConnMsgCallback →
    s.received ++ Buffer.received 4096 a.script <+: stream rs

end Defs

variable {server : RtspServer} {l : LoopId} {s t : HttpSession} {a : Act} {rs : List RequestText}

/-! ### The answer to a request -/

theorem blank_ne_nil (url : List Byte) : RtspServer.blank url ≠ [] := by
  unfold RtspServer.blank
  split_ifs
  · have hline : chars "HTTP/1.1 200 OK\r\n" ≠ [] := by decide
    unfold HttpResponse.bytes
    rw [List.append_assoc, List.append_assoc]
    exact List.append_ne_nil_of_left_ne_nil hline _
  · decide

/-- A service answers, or a page is sent and the connection closed after it. -/
def Replied (server : RtspServer) (url reply : List Byte) (c c' : TcpConnection) : Prop :=
  reply ≠ [] ∧ ((url ∈ server.services ∧ c' = c.queue reply) ∨
    (url ∉ server.services ∧ reply = RtspServer.blank url ∧ c' = (c.queue reply).deferClose))

theorem drop_sent (c : TcpConnection) (str : List Byte) :
    (c.queue str).sent.drop c.sent.length = str := List.drop_left

theorem bytes_queue_ne_nil {c : TcpConnection} {str : List Byte} (hstr : str ≠ []) :
    (c.queue str).writeBuffer.bytes ≠ [] := by
  show (c.writeBuffer.append str).bytes ≠ []
  rw [ValidBuffer.bytes_append]
  exact List.append_ne_nil_of_right_ne_nil _ hstr

theorem replied_of_handle {c c' : TcpConnection} {readBuffer : ValidBuffer IO_BUFFER_SIZE}
    {r : RequestText} {answer : List Byte} {called : Option RequestText}
    (hp : c.readBuffer.parseRequest = some (readBuffer, r)) (ha : answer ≠ [])
    (h : server.handleRtspRequest l answer c = some (c', called)) :
    Replied server r.url (c'.sent.drop c.sent.length) { c with readBuffer } c' := by
  unfold RtspServer.handleRtspRequest at h
  rw [hp] at h
  simp only [Option.bind_eq_bind, Option.bind_some] at h
  split_ifs at h with hurl
  · obtain ⟨c₁, hsend, h⟩ := Option.bind_eq_some_iff.mp h
    obtain ⟨rfl, -⟩ := Prod.mk.inj (Option.some.inj h)
    rw [sendStr_eq ha] at hsend
    obtain rfl := Option.some.inj hsend
    have hd := drop_sent { c with readBuffer } answer
    rw [hd]
    exact ⟨ha, Or.inl ⟨hurl, rfl⟩⟩
  · obtain ⟨c₁, hsend, h⟩ := Option.bind_eq_some_iff.mp h
    obtain ⟨c₂, hclose, h⟩ := Option.bind_eq_some_iff.mp h
    obtain ⟨rfl, -⟩ := Prod.mk.inj (Option.some.inj h)
    rw [sendStr_eq (blank_ne_nil r.url)] at hsend
    obtain rfl := Option.some.inj hsend
    have hdefer := TcpServer.closeConnection_eq hclose
    rw [closeWith_of_unsent (bytes_queue_ne_nil (blank_ne_nil r.url))] at hdefer
    obtain rfl := Option.some.inj hdefer
    have hd := drop_sent { c with readBuffer } (RtspServer.blank r.url)
    have hd' : (({ c with readBuffer } : TcpConnection).queue
        (RtspServer.blank r.url)).deferClose.sent.drop c.sent.length =
          RtspServer.blank r.url := hd
    rw [hd']
    exact ⟨blank_ne_nil r.url, Or.inr ⟨hurl, rfl, rfl⟩⟩

theorem Replied.readBuffer {url reply : List Byte} {c c' : TcpConnection}
    (h : Replied server url reply c c') : c'.readBuffer = c.readBuffer := by
  obtain ⟨-, ⟨-, rfl⟩ | ⟨-, -, rfl⟩⟩ := h
  · rfl
  · rfl

theorem Replied.sent {url reply : List Byte} {c c' : TcpConnection}
    (h : Replied server url reply c c') : c'.sent = c.sent ++ reply := by
  obtain ⟨-, ⟨-, rfl⟩ | ⟨-, -, rfl⟩⟩ := h
  · rfl
  · rfl

/-- A request for no service closes the connection. -/
theorem Replied.closes {url reply : List Byte} {c c' : TcpConnection}
    (h : Replied server url reply c c') (hurl : url ∉ server.services) :
    reply = RtspServer.blank url ∧ Call.closeConnection ∈ c'.calls := by
  obtain ⟨-, ⟨hin, -⟩ | ⟨-, hreply, rfl⟩⟩ := h
  · exact absurd hin hurl
  · exact ⟨hreply, List.mem_append_right _ (List.mem_singleton.mpr rfl)⟩

/-- An open connection stays delivering and keeps its close. -/
theorem Replied.kept {url reply : List Byte} {c c' : TcpConnection}
    (h : Replied server url reply c c') (hd : c.Delivering) (hk : c.Kept) (halive : c.destroys = 0)
    (hopen : Call.closeConnection ∉ c.calls) : c'.Delivering ∧ c'.Kept := by
  obtain ⟨hne, ⟨-, rfl⟩ | ⟨-, -, rfl⟩⟩ := h
  · exact ⟨hd.queue halive hne, hk.queue halive hopen⟩
  · have he : Effect server.tcpServer.connCloseCallback
        (!server.tcpServer.idleConnectionsManager) (c.queue reply) (c.queue reply).deferClose :=
      .deferClose (bytes_queue_ne_nil hne)
    exact ⟨(hd.queue halive hne).effect he, (hk.queue halive hopen).effect he⟩

/-! ### What an event can do -/

theorem codec_of_false {N : ℕ} {b : ValidBuffer N} (h : b.httpRequestDefaultCallback.1 = false) :
    b.httpRequestDefaultCallback.2.bytes = b.bytes := by
  cases hfind : b.raw.findStr [CR, LF, CR, LF] with
  | none =>
      have hc : Codec.httpRequestDefaultCallback b.raw = (false, b.raw) := by
        rw [Codec.httpRequestDefaultCallback, hfind]
      show (Codec.httpRequestDefaultCallback b.raw).2.readable = _
      rw [hc]
      rfl
  | some n =>
      have hc : (Codec.httpRequestDefaultCallback b.raw).1 = true := by
        rw [Codec.httpRequestDefaultCallback, hfind]
      exact absurd (hc.symm.trans h) (by decide)

/-- Effects of the library, which may have read `chunk`, and no answer. -/
structure Quiet (server : RtspServer) (chunk : List Byte) (s t : HttpSession) : Prop where
  effects : Effects server.tcpServer.connCloseCallback
    (!server.tcpServer.idleConnectionsManager) s.conn t.conn
  received : t.received = s.received ++ chunk
  readBuffer : t.conn.readBuffer.bytes = s.conn.readBuffer.bytes ++ chunk
  answered : t.answered = s.answered

/-- A message was completed by `chunk`, parsed as `r` and answered. -/
structure Answering (server : RtspServer) (chunk : List Byte) (s t : HttpSession) : Prop where
  opened : s.conn.event.isReadable = true
  received : t.received = s.received ++ chunk
  step : ∃ (b readBuffer : ValidBuffer IO_BUFFER_SIZE) (r : RequestText) (reply : List Byte)
    (c : TcpConnection), b.bytes = s.conn.readBuffer.bytes ++ chunk ∧
      b.httpRequestDefaultCallback.1 = true ∧
      b.httpRequestDefaultCallback.2.parseRequest = some (readBuffer, r) ∧
      Effects server.tcpServer.connCloseCallback
        (!server.tcpServer.idleConnectionsManager) s.conn c ∧
      c.readBuffer = readBuffer ∧ c.sent = s.conn.sent ∧ c.destroys = s.conn.destroys ∧
      c.calls = s.conn.calls ++ [.connMsgCallback] ∧ Replied server r.url reply c t.conn ∧
      t.answered = s.answered ++ [(r, reply)]

theorem next_of_read (hl : s.Legal a) (hw : s.conn.Wired)
    (hh : (s.conn.report a.revents).event.handle = some .preConnMsgCallback)
    (h : s.next server l a = some t) :
    Quiet server (Buffer.received 4096 a.script) s t ∨
      Answering server (Buffer.received 4096 a.script) s t := by
  have hrep : Effects server.tcpServer.connCloseCallback
      (!server.tcpServer.idleConnectionsManager) s.conn (s.conn.report a.revents) :=
    .single (.report a.revents _)
  unfold next at h
  simp only [hh] at h
  obtain ⟨⟨conn, control⟩, hread, h⟩ := Option.bind_eq_some_iff.mp h
  have heffects := hrep.trans (TcpServer.preConnMsgCallback_reads hread).effects
  obtain ⟨b, e, hb⟩ := ValidBuffer.readFromSocket_of_deliverable
    (b := (s.conn.report a.revents).readBuffer) hl.deliverable
  obtain ⟨b₁, n, last, hr, hcase⟩ := TcpServer.preConnMsgCallback_cases hread
  rw [e] at hr
  obtain ⟨rfl, -⟩ := Prod.mk.inj (Option.some.inj hr)
  rcases hcase with ⟨-, rfl, hclose⟩ | ⟨-, hready, rfl, hconn⟩ | ⟨-, hready, rfl, hconn⟩
  · obtain rfl := Option.some.inj h
    refine Or.inl ⟨heffects, rfl, ?_, rfl⟩
    show conn.readBuffer.bytes = _
    rw [readBuffer_of_closeWith hclose]
    exact hb
  · obtain rfl := Option.some.inj h
    refine Or.inl ⟨heffects, rfl, ?_, rfl⟩
    show conn.readBuffer.bytes = _
    rw [hconn]
    exact (codec_of_false hready).trans hb
  · simp only [if_true] at h
    obtain ⟨⟨b', r⟩, hparse, h⟩ := Option.bind_eq_some_iff.mp h
    obtain ⟨⟨conn', called⟩, hhandle, h⟩ := Option.bind_eq_some_iff.mp h
    obtain rfl := Option.some.inj h
    have hreply := replied_of_handle hparse hl.answer hhandle
    have hopened : s.conn.event.isReadable = true := by
      rcases Event.handle_cases hw.plain hl.interest hh with ⟨hin, -⟩ | ⟨-, hslot⟩
      · exact hin
      · exact absurd hslot hw.writeCallback
    have hset : Effect server.tcpServer.connCloseCallback
        (!server.tcpServer.idleConnectionsManager) conn { conn with readBuffer := b' } :=
      .read b' conn.data conn.lastReceiveTime conn
    refine Or.inr ⟨hopened, rfl, b, b', r, _, { conn with readBuffer := b' }, hb, hready, ?_,
      heffects.tail hset, rfl, ?_, ?_, ?_, hreply, rfl⟩
    · rw [← hparse, hconn]
      rfl
    all_goals
      rw [hconn]
      rfl

/-- An event reads `chunk`, or nothing. -/
theorem next_cases (hl : s.Legal a) (hw : s.conn.Wired) (h : s.next server l a = some t) :
    ∃ chunk, (chunk = [] ∨ ((s.conn.report a.revents).event.handle = some .preConnMsgCallback ∧
      chunk = Buffer.received 4096 a.script)) ∧
      (Quiet server chunk s t ∨ Answering server chunk s t) := by
  have hrep : Effect server.tcpServer.connCloseCallback
      (!server.tcpServer.idleConnectionsManager) s.conn (s.conn.report a.revents) :=
    .report a.revents _
  cases hh : (s.conn.report a.revents).event.handle with
  | none =>
      unfold next at h
      simp only [hh, Option.some.injEq] at h
      obtain rfl := h
      refine ⟨[], Or.inl rfl, Or.inl ⟨.single hrep, ?_, ?_, rfl⟩⟩
      · exact (List.append_nil _).symm
      · exact (List.append_nil _).symm
  | some callback =>
      cases callback with
      | preConnMsgCallback => exact ⟨_, Or.inr ⟨rfl, rfl⟩, next_of_read hl hw hh h⟩
      | sendNonblock =>
          unfold next at h
          simp only [hh] at h
          obtain ⟨conn, hc, h⟩ := Option.bind_eq_some_iff.mp h
          obtain rfl := Option.some.inj h
          have hslot : (s.conn.report a.revents).event.writeCallback = some .sendNonblock := by
            apply (Event.handle_slot hw.plain hh).resolve_left
            rw [hw.readCallback]
            decide
          have he := sendNonblock_effects server.tcpServer.source_regular hslot hl.written hc
          refine ⟨[], Or.inl rfl, Or.inl ⟨.head hrep he, ?_, ?_, rfl⟩⟩
          · exact (List.append_nil _).symm
          · refine Eq.trans ?_ (List.append_nil _).symm
            show conn.readBuffer.bytes = _
            obtain ⟨n, rest, -, -, ⟨-, rfl⟩ | ⟨-, -, hclose⟩ | ⟨-, -, rfl⟩⟩ :=
              sendNonblock_cases (c := s.conn.report a.revents) hl.written hc
            · rfl
            · rw [readBuffer_of_closeWith (TcpServer.closeConnection_eq hclose)]
              rfl
            · rfl
      | connectCallback =>
          unfold next at h
          simp only [hh] at h
          cases h

/-! ### Runs -/

/-- The requests have no spaces in their values. -/
def Plain (rs : List RequestText) : Prop := ∀ r ∈ rs, r.WellFormed ∧ r.SpaceFree

/-- A message that the codec reports is the next request. -/
theorem parsed_of_ready {b : ValidBuffer IO_BUFFER_SIZE} {more : List Byte} {d : ℕ} (hrs : Plain rs)
    (hb : b.bytes ++ more = stream (rs.drop d)) (hready : b.httpRequestDefaultCallback.1 = true) :
    ∃ readBuffer r, b.httpRequestDefaultCallback.2.parseRequest = some (readBuffer, r) ∧
      rs.take (d + 1) = rs.take d ++ [r] ∧ b.bytes = r.encode ++ readBuffer.bytes := by
  cases hdrop : rs.drop d with
  | nil =>
      rw [hdrop, stream_nil] at hb
      have hfalse := (ValidBuffer.codec_of_nil (List.append_eq_nil_iff.mp hb).1).1
      exact absurd (hready.symm.trans hfalse) (by decide)
  | cons r rs' =>
      obtain ⟨hwf, hsp⟩ := hrs r (List.mem_of_mem_drop (hdrop ▸ List.mem_cons_self))
      rw [hdrop, stream_cons] at hb
      have hpre : b.bytes <+: r.encode ++ stream rs' := ⟨more, hb⟩
      by_cases hlen : r.encode.length ≤ b.bytes.length
      · obtain ⟨rest, hsplit⟩ : r.encode <+: b.bytes :=
          List.prefix_of_prefix_length_le (List.prefix_append _ _) hpre hlen
        obtain ⟨b', hparse, hrest⟩ :=
          ValidBuffer.parseRequest_encode (hwf.scannable hsp) hsplit.symm
        refine ⟨b', r, hparse, ?_, ?_⟩
        · rw [List.take_add, hdrop]
          rfl
        · rw [hrest, hsplit]
      · have hlt : b.bytes.length < r.encode.length := Nat.not_le.mp hlen
        obtain ⟨rest, hsplit⟩ : b.bytes <+: r.encode :=
          List.prefix_of_prefix_length_le hpre (List.prefix_append _ _) hlt.le
        have hfalse := (ValidBuffer.codec_of_prefix hwf hsplit hlt).1
        exact absurd (hready.symm.trans hfalse) (by decide)

/-- The first requests are answered, in order, and what is left of them is in the read buffer. -/
structure Serving (server : RtspServer) (rs : List RequestText) (s : HttpSession) : Prop where
  delivering : s.conn.Delivering
  kept : s.conn.Kept
  received : s.received <+: stream rs
  requests : ∃ d, s.answered.map Prod.fst = rs.take d ∧
    s.received = stream (rs.take d) ++ s.conn.readBuffer.bytes
  sent : s.conn.sent = s.answered.flatMap Prod.snd
  replies : ∀ p ∈ s.answered, p.1.url ∉ server.services →
    p.2 = RtspServer.blank p.1.url ∧ Call.closeConnection ∈ s.conn.calls
  known : ∀ p ∈ s.answered.dropLast, p.1.url ∈ server.services

theorem Serving.quiet {chunk : List Byte} (h : Serving server rs s) (hq : Quiet server chunk s t)
    (hpre : s.received ++ chunk <+: stream rs) : Serving server rs t := by
  obtain ⟨d, hfst, hreceived⟩ := h.requests
  have hsent : t.conn.sent = s.conn.sent :=
    hq.effects.invariant (I := fun c => c.sent = s.conn.sent)
      (fun _ _ hc he => (sent_effect he).trans hc) rfl
  obtain ⟨⟨more, hcalls, -⟩, -⟩ := Extends.effects hq.effects
  refine ⟨h.delivering.effects hq.effects, h.kept.effects hq.effects, ?_, ⟨d, ?_, ?_⟩, ?_, ?_, ?_⟩
  · rw [hq.received]
    exact hpre
  · rw [hq.answered, hfst]
  · rw [hq.received, hq.readBuffer, hreceived, List.append_assoc]
  · rw [hsent, hq.answered, h.sent]
  · rw [hq.answered]
    intro p hp hurl
    obtain ⟨hreply, hreq⟩ := h.replies p hp hurl
    refine ⟨hreply, ?_⟩
    rw [hcalls]
    exact List.mem_append_left _ hreq
  · rw [hq.answered]
    exact h.known

theorem Serving.answering {chunk : List Byte} (hrs : Plain rs) (h : Serving server rs s)
    (halive : s.conn.destroys = 0) (ha : Answering server chunk s t)
    (hpre : s.received ++ chunk <+: stream rs) : Serving server rs t := by
  obtain ⟨d, hfst, hreceived⟩ := h.requests
  obtain ⟨b, readBuffer, r, reply, c, hb, hready, hp, heffects, hrb, hsent, hdestroys, hcalls,
    hreply, hanswered⟩ := ha.step
  obtain ⟨more, hmore⟩ := hpre
  -- the bytes in the buffer begin with the next request
  have hbytes : s.received ++ chunk = stream (rs.take d) ++ b.bytes := by
    rw [hreceived, hb, List.append_assoc]
  have hrest : b.bytes ++ more = stream (rs.drop d) := by
    rw [hbytes, stream_split rs d, List.append_assoc] at hmore
    exact List.append_cancel_left hmore
  obtain ⟨readBuffer', r', hp', htake, hsplit⟩ := parsed_of_ready hrs hrest hready
  obtain ⟨rfl, rfl⟩ := Prod.mk.inj (Option.some.inj (hp.symm.trans hp'))
  have hopen : Call.closeConnection ∉ s.conn.calls := by
    intro hreq
    have hr := (h.kept.closing.requested halive).mp hreq
    exact absurd (hr.symm.trans ha.opened) (by decide)
  have hopen' : Call.closeConnection ∉ c.calls := by
    rw [hcalls]
    simp [hopen]
  have hknown : ∀ p ∈ s.answered, p.1.url ∈ server.services := by
    intro p hp
    by_contra hurl
    exact hopen (h.replies p hp hurl).2
  obtain ⟨hdelivering, hkept⟩ := hreply.kept (h.delivering.effects heffects)
    (h.kept.effects heffects) (hdestroys.trans halive) hopen'
  refine ⟨hdelivering, hkept, ?_, ⟨d + 1, ?_, ?_⟩, ?_, ?_, ?_⟩
  · rw [ha.received]
    exact ⟨more, hmore⟩
  · rw [hanswered, htake, List.map_append, hfst]
    rfl
  · rw [ha.received, hbytes, htake, stream_append, hreply.readBuffer, hrb, hsplit]
    simp
  · rw [hreply.sent, hsent, h.sent, hanswered, List.flatMap_append]
    simp
  · intro p hp hurl
    rw [hanswered] at hp
    rcases List.mem_append.mp hp with hp | hp
    · exact absurd (hknown p hp) hurl
    · obtain rfl := List.mem_singleton.mp hp
      exact hreply.closes hurl
  · rw [hanswered, List.dropLast_concat]
    exact hknown

theorem serving_step (hrs : Plain rs) (h : Serving server rs s)
    (hs : ((system server l).guarded (Sends rs)).Step s a t) : Serving server rs t := by
  obtain ⟨⟨hl, hs⟩, hsends⟩ := hs
  obtain ⟨chunk, hchunk, hcase⟩ := next_cases hl h.delivering.wired hs
  have hpre : s.received ++ chunk <+: stream rs := by
    rcases hchunk with rfl | ⟨hh, rfl⟩
    · rw [List.append_nil]
      exact h.received
    · exact hsends hh
  rcases hcase with hq | ha
  · exact h.quiet hq hpre
  · exact h.answering hrs hl.alive ha hpre

theorem serving_of_reachable (hrs : Plain rs)
    (h : Reachable ((system server l).guarded (Sends rs)) s) : Serving server rs s := by
  refine h.invariant ?_ (fun _ _ _ => serving_step hrs)
  rintro _ ⟨time, rfl⟩
  exact ⟨.accepted l time, .accepted l time, List.nil_prefix, ⟨0, rfl, rfl⟩, rfl,
    fun p hp => absurd hp List.not_mem_nil, fun p hp => absurd hp List.not_mem_nil⟩

/-! ### Assertions -/

/-- The assertions of `closeConnection` will find what they ask for. -/
structure Closable (l : LoopId) (c : TcpConnection) : Prop where
  settled : TimedSession.Settled c
  owner : c.isWillClose = true → c.data = some l

theorem owner_next (hl : s.Legal a) (ho : s.conn.isWillClose = true → s.conn.data = some l)
    (h : s.next server l a = some t) : t.conn.isWillClose = true → t.conn.data = some l := by
  unfold next at h
  cases hh : (s.conn.report a.revents).event.handle with
  | none =>
      simp only [hh, Option.some.injEq] at h
      obtain rfl := h
      exact ho
  | some callback =>
      cases callback with
      | preConnMsgCallback =>
          simp only [hh] at h
          obtain ⟨⟨conn, control⟩, hread, h⟩ := Option.bind_eq_some_iff.mp h
          have hdata := TimedSession.read_data hread
          intro _
          split_ifs at h with hmsg
          · obtain ⟨⟨b', r⟩, hparse, h⟩ := Option.bind_eq_some_iff.mp h
            obtain ⟨⟨conn', called⟩, hhandle, h⟩ := Option.bind_eq_some_iff.mp h
            obtain rfl := Option.some.inj h
            obtain ⟨-, ⟨-, hc⟩ | ⟨-, -, hc⟩⟩ := replied_of_handle hparse hl.answer hhandle
            · show conn'.data = _
              rw [hc]
              exact hdata
            · show conn'.data = _
              rw [hc]
              exact hdata
          · obtain rfl := Option.some.inj h
            exact hdata
      | sendNonblock =>
          simp only [hh] at h
          obtain ⟨conn, hc, h⟩ := Option.bind_eq_some_iff.mp h
          obtain rfl := Option.some.inj h
          intro hwill
          have hdata := TimedSession.sendNonblock_data (c := s.conn.report a.revents) hl.written hc
          refine hdata.trans (ho ?_)
          obtain ⟨n, rest, -, -, ⟨-, hconn⟩ | ⟨-, hw, -⟩ | ⟨-, -, hconn⟩⟩ :=
            sendNonblock_cases (c := s.conn.report a.revents) hl.written hc
          · rw [hconn] at hwill
            exact hwill
          · exact hw
          · rw [hconn] at hwill
            exact hwill
      | connectCallback =>
          simp only [hh] at h
          cases h

theorem closable_step (h : Closable l s.conn) (hs : (system server l).Step s a t) :
    Closable l t.conn := by
  obtain ⟨hl, hs⟩ := hs
  refine ⟨?_, owner_next hl h.owner hs⟩
  obtain ⟨chunk, -, hq | ha⟩ := next_cases hl h.settled.wired hs
  · exact h.settled.effects hq.effects
  · obtain ⟨b, readBuffer, r, reply, c, -, -, -, heffects, -, -, -, -, hreply, -⟩ := ha.step
    have hc := h.settled.effects heffects
    obtain ⟨hne, ⟨-, ht⟩ | ⟨-, -, ht⟩⟩ := hreply
    · rw [ht]
      exact hc.queue reply
    · rw [ht]
      have he : Effect server.tcpServer.connCloseCallback
          (!server.tcpServer.idleConnectionsManager) (c.queue reply) (c.queue reply).deferClose :=
        .deferClose (bytes_queue_ne_nil hne)
      exact (hc.queue reply).effect he

theorem closable_of_reachable (h : Reachable (system server l) s) : Closable l s.conn := by
  refine h.invariant (I := fun s => Closable l s.conn) ?_ (fun _ _ _ => closable_step)
  rintro _ ⟨time, rfl⟩
  exact ⟨TimedSession.settled_accepted l time, fun hw => by cases hw⟩

theorem exists_handle {c : TcpConnection} {readBuffer : ValidBuffer IO_BUFFER_SIZE}
    {r : RequestText} {answer : List Byte} (hdata : c.data = some l)
    (hd : c.destoryCallback = false) (hp : c.readBuffer.parseRequest = some (readBuffer, r))
    (ha : answer ≠ []) : ∃ x, server.handleRtspRequest l answer c = some x := by
  unfold RtspServer.handleRtspRequest
  rw [hp]
  simp only [Option.bind_eq_bind, Option.bind_some, sendStr_eq ha, sendStr_eq (blank_ne_nil r.url)]
  split_ifs with hurl
  · exact ⟨_, rfl⟩
  · have hclose :
        (({ c with readBuffer } : TcpConnection).queue (RtspServer.blank r.url)).activeClose
          server.tcpServer.source l = _ := TcpServer.activeClose_of_owner hdata hd
    rw [closeWith_of_unsent (bytes_queue_ne_nil (blank_ne_nil r.url))] at hclose
    rw [hclose]
    exact ⟨_, rfl⟩

theorem exists_next (hrs : Plain rs) (h : Reachable ((system server l).guarded (Sends rs)) s)
    (hl : s.Legal a) (hsends : Sends rs s a) (hwrite : ∀ e, a.write ≠ .error e) :
    ∃ t, s.next server l a = some t := by
  have hserving := serving_of_reachable hrs h
  have hclosable := closable_of_reachable h.of_guarded
  have hw := hserving.delivering.wired
  obtain ⟨d, -, hreceived⟩ := hserving.requests
  unfold next
  cases hh : (s.conn.report a.revents).event.handle with
  | none =>
      simp only [hh]
      exact ⟨_, rfl⟩
  | some callback =>
      cases callback with
      | preConnMsgCallback =>
          simp only [hh]
          obtain ⟨⟨conn, control⟩, hread⟩ := Option.ne_none_iff_exists'.mp
            (TimedSession.read_ne_none server.tcpServer l a.timeInProcess
              (s.conn.report a.revents) hl.deliverable)
          rw [hread]
          simp only [Option.bind_eq_bind, Option.bind_some]
          split_ifs with hmsg
          · obtain ⟨b, e, hb⟩ := ValidBuffer.readFromSocket_of_deliverable
              (b := (s.conn.report a.revents).readBuffer) hl.deliverable
            obtain ⟨b₁, n, last, hr, hcase⟩ := TcpServer.preConnMsgCallback_cases hread
            rw [e] at hr
            obtain ⟨rfl, -⟩ := Prod.mk.inj (Option.some.inj hr)
            rcases hcase with ⟨-, hc, -⟩ | ⟨-, -, hc, -⟩ | ⟨-, hready, -, hconn⟩
            · exact absurd (hmsg.symm.trans hc) (by decide)
            · exact absurd (hmsg.symm.trans hc) (by decide)
            · obtain ⟨more, hmore⟩ := hsends hh
              have hrest : b.bytes ++ more = stream (rs.drop d) := by
                rw [stream_split rs d, hreceived, List.append_assoc, List.append_assoc] at hmore
                rw [hb, List.append_assoc]
                exact List.append_cancel_left hmore
              obtain ⟨b', r, hparse, -⟩ := parsed_of_ready hrs hrest hready
              have hparse' : conn.readBuffer.parseRequest = some (b', r) := by
                rw [← hparse, hconn]
                rfl
              have hfield : conn.destoryCallback = false := by
                rw [hconn]
                exact hclosable.settled.destoryCallback
              obtain ⟨x, hx⟩ := @exists_handle server l conn b' r a.answer
                (TimedSession.read_data hread) hfield hparse' hl.answer
              rw [hparse', hx]
              exact ⟨_, rfl⟩
          · exact ⟨_, rfl⟩
      | sendNonblock =>
          simp only [hh]
          cases hr : a.write with
          | error e => exact absurd hr (hwrite e)
          | accepted n =>
              have hn : n ≤ (s.conn.report a.revents).writeBuffer.bytes.length := by
                have hpossible := hl.written
                rw [hr] at hpossible
                exact hpossible
              have hsome : (s.conn.report a.revents).sendNonblock server.tcpServer.source l
                  (.accepted n) ≠ none := by
                intro hnone
                obtain ⟨⟨hwill, -⟩, hdata⟩ :=
                  (TimedSession.sendNonblock_eq_none hn hclosable.settled.destoryCallback).mp hnone
                exact hdata (hclosable.owner hwill)
              obtain ⟨conn, hc⟩ := Option.ne_none_iff_exists'.mp hsome
              rw [hc]
              exact ⟨_, rfl⟩
      | connectCallback =>
          have hslot : s.conn.event.writeCallback = some .connectCallback := by
            apply (Event.handle_slot hw.plain hh).resolve_left
            rw [hw.readCallback]
            decide
          exact absurd hslot hclosable.settled.writeCallback

/-! ### The answers -/

/-- One read brings the whole request. -/
def readGetP : Act where
  revents := { EPOLLIN := true }
  timeInProcess := 0
  script := [.data HttpConnection.getP.encode]
  write := .accepted 0
  answer := [0]

theorem plain_getP : Plain [HttpConnection.getP] := by
  intro r hr
  obtain ⟨hwf, hsp, -⟩ := HttpConnection.served_getP r (List.mem_cons_of_mem _ hr)
  exact ⟨hwf, hsp⟩

theorem legal_readGetP : Legal { conn := TcpServer.accepted 0 0 } readGetP :=
  ⟨rfl, EpollFlags.reportable_read rfl, by decide, Nat.zero_le _, by decide⟩

theorem received_readGetP : Buffer.received 4096 readGetP.script = HttpConnection.getP.encode :=
  HttpConnection.received_readAll (by decide)

theorem sends_readGetP :
    Sends [HttpConnection.getP] { conn := TcpServer.accepted 0 0 } readGetP := by
  intro _
  rw [received_readGetP, stream_cons, stream_nil, List.append_nil]
  exact List.prefix_refl _

theorem reachable_readGetP : ∃ s, Reachable ((system HttpConnection.portServer 0).guarded
    (Sends [HttpConnection.getP])) s ∧ s.received = HttpConnection.getP.encode := by
  have hinit : Reachable ((system HttpConnection.portServer 0).guarded
      (Sends [HttpConnection.getP])) { conn := TcpServer.accepted 0 0 } := .init ⟨0, rfl⟩
  obtain ⟨t, ht⟩ := exists_next plain_getP hinit legal_readGetP sends_readGetP
    (fun _ h => WriteResult.noConfusion h)
  refine ⟨t, hinit.step ⟨⟨legal_readGetP, ht⟩, sends_readGetP⟩, ?_⟩
  rcases next_of_read legal_readGetP (Delivering.accepted 0 0).wired rfl ht with hq | ha
  · exact hq.received.trans received_readGetP
  · exact ha.received.trans received_readGetP

/-- **Answers**: the server answers the first requests of the stream, in order, and what it sends on
the connection are the answers.  All of them but the last are the services' own; a request for no
service gets the page, and then the connection is closed, after the page is written. -/
theorem answers_in_order (hrs : Plain rs)
    (h : Reachable ((system server l).guarded (Sends rs)) s) :
    (∃ d, s.answered.map Prod.fst = rs.take d) ∧
    s.conn.written ++ s.conn.writeBuffer.bytes = s.answered.flatMap Prod.snd ∧
    (∀ p ∈ s.answered.dropLast, p.1.url ∈ server.services) ∧
    ∀ p ∈ s.answered, p.1.url ∉ server.services → p.2 = RtspServer.blank p.1.url ∧
      ((s.conn.destroys = 0 ∧ s.conn.event.isReadable = false ∧ s.conn.isWillClose = true ∧
          s.conn.writeBuffer.bytes ≠ []) ∨
        (0 < s.conn.destroys ∧ s.conn.written = s.answered.flatMap Prod.snd)) := by
  have hserving := serving_of_reachable hrs h
  have hconserved := hserving.delivering.conserved
  rw [hserving.sent] at hconserved
  obtain ⟨d, hfst, -⟩ := hserving.requests
  refine ⟨⟨d, hfst⟩, hconserved, hserving.known, fun p hp hurl => ?_⟩
  obtain ⟨hreply, hreq⟩ := hserving.replies p hp hurl
  refine ⟨hreply, ?_⟩
  rcases Nat.eq_zero_or_pos s.conn.destroys with hd | hd
  · exact Or.inl ⟨hd, (hserving.kept.closing.requested hd).mp hreq, hserving.kept.wanted hd hreq,
      hserving.kept.unsent hd hreq⟩
  · rw [hserving.delivering.destroyed hd, List.append_nil] at hconserved
    exact Or.inr ⟨hd, hconserved⟩

theorem answers_in_order_getP : ∃ s : HttpSession, s.received = HttpConnection.getP.encode ∧
    (∃ d, s.answered.map Prod.fst = [HttpConnection.getP].take d) ∧
    s.conn.written ++ s.conn.writeBuffer.bytes = s.answered.flatMap Prod.snd := by
  obtain ⟨s, hs, hreceived⟩ := reachable_readGetP
  obtain ⟨hfst, hsent, -⟩ := answers_in_order plain_getP hs
  exact ⟨s, hreceived, hfst, hsent⟩

/-- **No assertion fails**, and no read or write leaves the buffer: as long as `::write` does not
fail, every event is handled in every reachable state, whatever pieces the requests come in. -/
theorem never_stuck (hrs : Plain rs) (h : Reachable ((system server l).guarded (Sends rs)) s)
    (hl : s.Legal a) (hsends : Sends rs s a) (hwrite : ∀ e, a.write ≠ .error e) :
    ∃ t, ((system server l).guarded (Sends rs)).Step s a t := by
  obtain ⟨t, ht⟩ := exists_next hrs h hl hsends hwrite
  exact ⟨t, ⟨hl, ht⟩, hsends⟩

theorem never_stuck_getP : ∃ t, ((system HttpConnection.portServer 0).guarded
    (Sends [HttpConnection.getP])).Step { conn := TcpServer.accepted 0 0 } readGetP t :=
  never_stuck plain_getP (.init ⟨0, rfl⟩) legal_readGetP sends_readGetP
    (fun _ h => WriteResult.noConfusion h)

end HttpSession

end Dagger

import Dagger.Session

/-! # Deferred closes

`closeConnection` on a connection with unsent bytes switches reads off, sets `isWillClose_` and
leaves the rest to the writable event that empties the buffer.  The request lives in
`isWillClose_` alone, and every `send(str, len)` clears it.

`Closing` holds in every run: what a request has done to the connection so far.
`RequestStands` says that the event that empties the buffer finds the request as it was made;
`close_pending_or_done` shows that closes are kept in the runs that meet it, and forgotten by
every step that does not.  `requestStands_of_silent` is the user's side: the condition is met
when nothing is sent once a close was requested. -/

namespace Dagger

open TcpConnection Transition

namespace TcpConnection

/-- Alive, no longer reading, with nothing to write and no close pending: nothing will happen to
the connection any more. -/
def Forgotten (c : TcpConnection) : Prop :=
  c.destroys = 0 ∧ c.event.isReadable = false ∧ c.writeBuffer.bytes = [] ∧ c.isWillClose = false

structure Closing (c : TcpConnection) : Prop where
  wired : c.Wired
  requested : c.destroys = 0 → (Call.closeConnection ∈ c.calls ↔ c.event.isReadable = false)
  destroyed : 0 < c.destroys → c.state = .CLOSED ∧ c.writeBuffer.bytes = []

/-- A close that was requested has bytes to wait for. -/
def Unsent (c : TcpConnection) : Prop :=
  c.destroys = 0 → Call.closeConnection ∈ c.calls → c.writeBuffer.bytes ≠ []

/-- A close that was requested is still to be found in `isWillClose_`. -/
def Wanted (c : TcpConnection) : Prop :=
  c.destroys = 0 → Call.closeConnection ∈ c.calls → c.isWillClose = true

variable {closeCallback erase connects : Bool} {c c' : TcpConnection} {str : List Byte}

/-! ### What a request does to the connection -/

theorem Closing.accepted (l : LoopId) (time : UInt32) : (TcpServer.accepted l time).Closing where
  wired := ⟨⟨rfl, rfl, rfl, rfl, rfl⟩, rfl, nofun⟩
  requested _ := ⟨nofun, nofun⟩
  destroyed h := absurd h (Nat.lt_irrefl 0)

theorem Closing.connecting (l : LoopId) : (TcpClient.connecting l).Closing where
  wired := ⟨⟨rfl, rfl, rfl, rfl, rfl⟩, rfl, nofun⟩
  requested _ := ⟨nofun, nofun⟩
  destroyed h := absurd h (Nat.lt_irrefl 0)

theorem Closing.queue (h : c.Closing) (hd : c.destroys = 0) : (c.queue str).Closing := by
  have hq : (c.queue str).event.isReadable = c.event.isReadable := Event.isReadable_wantWrite
  refine ⟨h.wired.queue str, fun _ => ?_, fun hpos => absurd hd (Nat.pos_iff_ne_zero.mp hpos)⟩
  rw [hq]
  exact h.requested hd

theorem Closing.established (h : c.Closing) (hd : c.destroys = 0) :
    (TcpClient.established c).Closing :=
  ⟨h.wired.established, h.requested, fun hpos => absurd hd (Nat.pos_iff_ne_zero.mp hpos)⟩

theorem Closing.report (h : c.Closing) (flags : EpollFlags) : (c.report flags).Closing :=
  ⟨h.wired.report flags, h.requested, h.destroyed⟩

/-- Other calls are no request. -/
theorem mem_calls_log {call : Call} (hne : call ≠ .closeConnection) :
    Call.closeConnection ∈ (c.log call).calls ↔ Call.closeConnection ∈ c.calls := by
  simp [log, hne.symm]

theorem Closing.log (h : c.Closing) {call : Call} (hne : call ≠ .closeConnection) :
    (c.log call).Closing :=
  ⟨⟨h.wired.plain, h.wired.readCallback, h.wired.writeCallback⟩,
    fun hd => (mem_calls_log hne).trans (h.requested hd), h.destroyed⟩

theorem Closing.effect (h : c.Closing) (he : Effect closeCallback erase c c') : c'.Closing := by
  have hwired := h.wired.effect he
  cases he with
  | report flags => exact h.report flags
  | read => exact ⟨hwired, h.requested, h.destroyed⟩
  | callback _ hne _ => exact h.log hne
  | @deferClose c hne =>
      have hr : (c.event.setReadable false).wantWrite.isReadable = false :=
        Event.isReadable_wantWrite
      refine ⟨hwired, fun _ => ?_, h.destroyed⟩
      exact ⟨fun _ => hr, fun _ => List.mem_append_right _ (List.mem_singleton.mpr rfl)⟩
  | close hb => exact ⟨hwired, fun hd => absurd hd (Nat.succ_ne_zero _), fun _ => ⟨rfl, hb⟩⟩
  | write _ hlt =>
      refine ⟨hwired, h.requested, fun hpos => ?_⟩
      have hb := (h.destroyed hpos).2
      rw [hb] at hlt
      cases hlt
  | flush _ hrest => exact ⟨hwired, h.requested, fun hpos => ⟨(h.destroyed hpos).1, hrest⟩⟩
  | flushClose _ hrest =>
      exact ⟨hwired, fun hd => absurd hd (Nat.succ_ne_zero _), fun _ => ⟨rfl, hrest⟩⟩

theorem Closing.effects (h : c.Closing) (he : Effects closeCallback erase c c') : c'.Closing :=
  he.invariant (fun _ _ => Closing.effect) h

/-! ### Bytes to wait for -/

theorem Unsent.of_bytes (h : c.writeBuffer.bytes ≠ []) : c.Unsent := fun _ _ => h

theorem Unsent.of_destroyed (h : c.destroys ≠ 0) : c.Unsent := fun hd => absurd hd h

theorem Unsent.log (h : c.Unsent) {call : Call} (hne : call ≠ .closeConnection) :
    (c.log call).Unsent :=
  fun hd hreq => h hd ((mem_calls_log hne).mp hreq)

/-- `closeConnection` waits for unsent bytes, or destroys the connection. -/
theorem Unsent.closeWith (h : c.closeWith closeCallback erase = some c') : c'.Unsent := by
  obtain ⟨hb, rfl⟩ | ⟨-, rfl⟩ := closeWith_cases h
  · exact .of_bytes hb
  · exact .of_destroyed (Nat.succ_ne_zero _)

theorem Unsent.reads (h : c.Unsent) (hr : Reads closeCallback erase c c') : c'.Unsent := by
  obtain ⟨readBuffer, data, time, rfl | ⟨call, hne, -, rfl⟩ | hc⟩ := hr
  · exact h
  · exact Unsent.log (c := { c with readBuffer, data, lastReceiveTime := time }) h hne
  · exact .closeWith hc

/-! ### The request -/

theorem Wanted.effect (h : c.Wanted) (he : Effect closeCallback erase c c') : c'.Wanted := by
  cases he with
  | callback _ hne _ => exact fun hd hreq => h hd ((mem_calls_log hne).mp hreq)
  | deferClose => exact fun _ _ => rfl
  | close => exact fun hd => absurd hd (Nat.succ_ne_zero _)
  | flushClose => exact fun hd => absurd hd (Nat.succ_ne_zero _)
  | _ => exact h

theorem Wanted.effects (h : c.Wanted) (he : Effects closeCallback erase c c') : c'.Wanted :=
  he.invariant (fun _ _ => Wanted.effect) h

end TcpConnection

/-! ### Runs -/

/-- A writable event that empties the buffer of a connection whose close was requested finds the
request in `isWillClose_`: no `send(str, len)` came after the last `closeConnection`. -/
def RequestStands (s : Session) : Action → Prop
  | .event revents _ _ write =>
      Call.closeConnection ∈ s.conn.calls →
        (s.conn.report revents).event.handle = some .sendNonblock →
          write = .accepted s.conn.writeBuffer.bytes.length → s.conn.isWillClose = true
  | _ => True

/-- Nothing is sent once a close was requested. -/
def SilentAfterClose (s : Session) (a : Action) : Prop :=
  ∀ str, a = .send str → Call.closeConnection ∉ s.conn.calls

variable {closeCallback erase connects : Bool} {source : TcpSource} {l : LoopId}
  {Init : Session → Prop} {s t : Session} {a : Action}

theorem closing_step (hsrc : source.Regular closeCallback erase connects) (h : s.conn.Closing)
    (hs : (Session.system source l Init).Step s a t) : t.conn.Closing := by
  obtain ⟨hl, hs⟩ := hs
  rcases Session.step_cases hsrc h.wired hl hs with
    ⟨str, rfl, hstr, rfl⟩ | ⟨-, he⟩ | ⟨revents, time, script, write, rfl, -, hc⟩ | ⟨rfl, hr, -⟩
  · exact h.queue hl.1
  · exact h.effects he
  · have hrep := h.report revents
    rcases (hsrc.connectCallback hc).2 with ⟨-, -, he⟩ | ⟨-, -, he⟩ | ⟨-, -, he⟩
    · exact hrep.effect (closeWith_effect he)
    · rw [he]
      exact hrep.log (by decide)
    · rw [he]
      exact hrep.established hl.1
  · rcases hsrc.callbackReturned hr with he | ⟨-, he⟩ | ⟨-, -, he⟩
    · rw [he]
      exact h
    · exact h.effect (closeWith_effect he)
    · rw [he]
      exact h.established hl.1

theorem closing_of_reachable (hsrc : source.Regular closeCallback erase connects)
    (hinit : ∀ s, Init s → s.conn.Closing) (h : Reachable (Session.system source l Init) s) :
    s.conn.Closing :=
  h.invariant hinit (fun _ _ _ => closing_step hsrc)

theorem unsent_step (hsrc : source.Regular closeCallback erase connects) (hw : s.conn.Wired)
    (h : s.conn.Unsent) (hs : ((Session.system source l Init).guarded RequestStands).Step s a t) :
    t.conn.Unsent := by
  obtain ⟨⟨hl, hs⟩, hguard⟩ := hs
  cases a with
  | send str =>
      rw [Session.step_send hl.2] at hs
      obtain rfl := Option.some.inj hs
      exact .of_bytes (bytes_queue_ne_nil hl.2)
  | activeClose =>
      obtain ⟨conn, hc, hs⟩ := Option.bind_eq_some_iff.mp hs
      obtain rfl := Option.some.inj hs
      exact .closeWith (hsrc.closeConnection hc)
  | ret =>
      obtain ⟨conn, hc, hs⟩ := Option.bind_eq_some_iff.mp hs
      obtain rfl := Option.some.inj hs
      rcases hsrc.callbackReturned hc with rfl | ⟨-, hc⟩ | ⟨-, -, rfl⟩
      · exact h
      · exact .closeWith hc
      · exact h
  | resolve ok =>
      obtain rfl := Option.some.inj hs
      exact h
  | reset =>
      obtain rfl := Option.some.inj hs
      exact h
  | event revents time script write =>
      have hrep : (s.conn.report revents).Unsent := h
      rcases Session.event_cases hw hl.2.2.interest hs with
        ⟨-, rfl⟩ | ⟨-, hc, -⟩ | ⟨hh, -, -, hc, -⟩ | ⟨-, -, -, hc, -⟩
      · exact hrep
      · exact hrep.reads (hsrc.preConnMsgCallback hc)
      · have hcases := sendNonblock_cases (c := s.conn.report revents) hl.2.2.written hc
        obtain ⟨n, rest, rfl, hrest, ⟨hlt, ht⟩ | ⟨-, -, hc⟩ | ⟨rfl, hwill, ht⟩⟩ := hcases
        · refine .of_bytes ?_
          rw [ht]
          show rest.bytes ≠ []
          rw [hrest]
          exact List.ne_nil_of_length_pos (by rw [List.length_drop]; omega)
        · exact .closeWith (hsrc.closeConnection hc)
        · intro _ hreq
          rw [ht] at hreq
          -- a request that stands would have closed the connection
          have hstands := hguard hreq hh rfl
          exact absurd (hstands.symm.trans hwill) (by decide)
      · rcases (hsrc.connectCallback hc).2 with ⟨-, -, hc⟩ | ⟨-, -, ht⟩ | ⟨-, -, ht⟩
        · exact .closeWith hc
        · rw [ht]
          exact hrep.log (by decide)
        · rw [ht]
          exact hrep

/-- A step at which the request does not stand forgets it. -/
theorem forgotten_step (h : s.conn.Closing) (hs : (Session.system source l Init).Step s a t)
    (hviol : ¬ RequestStands s a) : Call.closeConnection ∈ t.conn.calls ∧ t.conn.Forgotten := by
  obtain ⟨hl, hs⟩ := hs
  cases a with
  | event revents time script write =>
      unfold RequestStands at hviol
      push Not at hviol
      obtain ⟨hreq, hh, rfl, hwill⟩ := hviol
      have hd : s.conn.destroys = 0 := hl.1
      obtain ⟨rest, hrest, hc⟩ := @sendNonblock_all (s.conn.report revents) source l
        s.conn.writeBuffer.bytes.length rfl (Bool.not_eq_true _ ▸ hwill)
      rw [Session.step_write hh hc] at hs
      obtain rfl := Option.some.inj hs
      exact ⟨hreq, hd, (h.requested hd).mp hreq, hrest, Bool.not_eq_true _ ▸ hwill⟩
  | _ => exact absurd trivial hviol

/-- A close that was requested is pending, with bytes to send first, or it is done. -/
def TcpConnection.CloseKept (c : TcpConnection) : Prop :=
  Call.closeConnection ∈ c.calls →
    (c.destroys = 0 ∧ c.writeBuffer.bytes ≠ []) ∨ (0 < c.destroys ∧ c.state = .CLOSED)

theorem TcpConnection.Closing.kept {c : TcpConnection} (h : c.Closing) (hu : c.Unsent) :
    c.CloseKept ∧ ¬ c.Forgotten := by
  constructor
  · intro hreq
    rcases Nat.eq_zero_or_pos c.destroys with hd | hd
    · exact Or.inl ⟨hd, hu hd hreq⟩
    · exact Or.inr ⟨hd, (h.destroyed hd).1⟩
  · rintro ⟨hd, hr, hb, -⟩
    exact hu hd ((h.requested hd).mpr hr) hb

/-- Closes are kept in the runs to `s` in which every request stands, and a step from `s` at
which one does not stand forgets it. -/
def KeepsCloses (runs : System Session Action) (s : Session) : Prop :=
  (Reachable (runs.guarded RequestStands) s → s.conn.CloseKept ∧ ¬ s.conn.Forgotten) ∧
    (Reachable runs s → ∀ a t, runs.Step s a t → ¬ RequestStands s a →
      Call.closeConnection ∈ t.conn.calls ∧ t.conn.Forgotten)

theorem keepsCloses (hsrc : source.Regular closeCallback erase connects)
    (hinit : ∀ s, Init s → s.conn.Closing ∧ s.conn.Unsent) :
    KeepsCloses (Session.system source l Init) s := by
  have hclosing : ∀ s, Reachable (Session.system source l Init) s → s.conn.Closing := fun _ hr =>
    closing_of_reachable hsrc (fun s hs => (hinit s hs).1) hr
  constructor
  · intro h
    have hu : s.conn.Unsent :=
      h.invariant_of (fun s hr => hclosing s hr.of_guarded) (fun s hs => (hinit s hs).2)
        (fun _ _ _ hc => unsent_step hsrc hc.wired)
    exact (hclosing s h.of_guarded).kept hu
  · intro h a t hs hviol
    exact forgotten_step (hclosing s h) hs hviol

/-! ### Three runs -/

/-- One byte is sent and one arrives, and the connection is closed. -/
def TcpServer.sendAndClose : List Action :=
  [.send [1], .event { EPOLLIN := true } 0 [.data [7]] (.accepted 0), .activeClose]

/-- A connect succeeds, one byte is sent, and the connection is closed. -/
def TcpClient.sendAndClose : List Action :=
  [.resolve true, .event { EPOLLOUT := true } 0 [] (.accepted 0), .send [1], .activeClose]

/-- The socket takes the byte. -/
def flushed : Action := .event { EPOLLOUT := true } 0 [] (.accepted 1)

/-- The event that writes the byte carries out the close. -/
theorem TcpServer.path_sendAndClose : ∃ s t,
    Path ((waiting.runs 0).guarded RequestStands) { conn := accepted 0 0 } sendAndClose s ∧
    ((waiting.runs 0).guarded RequestStands).Step s flushed t ∧
    Call.closeConnection ∈ s.conn.calls ∧ s.conn.sent = [1] ∧ t.conn.destroys = 1 := by
  let c₀ := ((accepted 0 0).queue [1]).report { EPOLLIN := true }
  obtain ⟨rb, hread⟩ : ∃ readBuffer : ValidBuffer IO_BUFFER_SIZE,
      waiting.preConnMsgCallback 0 0 [.data [7]] c₀ =
        some ({ c₀ with data := some 0, readBuffer }, .loop) :=
    waiting_read 0 c₀ (by decide) (by decide)
  let c₁ := { c₀ with data := some 0, readBuffer := rb }
  have hb₁ : c₁.writeBuffer.bytes = [1] := ValidBuffer.bytes_append (.make _) [1]
  have hclose : c₁.activeClose waiting.source 0 = some c₁.deferClose :=
    (activeClose_of_owner rfl rfl).trans (closeWith_of_unsent (by rw [hb₁]; decide))
  let c₂ := c₁.deferClose.report { EPOLLOUT := true }
  have hb₂ : c₂.writeBuffer.bytes = [1] := hb₁
  obtain ⟨rest, hrest, heq⟩ := @sendNonblock_last c₂ waiting.source 0 1 (by rw [hb₂]; rfl) rfl
  have hflush : c₂.sendNonblock waiting.source 0 (.accepted 1) =
      some ((c₂.wrote rest 1).unwatch.closeNow false true) :=
    heq.trans ((activeClose_of_owner rfl rfl).trans (closeWith_of_empty hrest))
  refine ⟨_, _, .cons ⟨⟨?_, Session.step_send (by decide)⟩, trivial⟩
    (.cons ⟨⟨?_, Session.step_read rfl hread⟩, fun hreq => absurd hreq List.not_mem_nil⟩
      (.cons ⟨⟨?_, Session.step_activeClose hclose⟩, trivial⟩ (.nil _))),
    ⟨⟨?_, Session.step_write rfl hflush⟩, fun _ _ _ => rfl⟩, List.mem_singleton.mpr rfl, rfl, rfl⟩
  · exact ⟨rfl, by decide⟩
  · exact Session.legal_read rfl rfl rfl rfl (by decide)
  · exact rfl
  · refine Session.legal_write rfl rfl rfl rfl trivial ?_
    show 1 ≤ c₂.writeBuffer.bytes.length
    rw [hb₂]
    rfl

theorem TcpClient.path_sendAndClose : ∃ s t,
    Path ((waiting.runs 0).guarded RequestStands) { conn := connecting 0, attempt := .pending }
      sendAndClose s ∧
    ((waiting.runs 0).guarded RequestStands).Step s flushed t ∧
    Call.closeConnection ∈ s.conn.calls ∧ s.conn.sent = [1] ∧ t.conn.destroys = 1 := by
  let c₁ := (established ((connecting 0).report { EPOLLOUT := true })).queue [1]
  have hb₁ : c₁.writeBuffer.bytes = [1] := ValidBuffer.bytes_append (.make _) [1]
  have hclose : c₁.activeClose waiting.source 0 = some c₁.deferClose :=
    (activeClose_eq rfl).trans (closeWith_of_unsent (by rw [hb₁]; decide))
  let c₂ := c₁.deferClose.report { EPOLLOUT := true }
  have hb₂ : c₂.writeBuffer.bytes = [1] := hb₁
  obtain ⟨rest, hrest, heq⟩ := @sendNonblock_last c₂ waiting.source 0 1 (by rw [hb₂]; rfl) rfl
  have hflush : c₂.sendNonblock waiting.source 0 (.accepted 1) =
      some ((c₂.wrote rest 1).unwatch.closeNow false true) :=
    heq.trans ((activeClose_eq rfl).trans (closeWith_of_empty hrest))
  refine ⟨_, _, .cons ⟨⟨rfl, rfl⟩, trivial⟩
    (.cons ⟨⟨?_, Session.step_connect rfl rfl⟩, fun hreq => absurd hreq List.not_mem_nil⟩
      (.cons ⟨⟨?_, Session.step_send (by decide)⟩, trivial⟩
        (.cons ⟨⟨?_, Session.step_activeClose hclose⟩, trivial⟩ (.nil _)))),
    ⟨⟨?_, Session.step_write rfl hflush⟩, fun _ _ _ => rfl⟩, List.mem_singleton.mpr rfl, rfl, rfl⟩
  · exact Session.legal_write rfl rfl rfl rfl trivial (Nat.zero_le _)
  · exact ⟨rfl, by decide⟩
  · exact rfl
  · refine Session.legal_write rfl rfl rfl rfl trivial ?_
    show 1 ≤ c₂.writeBuffer.bytes.length
    rw [hb₂]
    rfl

/-- One byte arrives, one is sent, the close is requested, and another byte is sent. -/
def TcpServer.sendAfterClose : List Action :=
  [.event { EPOLLIN := true } 0 [.data [7]] (.accepted 0), .send [1], .activeClose, .send [2]]

/-- One byte arrives, one is sent, the close is requested while that byte is unsent, another
byte is sent, and the socket takes both. -/
def forgottenClose : List Action :=
  [.event { EPOLLIN := true } 0 [.data [7]] (.accepted 0), .send [1], .activeClose, .send [2],
    .event { EPOLLOUT := true } 0 [] (.accepted 2)]

/-- The event that writes both bytes does not find the request. -/
theorem TcpServer.path_sendAfterClose : ∃ s t,
    Path (waiting.runs 0) { conn := accepted 0 0 } sendAfterClose s ∧
    (waiting.runs 0).Step s (.event { EPOLLOUT := true } 0 [] (.accepted 2)) t ∧
    ¬ RequestStands s (.event { EPOLLOUT := true } 0 [] (.accepted 2)) ∧
    Call.closeConnection ∈ t.conn.calls ∧ t.conn.Forgotten := by
  -- the read makes loop 0 the connection's `data`
  let c₀ := (accepted 0 0).report { EPOLLIN := true }
  obtain ⟨rb, hread⟩ : ∃ readBuffer : ValidBuffer IO_BUFFER_SIZE,
      waiting.preConnMsgCallback 0 0 [.data [7]] c₀ =
        some ({ c₀ with data := some 0, readBuffer }, .loop) :=
    waiting_read 0 c₀ (by decide) (by decide)
  -- the close is requested with a byte to send, and the second byte clears the request
  let c₂ := { c₀ with data := some 0, readBuffer := rb }.queue [1]
  have hb₂ : c₂.writeBuffer.bytes = [1] := ValidBuffer.bytes_append (.make _) [1]
  have hclose : c₂.activeClose waiting.source 0 = some c₂.deferClose :=
    (activeClose_of_owner rfl rfl).trans (closeWith_of_unsent (by rw [hb₂]; decide))
  let c₄ := (c₂.deferClose.queue [2]).report { EPOLLOUT := true }
  have hb₄ : c₄.writeBuffer.bytes = [1, 2] :=
    (ValidBuffer.bytes_append c₂.writeBuffer [2]).trans (by rw [hb₂]; rfl)
  have hlen : c₄.writeBuffer.bytes.length = 2 := by
    rw [hb₄]
    rfl
  obtain ⟨rest, hrest, hflush⟩ : ∃ rest : ValidBuffer IO_BUFFER_SIZE, rest.bytes = [] ∧
      c₄.sendNonblock waiting.source 0 (.accepted 2) = some (c₄.wrote rest 2).unwatch :=
    sendNonblock_all hlen rfl
  refine ⟨_, _, .cons ⟨?_, Session.step_read rfl hread⟩ (.cons ⟨?_, Session.step_send (by decide)⟩
    (.cons ⟨?_, Session.step_activeClose hclose⟩ (.cons ⟨?_, Session.step_send (by decide)⟩
      (.nil _)))), ⟨?_, Session.step_write rfl hflush⟩, fun hstands => ?_, ?_, ?_⟩
  · exact Session.legal_read rfl rfl rfl rfl (by decide)
  · exact ⟨rfl, by decide⟩
  · exact rfl
  · exact ⟨rfl, by decide⟩
  · exact Session.legal_write rfl rfl rfl rfl trivial hlen.ge
  · have hwill := hstands (List.mem_singleton.mpr rfl) rfl (congrArg WriteResult.accepted hlen.symm)
    cases hwill
  · exact List.mem_singleton.mpr rfl
  · exact ⟨rfl, rfl, hrest, rfl⟩

/-! ### The result -/

/-- **Deferred closes are kept** on server and client connections, in every run in which each
flush finds the request as it was made: the connection is destroyed by the time its buffer is
empty, and never forgotten.  A flush that does not find it forgets the close. -/
theorem close_pending_or_done (l : LoopId) (s : Session) :
    (∀ server : TcpServer, KeepsCloses (server.runs l) s) ∧
      ∀ client : TcpClient, KeepsCloses (client.runs l) s := by
  constructor
  · intro server
    refine keepsCloses server.source_regular ?_
    rintro _ ⟨time, rfl⟩
    exact ⟨.accepted l time, nofun⟩
  · intro client
    refine keepsCloses client.source_regular ?_
    rintro _ ⟨_, -, rfl⟩
    exact ⟨.connecting l, nofun⟩

/-- A byte is sent on a server and on a client connection, the close waits for it, and the event
that writes it carries the close out; a byte sent meanwhile has the close forgotten. -/
theorem close_pending_or_done_flushed :
    (∃ s t, Path (TcpServer.waiting.runs 0) { conn := TcpServer.accepted 0 0 }
        TcpServer.sendAndClose s ∧ Call.closeConnection ∈ s.conn.calls ∧ s.conn.CloseKept ∧
      (TcpServer.waiting.runs 0).Step s flushed t ∧ 0 < t.conn.destroys ∧ t.conn.CloseKept ∧
      ¬ t.conn.Forgotten) ∧
    (∃ s t, Path (TcpClient.waiting.runs 0) { conn := TcpClient.connecting 0, attempt := .pending }
        TcpClient.sendAndClose s ∧ Call.closeConnection ∈ s.conn.calls ∧ s.conn.CloseKept ∧
      (TcpClient.waiting.runs 0).Step s flushed t ∧ 0 < t.conn.destroys ∧ t.conn.CloseKept ∧
      ¬ t.conn.Forgotten) ∧
    ∃ s, Path (TcpServer.waiting.runs 0) { conn := TcpServer.accepted 0 0 } forgottenClose s ∧
      Call.closeConnection ∈ s.conn.calls ∧ s.conn.Forgotten := by
  refine ⟨?_, ?_, ?_⟩
  · obtain ⟨s, t, hpath, hs, hreq, -, hd⟩ := TcpServer.path_sendAndClose
    have hr := hpath.reachable (.init ⟨0, rfl⟩)
    have hkept := ((close_pending_or_done 0 s).1 _).1 hr
    have hdone := ((close_pending_or_done 0 t).1 _).1 (hr.step hs)
    exact ⟨s, t, hpath.of_guarded, hreq, hkept.1, hs.1, hd ▸ Nat.one_pos, hdone⟩
  · obtain ⟨s, t, hpath, hs, hreq, -, hd⟩ := TcpClient.path_sendAndClose
    have hr := hpath.reachable (.init ⟨.pending, by decide, rfl⟩)
    have hkept := ((close_pending_or_done 0 s).2 _).1 hr
    have hdone := ((close_pending_or_done 0 t).2 _).1 (hr.step hs)
    exact ⟨s, t, hpath.of_guarded, hreq, hkept.1, hs.1, hd ▸ Nat.one_pos, hdone⟩
  · obtain ⟨s, t, hpath, hs, hviol, -, -⟩ := TcpServer.path_sendAfterClose
    have hforgotten := ((close_pending_or_done 0 s).1 _).2 (hpath.reachable (.init ⟨0, rfl⟩))
      _ t hs hviol
    exact ⟨t, hpath.append (.cons hs (.nil t)), hforgotten⟩

/-! ### Nothing sent after the request -/

theorem wanted_step (hsrc : source.Regular closeCallback erase connects) (hw : s.conn.Wired)
    (h : s.conn.Wanted)
    (hs : ((Session.system source l Init).guarded SilentAfterClose).Step s a t) :
    t.conn.Wanted := by
  obtain ⟨⟨hl, hs⟩, hsilent⟩ := hs
  rcases Session.step_cases hsrc hw hl hs with
    ⟨str, rfl, hstr, rfl⟩ | ⟨-, he⟩ | ⟨revents, time, script, write, rfl, -, hc⟩ | ⟨rfl, hr, -⟩
  · exact fun _ hreq => absurd hreq (hsilent str rfl)
  · exact h.effects he
  · have hrep : (s.conn.report revents).Wanted := h
    rcases (hsrc.connectCallback hc).2 with ⟨-, -, he⟩ | ⟨-, -, he⟩ | ⟨-, -, he⟩
    · exact hrep.effect (closeWith_effect he)
    · rw [he]
      exact fun hd hreq => hrep hd ((mem_calls_log (by decide)).mp hreq)
    · rw [he]
      exact hrep
  · rcases hsrc.callbackReturned hr with he | ⟨-, he⟩ | ⟨-, -, he⟩
    · rw [he]
      exact h
    · exact h.effect (closeWith_effect he)
    · rw [he]
      exact h

theorem guarded_of_silent (hsrc : source.Regular closeCallback erase connects)
    (hinit : ∀ s, Init s → s.conn.Closing ∧ s.conn.Wanted)
    (h : Reachable ((Session.system source l Init).guarded SilentAfterClose) s) :
    Reachable ((Session.system source l Init).guarded RequestStands) s := by
  have hclosing : ∀ s, Reachable ((Session.system source l Init).guarded SilentAfterClose) s →
      s.conn.Closing := fun _ hr =>
    closing_of_reachable hsrc (fun s hs => (hinit s hs).1) hr.of_guarded
  refine h.guarded_of fun s a t hr hs => ?_
  have hwanted : s.conn.Wanted :=
    hr.invariant_of hclosing (fun s hs => (hinit s hs).2)
      (fun _ _ _ hc => wanted_step hsrc hc.wired)
  cases a with
  | event revents time script write => exact fun hreq _ _ => hwanted hs.1.1.1 hreq
  | _ => trivial

/-- The request stands in the runs in which nothing is sent after it. -/
theorem requestStands_of_silent (l : LoopId) (s : Session) :
    (∀ server : TcpServer, Reachable ((server.runs l).guarded SilentAfterClose) s →
      Reachable ((server.runs l).guarded RequestStands) s) ∧
    ∀ client : TcpClient, Reachable ((client.runs l).guarded SilentAfterClose) s →
      Reachable ((client.runs l).guarded RequestStands) s := by
  constructor
  · intro server h
    refine guarded_of_silent server.source_regular ?_ h
    rintro _ ⟨time, rfl⟩
    exact ⟨.accepted l time, nofun⟩
  · intro client h
    refine guarded_of_silent client.source_regular ?_ h
    rintro _ ⟨_, -, rfl⟩
    exact ⟨.connecting l, nofun⟩

/-! ### A forgotten close -/

/-- The close requested in this run is never carried out. -/
theorem close_forgotten : ∃ s, Path (TcpServer.waiting.runs 0) { conn := TcpServer.accepted 0 0 }
    forgottenClose s ∧ Call.closeConnection ∈ s.conn.calls ∧ s.conn.Forgotten := by
  obtain ⟨s, t, hpath, hs, -, hreq, hforgotten⟩ := TcpServer.path_sendAfterClose
  exact ⟨t, hpath.append (.cons hs (.nil t)), hreq, hforgotten⟩

end Dagger

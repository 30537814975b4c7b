import Dagger.Session

/-! # Connecting

A client connection starts `BLANK`, with the connect callback in the slot that `sendNonblock`
uses later and writable events switched on; the connect callback switches them off when it
ends.  `Opened` says who owns the slot.

What was queued before that moment is not watched afterwards: `send` found writable events
switched on and installed nothing.  `queued_watched` proves that this is the only way to
strand data. -/

namespace Dagger

open TcpConnection Transition

namespace TcpConnection

/-- The connection waits for its connect to end. -/
def Waiting (c : TcpConnection) : Prop :=
  c.state = .BLANK ∧ c.event.isWritable = true ∧ c.event.writeCallback = some .connectCallback

/-- The connection is established, and writable events belong to `sendNonblock`. -/
def Sending (c : TcpConnection) : Prop :=
  c.state = .ESTABLISHED ∧
    (c.event.isWritable = true → c.event.writeCallback = some .sendNonblock)

structure Opened (c : TcpConnection) : Prop where
  wired : c.Wired
  phase : c.destroys = 0 → c.Waiting ∨ c.Sending
  destroyed : 0 < c.destroys → c.state = .CLOSED

/-- In an established connection, bytes to send have writable events switched on. -/
def Watched (c : TcpConnection) : Prop :=
  c.state = .ESTABLISHED → c.writeBuffer.bytes ≠ [] → c.event.isWritable = true

variable {closeCallback erase : Bool} {c c' : TcpConnection} {str : List Byte}

theorem Opened.connecting (l : LoopId) : (TcpClient.connecting l).Opened where
  wired := ⟨⟨rfl, rfl, rfl, rfl, rfl⟩, rfl, nofun⟩
  phase _ := Or.inl ⟨rfl, rfl, rfl⟩
  destroyed h := absurd h (Nat.lt_irrefl 0)

theorem Opened.established (h : c.Opened) (hd : c.destroys = 0) :
    (TcpClient.established c).Opened where
  wired := h.wired.established
  phase _ := Or.inr ⟨rfl, nofun⟩
  destroyed hpos := absurd hd (Nat.pos_iff_ne_zero.mp hpos)

theorem Opened.report (h : c.Opened) (flags : EpollFlags) : (c.report flags).Opened :=
  ⟨h.wired.report flags, h.phase, h.destroyed⟩

theorem Opened.log (h : c.Opened) (call : Call) : (c.log call).Opened :=
  ⟨⟨h.wired.plain, h.wired.readCallback, h.wired.writeCallback⟩, h.phase, h.destroyed⟩

/-- `wantWrite` leaves the slot to the connect callback, or gives it to `sendNonblock`. -/
theorem phase_wantWrite {e : Event Callback} (hw : e.isWritable = c.event.isWritable)
    (hcb : e.writeCallback = c.event.writeCallback) (h : c.Waiting ∨ c.Sending) :
    Waiting { c with event := e.wantWrite } ∨ Sending { c with event := e.wantWrite } := by
  rcases h with ⟨hs, hwr, hc⟩ | ⟨hs, hc⟩
  · have he : e.wantWrite = e := Event.wantWrite_of_isWritable (hw.trans hwr)
    exact Or.inl ⟨hs, Event.isWritable_wantWrite, by rw [he, hcb, hc]⟩
  · refine Or.inr ⟨hs, fun _ => ?_⟩
    show e.wantWrite.writeCallback = _
    rw [Event.writeCallback_wantWrite]
    split_ifs with hwr
    · rw [hcb]
      exact hc (hw ▸ hwr)
    · rfl

theorem Opened.queue (h : c.Opened) : (c.queue str).Opened where
  wired := h.wired.queue str
  phase hd := phase_wantWrite rfl rfl (h.phase hd)
  destroyed := h.destroyed

theorem Opened.effect (h : c.Opened) (he : Effect closeCallback erase c c') : c'.Opened := by
  have hwired := h.wired.effect he
  cases he with
  | report flags => exact h.report flags
  | read => exact ⟨hwired, h.phase, h.destroyed⟩
  | callback => exact h.log _
  | deferClose => exact ⟨hwired, fun hd => phase_wantWrite rfl rfl (h.phase hd), h.destroyed⟩
  | close => exact ⟨hwired, fun hd => absurd hd (Nat.succ_ne_zero _), fun _ => rfl⟩
  | write => exact ⟨hwired, h.phase, h.destroyed⟩
  | flush hcb =>
      refine ⟨hwired, fun hd => ?_, h.destroyed⟩
      rcases h.phase hd with ⟨-, -, hc⟩ | ⟨hs, -⟩
      · rw [hcb] at hc
        cases hc
      · exact Or.inr ⟨hs, nofun⟩
  | flushClose => exact ⟨hwired, fun hd => absurd hd (Nat.succ_ne_zero _), fun _ => rfl⟩

theorem Opened.effects (h : c.Opened) (he : Effects closeCallback erase c c') : c'.Opened :=
  he.invariant (fun _ _ => Opened.effect) h

theorem Watched.effect (h : c.Watched) (he : Effect closeCallback erase c c') : c'.Watched := by
  cases he with
  | deferClose => exact fun _ _ => Event.isWritable_wantWrite
  | close => exact nofun
  | write _ hlt _ => exact fun hs _ => h hs (List.ne_nil_of_length_pos (by omega))
  | flush _ hrest _ => exact fun _ hne => absurd hrest hne
  | flushClose => exact nofun
  | _ => exact h

theorem Watched.effects (h : c.Watched) (he : Effects closeCallback erase c c') : c'.Watched :=
  he.invariant (fun _ _ => Watched.effect) h

end TcpConnection

namespace TcpClient

variable {client : TcpClient} {l : LoopId} {c : TcpConnection} {s t : Session} {a : Action}

theorem connectCallback_of_unset (h : client.connEstaCallback = false) :
    client.source.connectCallback l false c = some (established c, .loop) := by
  show client.connectCallback false c = _
  rw [connectCallback, if_neg Bool.false_ne_true, h, if_neg Bool.false_ne_true]

theorem connectCallback_of_set (h : client.connEstaCallback = true) :
    client.source.connectCallback l false c =
      some (c.log .connEstaCallback, .connEstaCallback) := by
  show client.connectCallback false c = _
  rw [connectCallback, if_neg Bool.false_ne_true, if_pos h]

/-! ### The owner of the write slot -/

theorem opened_step (h : s.conn.Opened) (hs : (client.runs l).Step s a t) : t.conn.Opened := by
  obtain ⟨hl, hs⟩ := hs
  rcases Session.step_cases client.source_regular h.wired hl hs with
    ⟨str, rfl, hstr, rfl⟩ | ⟨-, he⟩ | ⟨revents, time, script, write, rfl, -, hc⟩ | ⟨rfl, hr, -⟩
  · exact h.queue
  · exact h.effects he
  · have hrep := h.report revents
    rcases connectCallback_cases hc with ⟨-, -, he⟩ | ⟨-, -, -, he⟩ | ⟨-, -, -, he⟩
    · exact hrep.effect (closeWith_effect he)
    · rw [he]
      exact hrep.log _
    · rw [he]
      exact hrep.established hl.1
  · rcases callbackReturned_cases hr with ⟨-, he⟩ | ⟨-, he⟩ | ⟨-, he⟩
    · rw [he]
      exact h
    · exact h.effect (closeWith_effect he)
    · rw [he]
      exact h.established hl.1

theorem opened_of_reachable (h : Reachable (client.runs l) s) : s.conn.Opened := by
  refine h.invariant ?_ (fun _ _ _ => opened_step)
  rintro _ ⟨_, -, rfl⟩
  exact .connecting l

/-! ### Stranded data -/

/-- The connect callback comes to its end in this step: its user callback returns, or there is
none to call. -/
def Completes (client : TcpClient) (s : Session) : Action → Prop
  | .ret => s.control = .connEstaCallback
  | .event revents _ _ _ => (s.conn.report revents).event.handle = some .connectCallback ∧
      s.soError = false ∧ client.connEstaCallback = false
  | _ => False

/-- Nothing waits to be sent when the connect callback ends. -/
def NothingQueued (client : TcpClient) (s : Session) (a : Action) : Prop :=
  client.Completes s a → s.conn.writeBuffer.bytes = []

theorem watched_step (ho : s.conn.Opened) (h : s.conn.Watched)
    (hs : ((client.runs l).guarded client.NothingQueued).Step s a t) : t.conn.Watched := by
  obtain ⟨⟨hl, hs⟩, hguard⟩ := hs
  rcases Session.step_cases client.source_regular ho.wired hl hs with
    ⟨str, rfl, hstr, rfl⟩ | ⟨-, he⟩ | ⟨revents, time, script, write, rfl, hh, hc⟩ | ⟨rfl, hr, -⟩
  · exact fun _ _ => Event.isWritable_wantWrite
  · exact h.effects he
  · rcases connectCallback_cases hc with ⟨-, -, he⟩ | ⟨-, -, -, he⟩ | ⟨herr, hesta, -, he⟩
    · exact Watched.effect (c := s.conn.report revents) h (closeWith_effect he)
    · rw [he]
      exact h
    · rw [he]
      intro _ hne
      exact absurd (hguard ⟨hh, herr, hesta⟩) hne
  · rcases callbackReturned_cases hr with ⟨-, he⟩ | ⟨-, he⟩ | ⟨hctl, he⟩
    · rw [he]
      exact h
    · exact h.effect (closeWith_effect he)
    · rw [he]
      intro _ hne
      exact absurd (hguard hctl) hne

/-- **Queued data is watched** at every point between two events, in every run in which nothing
waits to be sent when the connect callback ends; and a step that breaks the condition strands
what is queued. -/
theorem queued_watched (client : TcpClient) (l : LoopId) :
    (∀ s, Reachable ((client.runs l).guarded client.NothingQueued) s → s.control = .loop →
      s.conn.state = .ESTABLISHED → s.conn.writeBuffer.bytes ≠ [] →
        s.conn.event.isWritable = true ∧ s.conn.event.writeCallback = some .sendNonblock) ∧
    ∀ s a t, (client.runs l).Step s a t → ¬ client.NothingQueued s a →
      t.control = .loop ∧ t.conn.destroys = 0 ∧ t.conn.state = .ESTABLISHED ∧
        t.conn.writeBuffer.bytes ≠ [] ∧ t.conn.event.isWritable = false := by
  constructor
  · intro s h _ hs hne
    have ho : ∀ s, Reachable ((client.runs l).guarded client.NothingQueued) s → s.conn.Opened :=
      fun _ h => opened_of_reachable h.of_guarded
    have hw : s.conn.Watched := by
      refine h.invariant_of ho ?_ (fun _ _ _ => watched_step)
      rintro _ ⟨_, -, rfl⟩
      exact nofun
    have hwr := hw hs hne
    refine ⟨hwr, ?_⟩
    have hd : s.conn.destroys = 0 := by
      by_contra hd
      have hc := (ho s h).destroyed (Nat.pos_of_ne_zero hd)
      rw [hs] at hc
      cases hc
    rcases (ho s h).phase hd with ⟨hb, -, -⟩ | ⟨-, hcb⟩
    · rw [hs] at hb
      cases hb
    · exact hcb hwr
  · rintro s a t ⟨hl, hs⟩ hviol
    unfold NothingQueued at hviol
    push Not at hviol
    obtain ⟨hcompl, hne⟩ := hviol
    cases a with
    | ret =>
        obtain ⟨conn, hc, hs⟩ := Option.bind_eq_some_iff.mp hs
        obtain rfl := Option.some.inj hs
        have hctl : s.control = .connEstaCallback := hcompl
        rw [hctl] at hc
        obtain rfl := Option.some.inj hc
        exact ⟨rfl, hl.1, rfl, hne, rfl⟩
    | event revents time script write =>
        obtain ⟨hh, herr, hesta⟩ := hcompl
        have hc : client.source.connectCallback l s.soError (s.conn.report revents) =
            some (established (s.conn.report revents), .loop) := by
          rw [herr]
          exact connectCallback_of_unset hesta
        have hst : s.step client.source l (.event revents time script write) = some t := hs
        rw [Session.step_connect hh hc] at hst
        obtain rfl := Option.some.inj hst
        exact ⟨rfl, hl.1, rfl, hne, rfl⟩
    | send str => cases hcompl
    | activeClose => cases hcompl
    | resolve ok => cases hcompl
    | reset => cases hcompl

/-- A client without callbacks that waits for more data after every read. -/
def quiet : TcpClient := ⟨fun b => (false, b), false, false, false⟩

/-- The same with an established callback. -/
def greeting : TcpClient := ⟨fun b => (false, b), true, false, false⟩

/-- With nothing queued before the connect ends, a later `send` is watched; with a byte queued
before, the end of the connect callback strands it. -/
theorem queued_watched_quiet :
    (((established ((connecting 0).report { EPOLLOUT := true })).queue [1]).event.isWritable =
        true ∧
      ((established ((connecting 0).report { EPOLLOUT := true })).queue [1]).event.writeCallback =
        some .sendNonblock) ∧
    (established (((connecting 0).queue [1]).report { EPOLLOUT := true })).event.isWritable =
      false := by
  have hw := queued_watched quiet 0
  have h1 : Reachable ((quiet.runs 0).guarded quiet.NothingQueued)
      { conn := connecting 0, attempt := .succeeded } :=
    .step (a := .resolve true) (.init ⟨.pending, by decide, rfl⟩) ⟨⟨rfl, rfl⟩, nofun⟩
  have h2 : Reachable ((quiet.runs 0).guarded quiet.NothingQueued)
      { conn := established ((connecting 0).report { EPOLLOUT := true })
        attempt := .succeeded } := by
    refine h1.step (a := .event { EPOLLOUT := true } 0 [] (.accepted 0)) ⟨⟨⟨rfl, rfl, ?_⟩, ?_⟩, ?_⟩
    · exact .of_succeeded (by decide) rfl trivial (Nat.zero_le _)
    · exact Session.step_connect rfl (connectCallback_of_unset rfl)
    · exact fun _ => ValidBuffer.bytes_make _
  have h3 : Reachable ((quiet.runs 0).guarded quiet.NothingQueued)
      { conn := (established ((connecting 0).report { EPOLLOUT := true })).queue [1],
        attempt := .succeeded } :=
    h2.step (a := .send [1]) ⟨⟨⟨rfl, by decide⟩, Session.step_send (by decide)⟩, nofun⟩
  have hb : ((connecting 0).queue [1]).writeBuffer.bytes = [1] :=
    ValidBuffer.bytes_append (.make _) [1]
  have hstep : (quiet.runs 0).Step { conn := (connecting 0).queue [1] }
      (.event { EPOLLOUT := true } 0 [] (.accepted 0))
      { conn := established (((connecting 0).queue [1]).report { EPOLLOUT := true }) } :=
    ⟨Session.legal_write rfl rfl rfl rfl trivial (Nat.zero_le _),
      Session.step_connect rfl (connectCallback_of_unset rfl)⟩
  refine ⟨hw.1 _ h3 rfl rfl ?_, (hw.2 _ _ _ hstep ?_).2.2.2.2⟩
  · show (ValidBuffer.append _ [1]).bytes ≠ []
    rw [ValidBuffer.bytes_append]
    exact List.append_ne_nil_of_right_ne_nil _ (by decide)
  · intro hq
    have he := hq ⟨rfl, rfl, rfl⟩
    rw [hb] at he
    cases he

/-- The connect succeeds, and the established callback sends a byte. -/
def sendOnConnect : List Action :=
  [.resolve true, .event { EPOLLOUT := true } 0 [] (.accepted 0), .send [1], .ret]

/-- The byte sent by the established callback stays in the buffer, and nothing watches it. -/
theorem queued_stranded : ∃ s, Path (greeting.runs 0)
    { conn := connecting 0, attempt := .pending } sendOnConnect s ∧ s.control = .loop ∧
      s.conn.destroys = 0 ∧ s.conn.state = .ESTABLISHED ∧ s.conn.writeBuffer.bytes = [1] ∧
        s.conn.event.isWritable = false := by
  refine ⟨_, .cons ⟨rfl, rfl⟩ (.cons ⟨?_, Session.step_connect rfl
    (connectCallback_of_set rfl)⟩ (.cons ⟨?_, Session.step_send (by decide)⟩
      (.cons ⟨?_, rfl⟩ (.nil _)))), ?_⟩
  · exact Session.legal_write rfl rfl rfl rfl trivial (Nat.zero_le _)
  · exact ⟨rfl, by decide⟩
  · exact ⟨rfl, by decide⟩
  · exact ⟨rfl, rfl, rfl, ValidBuffer.bytes_append (.make _) [1], rfl⟩

end TcpClient

end Dagger

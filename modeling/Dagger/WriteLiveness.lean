import Dagger.FairRuns
import Dagger.Link
import Dagger.ServerDelivery
import Dagger.ServerStep

/-! # What is sent is written

`delivery` says where the bytes of a server connection are; here they arrive.  A run is fair if a
connection that asks for writable events is not left waiting for ever: some report lets its write
callback run, and the socket takes a byte.  Then what was sent is written (`eventually_written`),
and a close that waits for unsent bytes is carried out if nothing is sent after it
(`eventually_closed`).

`Event::handle` runs one callback for each report, and the read callback comes first.  So reports
of `EPOLLOUT` are not enough: a peer that keeps sending keeps the write callback from running
(`nothing_written`, `writes_starve`).  A payload that `connCloseCallback_` sends is never written
(`last_word_lost`); it makes no calls here. -/

namespace Dagger

open TcpConnection Transition

namespace TcpServer

variable {server : TcpServer} {l : LoopId} {s t : Session} {a : Action}

/-! ### Steps -/

/-- The write callback runs, and the socket takes some bytes. -/
def Writes (s : Session) : Action → Prop
  | .event revents _ _ write =>
      (s.conn.report revents).event.handle = some .sendNonblock ∧ write ≠ .accepted 0
  | _ => False

theorem written_of_writes (hd : s.conn.Delivering) (hs : (server.runs l).Step s a t)
    (hw : Writes s a) (hne : s.conn.writeBuffer.bytes ≠ []) :
    s.conn.written.length < t.conn.written.length := by
  obtain ⟨hl, hs⟩ := hs
  cases a with
  | event revents time script write =>
      obtain ⟨hh, hn⟩ := hw
      have hcases := Session.event_cases hd.wired hl.2.2.interest hs
      rw [hh] at hcases
      obtain ⟨hx, -⟩ | ⟨hx, -⟩ | ⟨-, -, -, hc, -⟩ | ⟨hx, -⟩ := hcases
      · cases hx
      · cases hx
      · obtain ⟨n, rest, rfl, -, hcase⟩ :=
          sendNonblock_cases (c := s.conn.report revents) hl.2.2.written hc
        have hpos : 0 < (s.conn.writeBuffer.bytes.take n).length := by
          have hlen := List.length_pos_iff.mpr hne
          have hn' : n ≠ 0 := fun h0 => hn (by rw [h0])
          rw [List.length_take]
          omega
        have hwrote : s.conn.written.length <
            ((s.conn.report revents).wrote rest n).written.length := by
          show _ < (s.conn.written ++ s.conn.writeBuffer.bytes.take n).length
          rw [List.length_append]
          omega
        rcases hcase with ⟨-, ht⟩ | ⟨-, -, hclose⟩ | ⟨-, -, ht⟩
        · rw [ht]
          exact hwrote
        · have hgrow := written_effect (closeWith_effect (closeConnection_eq hclose))
          exact hwrote.trans_le hgrow.length_le
        · rw [ht]
          exact hwrote
      · cases hx
  | _ => exact hw.elim

/-- Bytes are added at the end of what was sent, and of what was written. -/
theorem grows_step (hc : s.conn.Conserving) (hs : (server.runs l).Step s a t) :
    s.conn.sent <+: t.conn.sent ∧ s.conn.written <+: t.conn.written := by
  refine ⟨?_, (Session.conserving_step server.source_regular hc hs).2⟩
  obtain ⟨hl, hs⟩ := hs
  by_cases hsend : ∃ str, a = .send str
  · obtain ⟨str, rfl⟩ := hsend
    rw [Session.step_send hl.2] at hs
    obtain rfl := Option.some.inj hs
    exact List.prefix_append ..
  · have hne : ∀ str, a ≠ .send str := fun str ha => hsend ⟨str, ha⟩
    rw [Session.sent_step server.source_regular hc.closing.wired hl hs hne]

theorem conserving_of_reachable (h : Reachable (server.runs l) s) : s.conn.Conserving := by
  refine ⟨closing_of_reachable server.source_regular ?_ h, (delivering_of_reachable h).conserved⟩
  rintro _ ⟨time, rfl⟩
  exact .accepted l time

/-- A connection with something left to write is alive, and asks for writable events. -/
theorem waits_of_unwritten (hd : s.conn.Delivering)
    (hlt : s.conn.written.length < s.conn.sent.length) :
    s.conn.writeBuffer.bytes ≠ [] ∧ s.conn.destroys = 0 ∧ s.conn.event.isWritable = true := by
  have hne : s.conn.writeBuffer.bytes ≠ [] := by
    intro hb
    have hc := hd.conserved
    rw [hb, List.append_nil] at hc
    rw [hc] at hlt
    exact Nat.lt_irrefl _ hlt
  refine ⟨hne, ?_, hd.watched.mp hne⟩
  by_contra hpos
  exact hne (hd.destroyed (Nat.pos_of_ne_zero hpos))

/-! ### Fair runs -/

section Runs

variable {r : Run (server.runs l).stuttering}

/-- A connection that asks for writable events is not left waiting for ever. -/
def Fair (r : Run (server.runs l).stuttering) : Prop :=
  r.WeaklyFair (fun s => s.conn.destroys = 0 ∧ s.conn.event.isWritable = true)
    fun s a => ∃ b, a = some b ∧ Writes s b

theorem grows_of_le {n m : ℕ} (hm : n ≤ m) : (r.st n).conn.sent <+: (r.st m).conn.sent ∧
    (r.st n).conn.written <+: (r.st m).conn.written := by
  induction hm with
  | refl => exact ⟨List.prefix_refl _, List.prefix_refl _⟩
  | @step m hm ih =>
      rcases r.step_cases m with ⟨-, hst⟩ | ⟨a, -, hstep⟩
      · rw [hst]
        exact ih
      · have h := grows_step (conserving_of_reachable (r.reachable m).of_stuttering) hstep
        exact ⟨ih.1.trans h.1, ih.2.trans h.2⟩

/-- As long as something is left of the first `k` bytes sent, more of them are written. -/
theorem exists_growth (hfair : Fair r) {n k : ℕ} (hk : k ≤ (r.st n).conn.sent.length) :
    ∃ m, n ≤ m ∧ (k ≤ (r.st m).conn.written.length ∨
      (r.st m).conn.written.length < (r.st (m + 1)).conn.written.length) := by
  by_contra hnever
  push Not at hnever
  have hdelivering : ∀ m, (r.st m).conn.Delivering := fun m =>
    delivering_of_reachable (r.reachable m).of_stuttering
  have hwaits : ∀ m, n ≤ m → (r.st m).conn.writeBuffer.bytes ≠ [] ∧ (r.st m).conn.destroys = 0 ∧
      (r.st m).conn.event.isWritable = true := by
    intro m hm
    have hlt := (hnever m hm).1
    have hsent := (grows_of_le (r := r) hm).1.length_le
    exact waits_of_unwritten (hdelivering m) (by omega)
  obtain ⟨m, hm, a, ha, hw⟩ := hfair n fun m hm => (hwaits m hm).2
  have hstep := r.step m
  rw [ha] at hstep
  have hgrow := written_of_writes (hdelivering m) hstep hw (hwaits m hm).1
  have := (hnever m hm).2
  omega

theorem exists_written (hfair : Fair r) (n : ℕ) :
    ∃ m, n ≤ m ∧ (r.st n).conn.sent <+: (r.st m).conn.written := by
  let k := (r.st n).conn.sent.length
  have hle : ∀ m, k - (r.st (m + 1)).conn.written.length ≤ k - (r.st m).conn.written.length := by
    intro m
    have := (grows_of_le (r := r) (Nat.le_succ m)).2.length_le
    exact Nat.sub_le_sub_left this k
  have hlt : ∀ m, n ≤ m → ∃ i, m ≤ i ∧ (k ≤ (r.st i).conn.written.length ∨
      k - (r.st (i + 1)).conn.written.length < k - (r.st i).conn.written.length) := by
    intro m hm
    obtain ⟨i, hi, hgrow⟩ := exists_growth hfair (grows_of_le (r := r) hm).1.length_le
    exact ⟨i, hi, by omega⟩
  obtain ⟨m, hm, hk⟩ := eventually_of_rank
    (fun m => k - (r.st m).conn.written.length) (fun m _ _ => hle m) hlt
  refine ⟨m, hm, ?_⟩
  have hall : (r.st m).conn.written <+: (r.st m).conn.sent :=
    ⟨_, (delivering_of_reachable (r.reachable m).of_stuttering).conserved⟩
  exact List.prefix_of_prefix_length_le (grows_of_le hm).1 hall hk

/-- Nothing is sent after the close. -/
theorem sent_of_silent (hsilent : ∀ n a, r.act n = some a → SilentAfterClose (r.st n) a) {n m : ℕ}
    (hm : n ≤ m) (hreq : Call.closeConnection ∈ (r.st n).conn.calls) :
    Call.closeConnection ∈ (r.st m).conn.calls ∧ (r.st m).conn.sent = (r.st n).conn.sent := by
  induction hm with
  | refl => exact ⟨hreq, rfl⟩
  | @step m hm ih =>
      rcases r.step_cases m with ⟨-, hst⟩ | ⟨a, ha, hstep⟩
      · rw [hst]
        exact ih
      · have hw := (delivering_of_reachable (r.reachable m).of_stuttering).wired
        have hne : ∀ str, a ≠ .send str := fun str he => hsilent m a ha str he ih.1
        have hsent := Session.sent_step server.source_regular hw hstep.1 hstep.2 hne
        obtain ⟨more, hcalls, -⟩ := (step_spec hw hstep.1 hstep.2).calls
        refine ⟨?_, hsent.trans ih.2⟩
        rw [hcalls]
        exact List.mem_append_left _ ih.1

theorem reachable_silent (hsilent : ∀ n a, r.act n = some a → SilentAfterClose (r.st n) a) :
    ∀ n, Reachable ((server.runs l).guarded SilentAfterClose) (r.st n)
  | 0 => .init r.init
  | n + 1 => by
      rcases r.step_cases n with ⟨-, hst⟩ | ⟨a, ha, hstep⟩
      · rw [hst]
        exact reachable_silent hsilent n
      · exact (reachable_silent hsilent n).step ⟨hstep, hsilent n a ha⟩

/-- **Liveness**: in every fair run of a server connection whose `connCloseCallback_` makes no calls
all that was sent is written, and if nothing is sent after a close was requested, the close is
carried out, after everything is written. -/
theorem written_and_closed (r : Run (server.runs l).stuttering) (hfair : Fair r) (n : ℕ) :
    (∃ m, n ≤ m ∧ (r.st n).conn.sent <+: (r.st m).conn.written) ∧
    ((∀ m a, r.act m = some a → SilentAfterClose (r.st m) a) →
      Call.closeConnection ∈ (r.st n).conn.calls → ∃ m, n ≤ m ∧ (r.st m).conn.state = .CLOSED ∧
        0 < (r.st m).conn.destroys ∧ (r.st m).conn.written = (r.st n).conn.sent) := by
  refine ⟨exists_written hfair n, fun hsilent hreq => ?_⟩
  obtain ⟨m, hm, hwritten⟩ := exists_written hfair n
  obtain ⟨hreq', hsent⟩ := sent_of_silent hsilent hm hreq
  have hconserved := (delivering_of_reachable (r.reachable m).of_stuttering).conserved
  rw [hsent] at hconserved
  -- nothing is left in the buffer
  have hlen := congrArg List.length hconserved
  rw [List.length_append] at hlen
  have hempty : (r.st m).conn.writeBuffer.bytes = [] := by
    have := hwritten.length_le
    exact List.length_eq_zero_iff.mp (by omega)
  rw [hempty, List.append_nil] at hconserved
  have hstands := (requestStands_of_silent l _).1 server (reachable_silent hsilent m)
  have hkept : (r.st m).conn.CloseKept ∧ ¬ (r.st m).conn.Forgotten := by
    refine (keepsCloses server.source_regular ?_).1 hstands
    rintro _ ⟨time, rfl⟩
    exact ⟨.accepted l time, fun _ hmem => absurd hmem List.not_mem_nil⟩
  rcases hkept.1 hreq' with ⟨-, hne⟩ | ⟨hd, hstate⟩
  · exact absurd hempty hne
  · exact ⟨m, hm, hstate, hd, hconserved⟩

end Runs

/-! ### A run that ends -/

/-- The session after an action that is legal. -/
def after (s : Session) (a : Action) : Session := (s.step waiting.source 0 a).getD s

theorem eq_after (s : Session) (a : Action) (t : Session) (h : (waiting.runs 0).Step s a t) :
    t = after s a := by
  unfold after
  rw [h.2]
  rfl

theorem written_and_closed_sendAndClose : ∃ (r : Run (waiting.runs 0).stuttering) (m : ℕ),
    (r.st 3).conn.sent = [1] ∧ (r.st m).conn.state = .CLOSED ∧ 0 < (r.st m).conn.destroys ∧
      (r.st m).conn.written = (r.st 3).conn.sent := by
  obtain ⟨s, t, hp, hs, hreq, hsent, hd⟩ := path_sendAndClose
  replace hp := hp.of_guarded
  have hlast : Path (waiting.runs 0) s [flushed] t := .cons hs.1 (.nil t)
  let r := (hp.append hlast).run eq_after ⟨0, rfl⟩
  have h3 : r.st 3 = s := hp.run_append eq_after hlast ⟨0, rfl⟩
  have hend : ∀ m, 4 ≤ m → r.st m = t := fun m hm =>
    (hp.append hlast).run_end eq_after ⟨0, rfl⟩ hm
  have hfair : Fair r := by
    refine Run.weaklyFair_of_end hend fun hwaits => ?_
    rw [hd] at hwaits
    exact absurd hwaits.1 Nat.one_ne_zero
  have hsilent : ∀ m a, r.act m = some a → SilentAfterClose (r.st m) a := by
    rintro (_ | _ | _ | _ | m) a ha str rfl
    · exact List.not_mem_nil
    all_goals cases ha
  obtain ⟨m, -, hm⟩ := (written_and_closed r hfair 3).2 hsilent (by rw [h3]; exact hreq)
  exact ⟨r, m, by rw [h3]; exact hsent, hm⟩

/-! ### Reports that are not enough -/

/-- Whenever the socket takes bytes, there is also something to read. -/
def ReadsToo (_ : Session) : Action → Prop
  | .event revents _ _ _ => revents.EPOLLOUT = true → revents.EPOLLIN = true
  | _ => True

/-- The read callback comes first. -/
theorem handle_of_readable {c : TcpConnection} {revents : EpollFlags} (hw : c.Wired)
    (hin : revents.EPOLLIN = true) :
    (c.report revents).event.handle = some .preConnMsgCallback := by
  show (c.event.setRevents revents).handle = _
  have hplain := hw.plain.errorCallback
  have hread := hw.readCallback
  unfold Event.handle Event.setRevents
  simp only [hplain, hread, hin, Option.isSome_none, Option.isSome_some, Bool.and_false,
    Bool.true_or, Bool.and_true, Bool.false_eq_true, if_false, if_true]

theorem not_sendNonblock {revents : EpollFlags} (hw : s.conn.Wired)
    (hi : s.conn.event.events.Reportable revents)
    (ho : revents.EPOLLOUT = true → revents.EPOLLIN = true) :
    (s.conn.report revents).event.handle ≠ some .sendNonblock := by
  intro hh
  cases hin : revents.EPOLLIN with
  | true =>
      rw [handle_of_readable hw hin] at hh
      cases hh
  | false =>
      have hout : revents.EPOLLOUT = false := by
        cases hr : revents.EPOLLOUT with
        | true => exact absurd (hin.symm.trans (ho hr)) Bool.false_ne_true
        | false => rfl
      obtain ⟨-, hpri, -, hrd, hwr⟩ := hi
      rw [hw.plain.wrnorm] at hwr
      have hwrnorm : revents.EPOLLWRNORM = false := by
        cases hr : revents.EPOLLWRNORM with
        | true => exact absurd (hwr hr) Bool.false_ne_true
        | false => rfl
      have hcase : (s.conn.event.setRevents revents).handle = some .sendNonblock := hh
      unfold Event.handle Event.setRevents at hcase
      simp only [hw.plain.errorCallback, hw.plain.closeCallback, hw.readCallback, hout, hwrnorm,
        Option.isSome_none, Bool.and_false, Bool.or_false, Bool.false_and, Bool.false_eq_true,
        if_false] at hcase
      split_ifs at hcase
      cases hcase

theorem written_of_closeWith {closeCallback erase : Bool} {c c' : TcpConnection}
    (h : c.closeWith closeCallback erase = some c') : c'.written = c.written := by
  obtain ⟨-, rfl⟩ | ⟨-, rfl⟩ := closeWith_cases h
  · rfl
  · rfl

theorem written_step (hw : s.conn.Wired) (hs : ((server.runs l).guarded ReadsToo).Step s a t) :
    t.conn.written = s.conn.written := by
  obtain ⟨⟨hl, hs⟩, hguard⟩ := hs
  cases a with
  | send str =>
      rw [Session.step_send hl.2] at hs
      obtain rfl := Option.some.inj hs
      rfl
  | activeClose =>
      obtain ⟨c, hc, hs⟩ := Option.bind_eq_some_iff.mp hs
      obtain rfl := Option.some.inj hs
      exact written_of_closeWith (closeConnection_eq hc)
  | ret =>
      rw [step_ret] at hs
      obtain rfl := Option.some.inj hs
      rfl
  | resolve ok =>
      obtain rfl := Option.some.inj hs
      rfl
  | reset =>
      obtain rfl := Option.some.inj hs
      rfl
  | event revents time script write =>
      have hnot := not_sendNonblock hw hl.2.2.interest hguard
      rcases Session.event_cases hw hl.2.2.interest hs with
        ⟨-, rfl⟩ | ⟨-, hc, -⟩ | ⟨hh, -⟩ | ⟨-, -, -, hc, -⟩
      · rfl
      · obtain ⟨readBuffer, n, last, -, ⟨-, -, he⟩ | ⟨-, -, -, he⟩ | ⟨-, -, -, he⟩⟩ :=
          preConnMsgCallback_cases hc
        · have hkept := written_of_closeWith he
          exact hkept
        · rw [he]
          rfl
        · rw [he]
          rfl
      · exact absurd hh hnot
      · cases hc

theorem nothing_written (h : Reachable ((server.runs l).guarded ReadsToo) s) :
    s.conn.written = [] := by
  refine h.invariant_of (J := fun s => s.conn.Wired) (I := fun s => s.conn.written = []) ?_ ?_ ?_
  · exact fun s hr => (delivering_of_reachable hr.of_guarded).wired
  · rintro _ ⟨time, rfl⟩
    rfl
  · exact fun s a t hw hs hstep => (written_step hw hstep).trans hs

/-- One payload is sent, and every report from then on offers reading and writing. -/
structure Busy (msg : List Byte) (s : Session) : Prop where
  delivering : s.conn.Delivering
  alive : s.conn.destroys = 0
  control : s.control = .loop
  attempt : s.attempt = .succeeded
  readable : s.conn.event.isReadable = true
  sent : s.conn.sent = msg
  written : s.conn.written = []

/-- The peer sends a byte, and the socket would take one. -/
def offered : Action :=
  .event { EPOLLIN := true, EPOLLOUT := true } 0 [.data [7]] (.accepted 1)

theorem Busy.step {msg : List Byte} (hmsg : msg ≠ []) (h : Busy msg s) :
    ∃ t, ((waiting.runs 0).guarded ReadsToo).Step s offered t ∧ Busy msg t := by
  have hbytes : s.conn.writeBuffer.bytes = msg := by
    have hc := h.delivering.conserved
    rwa [h.written, h.sent] at hc
  have hout : s.conn.event.isWritable = true := by
    refine h.delivering.watched.mp ?_
    rw [hbytes]
    exact hmsg
  let c := s.conn.report { EPOLLIN := true, EPOLLOUT := true }
  obtain ⟨readBuffer, hread⟩ : ∃ readBuffer : ValidBuffer IO_BUFFER_SIZE,
      waiting.source.preConnMsgCallback 0 0 [.data [7]] c =
        some ({ c with data := some 0, readBuffer }, .loop) :=
    waiting_read 0 c (by decide) (by decide)
  have hlegal : offered.Legal s := by
    refine ⟨h.alive, h.control, .of_succeeded ?_ h.attempt (by decide) ?_⟩
    · exact ⟨fun _ => h.readable, nofun, fun _ => hout, nofun, nofun⟩
    · rw [hbytes]
      exact List.length_pos_iff.mpr hmsg
  have hs : (waiting.runs 0).Step s offered _ :=
    ⟨hlegal, Session.step_read (handle_of_readable h.delivering.wired rfl) hread⟩
  exact ⟨_, ⟨hs, fun _ => rfl⟩, delivering_step h.delivering hs, h.alive, rfl, h.attempt,
    h.readable, h.sent, h.written⟩

/-- The payload is sent in the first step. -/
def Stage (msg : List Byte) : ℕ → Session → Prop
  | 0, s => s = { conn := accepted 0 0 }
  | _ + 1, s => Busy msg s

theorem Stage.step {msg : List Byte} (hmsg : msg ≠ []) (n : ℕ) (s : Session) (h : Stage msg n s) :
    ∃ a t, (waiting.runs 0).Step s a t ∧ (0 < n → a = offered) ∧ Stage msg (n + 1) t := by
  cases n with
  | zero =>
      obtain rfl : s = { conn := accepted 0 0 } := h
      refine ⟨.send msg, _, ⟨⟨rfl, hmsg⟩, Session.step_send hmsg⟩, ?_, ?_⟩
      · intro hlt
        exact absurd hlt (Nat.lt_irrefl 0)
      · exact ⟨(Delivering.accepted 0 0).queue rfl hmsg, rfl, rfl, rfl, rfl, rfl, rfl⟩
  | succ n =>
      have hbusy : Busy msg s := h
      obtain ⟨t, ht, hnext⟩ := hbusy.step hmsg
      exact ⟨offered, t, ht.1, fun _ => rfl, hnext⟩

/-- **Starvation**: as long as every report that offers writing offers reading too, a server
connection writes nothing at all; and this can go on for ever, with any payload sent at the start
and a socket that takes bytes all the time. -/
theorem writes_starve :
    (∀ (server : TcpServer) (l : LoopId) (s : Session),
      Reachable ((server.runs l).guarded ReadsToo) s → s.conn.written = []) ∧
    ∀ msg : List Byte, msg ≠ [] → ∃ r : Run (waiting.runs 0), ∀ n, 0 < n →
      (r.st n).conn.sent = msg ∧ (r.st n).conn.written = [] ∧ r.act n = offered := by
  refine ⟨fun _ _ _ => nothing_written, fun msg hmsg => ?_⟩
  have hinit : (waiting.runs 0).Init { conn := accepted 0 0 } := ⟨0, rfl⟩
  obtain ⟨r, hr⟩ := exists_run hinit (I := Stage msg) rfl (Stage.step hmsg)
  refine ⟨r, fun n hn => ?_⟩
  obtain ⟨hstage, hact⟩ := hr n
  obtain ⟨k, rfl⟩ := Nat.exists_eq_add_of_lt hn
  rw [Nat.zero_add] at hstage
  have hbusy : Busy msg (r.st (0 + k + 1)) := by
    rw [Nat.zero_add]
    exact hstage
  exact ⟨hbusy.sent, hbusy.written, hact hn⟩

end TcpServer

end Dagger

import Dagger.ClientConnect

/-! # The order of a client's callbacks

`connEstaCallback_` should come first, once, and after a successful connect only.  The connect
callback infers success from `SO_ERROR`, which stays 0 when `::connect` fails at once and which a
failing read clears; reads are dispatched before writes; and a close with unsent bytes leaves the
connect callback installed.  `ConnectsFirst` excludes what goes wrong in this way while the
connection is still `BLANK`, and `established_first` proves the order in all other runs. -/

namespace Dagger

open TcpConnection Transition

namespace TcpConnection

/-- Effects add calls other than `connEstaCallback`, and change the state by destroying only. -/
def Extends (c c' : TcpConnection) : Prop :=
  (∃ more, c'.calls = c.calls ++ more ∧ Call.connEstaCallback ∉ more) ∧
    (c'.destroys = 0 → c.destroys = 0 ∧ c'.state = c.state)

variable {closeCallback erase : Bool} {c c' c'' : TcpConnection}

theorem Extends.refl (c : TcpConnection) : c.Extends c :=
  ⟨⟨[], (List.append_nil _).symm, List.not_mem_nil⟩, fun hd => ⟨hd, rfl⟩⟩

theorem Extends.trans (h : c.Extends c') (h' : c'.Extends c'') : c.Extends c'' := by
  obtain ⟨⟨more, hm, hn⟩, hs⟩ := h
  obtain ⟨⟨more', hm', hn'⟩, hs'⟩ := h'
  refine ⟨⟨more ++ more', by rw [hm', hm, List.append_assoc], ?_⟩, fun hd => ?_⟩
  · intro hmem
    rcases List.mem_append.mp hmem with hmem | hmem
    · exact hn hmem
    · exact hn' hmem
  · obtain ⟨hd', he'⟩ := hs' hd
    obtain ⟨hd, he⟩ := hs hd'
    exact ⟨hd, he'.trans he⟩

theorem Extends.closeNow (c : TcpConnection) : c.Extends (c.closeNow closeCallback erase) := by
  refine ⟨⟨_, rfl, ?_⟩, fun hd => absurd hd (Nat.succ_ne_zero _)⟩
  cases closeCallback <;> decide

theorem Extends.effect (he : Effect closeCallback erase c c') : c.Extends c' := by
  cases he with
  | callback c _ hne =>
      exact ⟨⟨[_], rfl, fun hmem => hne (List.mem_singleton.mp hmem).symm⟩, fun hd => ⟨hd, rfl⟩⟩
  | deferClose => exact ⟨⟨[.closeConnection], rfl, by decide⟩, fun hd => ⟨hd, rfl⟩⟩
  | close => exact .closeNow c
  | @flushClose rest c => exact .closeNow (c.wrote rest c.writeBuffer.bytes.length).unwatch
  | _ => exact .refl _

theorem Extends.effects (he : Effects closeCallback erase c c') : c.Extends c' := by
  induction he with
  | refl => exact .refl c
  | tail _ hs ih => exact ih.trans (.effect hs)

theorem Extends.notMem (h : c.Extends c')
    (hn : Call.connEstaCallback ∉ c.calls) : Call.connEstaCallback ∉ c'.calls := by
  obtain ⟨⟨more, hcalls, hesta⟩, -⟩ := h
  rw [hcalls, List.mem_append]
  rintro (hin | hin)
  · exact hn hin
  · exact hesta hin

end TcpConnection

namespace TcpClient

/-- `closeConnection` is entered in this step. -/
def EntersClose (client : TcpClient) (s : Session) : Action → Prop
  | .activeClose => True
  | .ret => s.control = .connErrorCallback
  | .event revents _ script _ =>
      ((s.conn.report revents).event.handle = some .preConnMsgCallback ∧
        (Buffer.readReturn script = 0 ∨
          (Buffer.readReturn script < 0 ∧ client.connErrorCallback = false))) ∨
      ((s.conn.report revents).event.handle = some .connectCallback ∧ s.soError = true)
  | _ => False

/-- `::connect` failed at once, and nothing has been called since. -/
def FailedAtOnce (s : Session) : Prop :=
  s.attempt = .failed ∧ s.soError = false ∧ s.conn.calls = []

/-- The write callback that waits for the connect runs in this step. -/
def RunsConnect (s : Session) : Action → Prop
  | .event revents _ _ _ => (s.conn.report revents).event.handle = some .connectCallback
  | _ => False

/-- Before an established callback that is set has been invoked, no message is delivered, a
close finds nothing to send, and a connect that failed at once is not reported as writable. -/
def ConnectsFirst (client : TcpClient) (s : Session) (a : Action) : Prop :=
  client.connEstaCallback = true → s.conn.state = .BLANK → s.control ≠ .connEstaCallback →
    ¬ s.DeliversMessage client.codec a ∧ (client.EntersClose s a → s.conn.writeBuffer.bytes = []) ∧
      (RunsConnect s a → ¬ FailedAtOnce s)

/-! ### The invariant -/

/-- The three situations of a connection that is not established yet. -/
def Pending (s : Session) : Prop :=
  (s.control = .loop ∧ s.conn.calls = []) ∨
    s.control = .connErrorCallback ∨
    (s.control = .connEstaCallback ∧ Call.connEstaCallback ∈ s.conn.calls)

structure Ordered (s : Session) : Prop where
  opened : s.conn.Opened
  once : Call.connEstaCallback ∉ s.conn.calls.tail
  success : Call.connEstaCallback ∈ s.conn.calls → s.attempt = .succeeded
  message : Call.connMsgCallback ∈ s.conn.calls → Call.connEstaCallback ∈ s.conn.calls
  pending : s.conn.destroys = 0 → s.conn.state = .BLANK → Pending s
  past : s.conn.destroys = 0 → s.conn.state = .ESTABLISHED → s.control ≠ .connEstaCallback ∧
    Call.connEstaCallback ∈ s.conn.calls

variable {client : TcpClient} {l : LoopId} {s t : Session} {a : Action}

/-- New calls that start no connection and deliver messages to started ones only. -/
theorem Ordered.extend {more : List Call} (h : Ordered s) (ho : t.conn.Opened)
    (ha : t.attempt = s.attempt) (hcalls : t.conn.calls = s.conn.calls ++ more)
    (hesta : Call.connEstaCallback ∉ more)
    (hmsg : Call.connMsgCallback ∈ more → Call.connEstaCallback ∈ s.conn.calls)
    (hpending : t.conn.destroys = 0 → t.conn.state = .BLANK → Pending t)
    (hctl : t.conn.destroys = 0 → t.conn.state = .ESTABLISHED → t.control ≠ .connEstaCallback ∧
      Call.connEstaCallback ∈ s.conn.calls) :
    Ordered t := by
  have hmem : Call.connEstaCallback ∈ t.conn.calls ↔ Call.connEstaCallback ∈ s.conn.calls := by
    rw [hcalls, List.mem_append]
    exact or_iff_left hesta
  refine ⟨ho, ?_, ?_, ?_, hpending, fun hd hs => ?_⟩
  · rw [hcalls]
    intro hin
    cases hs : s.conn.calls with
    | nil =>
        rw [hs] at hin
        exact hesta (List.mem_of_mem_tail hin)
    | cons call calls =>
        have honce := h.once
        rw [hs] at hin honce
        rcases List.mem_append.mp hin with hin | hin
        · exact honce hin
        · exact hesta hin
  · intro hin
    rw [ha]
    exact h.success (hmem.mp hin)
  · intro hin
    rw [hcalls, List.mem_append] at hin
    rw [hmem]
    rcases hin with hin | hin
    · exact h.message hin
    · exact hmsg hin
  · obtain ⟨hc, hin⟩ := hctl hd hs
    exact ⟨hc, hmem.mpr hin⟩

/-- Effects keep an established connection in order, whatever its callbacks do. -/
theorem Ordered.extends (h : Ordered s) (ho : t.conn.Opened) (ha : t.attempt = s.attempt)
    (hd : s.conn.destroys = 0) (hs : s.conn.state = .ESTABLISHED)
    (he : s.conn.Extends t.conn) (hctl : t.control ≠ .connEstaCallback) : Ordered t := by
  obtain ⟨⟨more, hcalls, hesta⟩, hstate⟩ := he
  have hpast := (h.past hd hs).2
  refine h.extend ho ha hcalls hesta (fun _ => hpast) (fun hd' hb => ?_)
    (fun _ _ => ⟨hctl, hpast⟩)
  rw [(hstate hd').2, hs] at hb
  cases hb

/-- A connection that is destroyed stays in order. -/
theorem Ordered.closed (h : Ordered s) (ho : t.conn.Opened) (ha : t.attempt = s.attempt)
    (hb : s.conn.writeBuffer.bytes = []) {c : TcpConnection} {closeCallback erase : Bool}
    (hclose : c.closeWith closeCallback erase = some t.conn) (hc : c.calls = s.conn.calls)
    (hcb : c.writeBuffer = s.conn.writeBuffer) : Ordered t := by
  rw [closeWith_of_empty (by rw [hcb, hb])] at hclose
  have ht := Option.some.inj hclose
  have hd : t.conn.destroys ≠ 0 := by
    rw [← ht]
    exact Nat.succ_ne_zero _
  have hcalls : t.conn.calls =
      s.conn.calls ++ .closeConnection :: if closeCallback then [.connCloseCallback] else [] := by
    rw [← ht, ← hc]
    rfl
  refine h.extend ho ha hcalls ?_ ?_ (fun h0 => absurd h0 hd) (fun h0 => absurd h0 hd)
  · cases closeCallback <;> decide
  · intro hin
    cases closeCallback <;> simp at hin

/-- Between two events nothing has been called on a connection that is not established yet. -/
theorem Ordered.calls_of_loop (h : Ordered s) (hd : s.conn.destroys = 0)
    (hb : s.conn.state = .BLANK) (hctl : s.control = .loop) : s.conn.calls = [] := by
  rcases h.pending hd hb with ⟨-, hcalls⟩ | hctl' | ⟨hctl', -⟩
  · exact hcalls
  all_goals
    rw [hctl] at hctl'
    cases hctl'

/-! ### What one step keeps -/

theorem Ordered.read_blank {revents : EpollFlags} {time : UInt32} {script : List ReadResult}
    {write : WriteResult} (hset : client.connEstaCallback = true) (h : Ordered s)
    (ho : t.conn.Opened) (hb : s.conn.state = .BLANK)
    (hl : (Action.event revents time script write).Legal s)
    (hg : client.ConnectsFirst s (.event revents time script write))
    (hh : (s.conn.report revents).event.handle = some .preConnMsgCallback)
    (hc : client.preConnMsgCallback script (s.conn.report revents) = some (t.conn, t.control))
    (ha : t.attempt = s.attempt) : Ordered t := by
  obtain ⟨hd, hctl, hrep⟩ := hl
  obtain ⟨hnomsg, hempty, -⟩ := hg hset hb (by rw [hctl]; decide)
  have hcalls := h.calls_of_loop hd hb hctl
  obtain ⟨readBuffer, n, hr, hcase⟩ := preConnMsgCallback_cases hc
  obtain ⟨rb, hrb, -⟩ := ValidBuffer.readFromSocket_of_deliverable
    (b := (s.conn.report revents).readBuffer) hrep.deliverable
  rw [hrb] at hr
  obtain ⟨rfl, rfl⟩ := Prod.mk.inj (Option.some.inj hr)
  have hsame : ∀ {p : Prop}, t.conn.state = s.conn.state → t.conn.state = .ESTABLISHED → p := by
    intro p hs he
    rw [hs, hb] at he
    cases he
  rcases hcase with ⟨hn, -, hclose⟩ | ⟨hn, -, hctl', hconn⟩ | ⟨hn, -, hctl', hconn⟩ |
    ⟨hn, hready, -, -⟩
  · exact h.closed ho ha (hempty (Or.inl ⟨hh, hn⟩)) hclose rfl rfl
  · have hcalls' : t.conn.calls = s.conn.calls ++ [.connErrorCallback] := by
      rw [hconn]
      rfl
    refine h.extend ho ha hcalls' (by decide) (fun hin => ?_) (fun _ _ => Or.inr (Or.inl hctl'))
      (fun _ => hsame (by rw [hconn]; rfl))
    cases List.mem_singleton.mp hin
  · have hcalls' : t.conn.calls = s.conn.calls ++ [] := by
      rw [hconn, List.append_nil]
      rfl
    refine h.extend ho ha hcalls' (by decide) (fun hin => ?_) (fun _ _ => Or.inl ⟨hctl', ?_⟩)
      (fun _ => hsame (by rw [hconn]; rfl))
    · cases hin
    · rw [hcalls', hcalls]
      rfl
  · exact absurd ⟨hh, hn, rb, hrb, hready⟩ hnomsg

theorem Ordered.connect_blank {revents : EpollFlags} {time : UInt32} {script : List ReadResult}
    {write : WriteResult} (hset : client.connEstaCallback = true) (h : Ordered s)
    (ho : t.conn.Opened) (hb : s.conn.state = .BLANK)
    (hl : (Action.event revents time script write).Legal s)
    (hg : client.ConnectsFirst s (.event revents time script write))
    (hh : (s.conn.report revents).event.handle = some .connectCallback)
    (hc : client.connectCallback s.soError (s.conn.report revents) = some (t.conn, t.control))
    (ha : t.attempt = s.attempt) : Ordered t := by
  obtain ⟨hd, hctl, hrep⟩ := hl
  obtain ⟨-, hempty, hnotfailed⟩ := hg hset hb (by rw [hctl]; decide)
  have hcalls := h.calls_of_loop hd hb hctl
  have hsucc : s.soError = false → t.attempt = .succeeded := by
    intro herr
    rw [ha]
    cases hatt : s.attempt with
    | pending => exact absurd hatt hrep.resolved
    | succeeded => rfl
    | failed => exact absurd ⟨hatt, herr, hcalls⟩ (hnotfailed hh)
  rcases connectCallback_cases hc with ⟨herr, -, hclose⟩ | ⟨herr, -, hctl', hconn⟩ |
    ⟨herr, hunset, hctl', hconn⟩
  · exact h.closed ho ha (hempty (Or.inr ⟨hh, herr⟩)) hclose rfl rfl
  · have hcalls' : t.conn.calls = [.connEstaCallback] := by
      rw [hconn]
      show s.conn.calls ++ _ = _
      rw [hcalls]
      rfl
    refine ⟨ho, ?_, fun _ => hsucc herr, ?_, fun _ _ => Or.inr (Or.inr ⟨hctl', ?_⟩), fun _ hs => ?_⟩
    · rw [hcalls']
      decide
    · intro _
      rw [hcalls']
      decide
    · rw [hcalls']
      decide
    · rw [hconn] at hs
      exact absurd (hb.symm.trans hs) (by decide)
  · exact absurd (hset.symm.trans hunset) (by decide)

/-- The two states of a connection that is not destroyed. -/
theorem Ordered.state_cases (h : Ordered s) (hd : s.conn.destroys = 0) :
    s.conn.state = .BLANK ∨ s.conn.state = .ESTABLISHED := by
  rcases h.opened.phase hd with ⟨hs, -⟩ | ⟨hs, -⟩
  · exact Or.inl hs
  · exact Or.inr hs

theorem Ordered.event (hset : client.connEstaCallback = true) (h : Ordered s)
    (ho : t.conn.Opened) {revents : EpollFlags} {time : UInt32} {script : List ReadResult}
    {write : WriteResult}
    (hl : (Action.event revents time script write).Legal s)
    (hg : client.ConnectsFirst s (.event revents time script write))
    (hs : s.step client.source l (.event revents time script write) = some t) :
    Ordered t := by
  have hd := hl.1
  have hrep := hl.2.2
  rcases Session.event_cases h.opened.wired hrep.interest hs with
    ⟨-, rfl⟩ | ⟨hh, hc, ha, -⟩ | ⟨-, hwr, hcb, hc, ht⟩ | ⟨hh, hwr, hcb, hc, ha⟩
  · exact ⟨ho, h.once, h.success, h.message, h.pending, h.past⟩
  · rcases h.state_cases hd with hb | he
    · exact h.read_blank hset ho hb hl hg hh hc ha
    · have hext := Extends.effects (preConnMsgCallback_reads hc).effects
      refine h.extends ho ha hd he ⟨hext.1, hext.2⟩ ?_
      obtain ⟨readBuffer, n, -, hcase⟩ := preConnMsgCallback_cases hc
      rcases hcase with ⟨-, hctl, -⟩ | ⟨-, -, hctl, -⟩ | ⟨-, -, hctl, -⟩ | ⟨-, -, hctl, -⟩
      all_goals
        rw [hctl]
        decide
  · rcases h.opened.phase hd with ⟨-, -, hcb'⟩ | ⟨he, -⟩
    · rw [hcb] at hcb'
      cases hcb'
    · have hext := Extends.effects (sendNonblock_effects client.source_regular
        (c := s.conn.report revents) hcb hrep.written hc)
      have hctl : t.control = .loop := by
        rw [ht]
        exact hl.2.1
      refine h.extends ho (by rw [ht]) hd he ⟨hext.1, hext.2⟩ ?_
      rw [hctl]
      decide
  · rcases h.opened.phase hd with ⟨hb, -⟩ | ⟨-, hsend⟩
    · exact h.connect_blank hset ho hb hl hg hh hc ha
    · have hcb' := hsend hwr
      rw [hcb] at hcb'
      cases hcb'

/-- While the established callback runs it is among the calls. -/
theorem Ordered.esta_mem (h : Ordered s) (hd : s.conn.destroys = 0) (hb : s.conn.state = .BLANK)
    (hctl : s.control = .connEstaCallback) : Call.connEstaCallback ∈ s.conn.calls := by
  rcases h.pending hd hb with ⟨hctl', -⟩ | hctl' | ⟨-, hin⟩
  · exact absurd (hctl.symm.trans hctl') (by decide)
  · exact absurd (hctl.symm.trans hctl') (by decide)
  · exact hin

theorem Ordered.activeClose (hset : client.connEstaCallback = true) (h : Ordered s)
    (ho : t.conn.Opened) (hl : Action.activeClose.Legal s)
    (hg : client.ConnectsFirst s .activeClose)
    (hs : s.step client.source l .activeClose = some t) : Ordered t := by
  obtain ⟨conn, hc, hs⟩ := Option.bind_eq_some_iff.mp hs
  obtain rfl := Option.some.inj hs
  have hclose := client.source_regular.closeConnection hc
  have hext := Extends.effect (closeWith_effect hclose)
  rcases h.state_cases hl with hb | he
  · by_cases hctl : s.control = .connEstaCallback
    · -- the user closes the connection from its established callback
      have hin := h.esta_mem hl hb hctl
      obtain ⟨⟨more, hcalls, hesta⟩, hstate⟩ := hext
      refine h.extend ho rfl hcalls hesta (fun _ => hin) (fun _ _ => ?_) (fun hd he => ?_)
      · refine Or.inr (Or.inr ⟨hctl, ?_⟩)
        rw [hcalls]
        exact List.mem_append_left more hin
      · rw [(hstate hd).2, hb] at he
        cases he
    · exact h.closed ho rfl ((hg hset hb hctl).2.1 trivial) hclose rfl rfl
  · exact h.extends ho rfl hl he hext (h.past hl he).1

theorem Ordered.ret (hset : client.connEstaCallback = true) (h : Ordered s)
    (ho : t.conn.Opened) (hl : Action.ret.Legal s) (hg : client.ConnectsFirst s .ret)
    (hs : s.step client.source l .ret = some t) : Ordered t := by
  obtain ⟨hd, hctl⟩ := hl
  obtain ⟨conn, hc, hs⟩ := Option.bind_eq_some_iff.mp hs
  obtain rfl := Option.some.inj hs
  rcases callbackReturned_cases hc with ⟨hctl', rfl⟩ | ⟨hctl', hclose⟩ | ⟨hctl', hconn⟩
  · refine ⟨ho, h.once, h.success, h.message, fun _ hb => ?_, fun _ he => ⟨nofun, (h.past hd he).2⟩⟩
    rcases h.pending hd hb with ⟨hloop, -⟩ | herr | ⟨hesta, -⟩
    · exact absurd hloop hctl
    · rcases hctl' with hctl' | hctl' <;> exact absurd (herr.symm.trans hctl') (by decide)
    · rcases hctl' with hctl' | hctl' <;> exact absurd (hesta.symm.trans hctl') (by decide)
  · rcases h.state_cases hd with hb | he
    · exact h.closed ho rfl ((hg hset hb (by rw [hctl']; decide)).2.1 hctl') hclose rfl rfl
    · exact h.extends ho rfl hd he (.effect (closeWith_effect hclose)) nofun
  · rcases h.state_cases hd with hb | he
    · -- the connect callback goes on to its end
      have hcalls : conn.calls = s.conn.calls ++ [] := by
        rw [hconn, List.append_nil]
        rfl
      refine h.extend ho rfl hcalls (by decide) (fun hm => by cases hm) (fun _ hb' => ?_)
        (fun _ _ => ⟨nofun, h.esta_mem hd hb hctl'⟩)
      rw [hconn] at hb'
      cases hb'
    · exact absurd hctl' (h.past hd he).1

theorem ordered_step (hset : client.connEstaCallback = true) (h : Ordered s)
    (hs : ((client.runs l).guarded client.ConnectsFirst).Step s a t) : Ordered t := by
  obtain ⟨⟨hl, hs⟩, hg⟩ := hs
  have ho : t.conn.Opened := opened_step h.opened ⟨hl, hs⟩
  cases a with
  | event revents time script write => exact h.event hset ho hl hg hs
  | send str =>
      rw [Session.step_send hl.2] at hs
      obtain rfl := Option.some.inj hs
      exact ⟨ho, h.once, h.success, h.message, h.pending, h.past⟩
  | activeClose => exact h.activeClose hset ho hl hg hs
  | ret => exact h.ret hset ho hl hg hs
  | resolve ok =>
      obtain rfl := Option.some.inj hs
      have hnot : Call.connEstaCallback ∉ s.conn.calls := by
        intro hin
        exact absurd ((h.success hin).symm.trans hl) (by decide)
      refine ⟨ho, h.once, fun hin => absurd hin hnot, h.message, fun hd hb => ?_, h.past⟩
      rcases h.pending hd hb with hpend | hctl | ⟨-, hin⟩
      · exact Or.inl hpend
      · exact Or.inr (Or.inl hctl)
      · exact absurd hin hnot
  | reset =>
      obtain rfl := Option.some.inj hs
      exact ⟨ho, h.once, h.success, h.message, h.pending, h.past⟩

theorem ordered_of_reachable (hset : client.connEstaCallback = true)
    (h : Reachable ((client.runs l).guarded client.ConnectsFirst) s) :
    Ordered s := by
  refine h.invariant ?_ (fun _ _ _ => ordered_step hset)
  rintro _ ⟨_, -, rfl⟩
  exact ⟨.connecting l, nofun, nofun, nofun, fun _ _ => Or.inl ⟨rfl, rfl⟩, nofun⟩

/-! ### Clients without an established callback -/

theorem notMem_step (hunset : client.connEstaCallback = false) (hw : s.conn.Wired)
    (h : Call.connEstaCallback ∉ s.conn.calls) (hs : (client.runs l).Step s a t) :
    Call.connEstaCallback ∉ t.conn.calls := by
  obtain ⟨hl, hs⟩ := hs
  rcases Session.step_cases client.source_regular hw hl hs with
    ⟨str, rfl, -, rfl⟩ | ⟨-, he⟩ | ⟨revents, time, script, write, rfl, -, hc⟩ | ⟨rfl, hr, -⟩
  · exact h
  · exact (Extends.effects he).notMem h
  · have hrep : Call.connEstaCallback ∉ (s.conn.report revents).calls := h
    rcases connectCallback_cases hc with ⟨-, -, hclose⟩ | ⟨-, hset, -, -⟩ | ⟨-, -, -, ht⟩
    · exact (Extends.effect (closeWith_effect hclose)).notMem hrep
    · exact absurd (hset.symm.trans hunset) (by decide)
    · rw [ht]
      exact hrep
  · rcases callbackReturned_cases hr with ⟨-, ht⟩ | ⟨-, hclose⟩ | ⟨-, ht⟩
    · rw [ht]
      exact h
    · exact (Extends.effect (closeWith_effect hclose)).notMem h
    · rw [ht]
      exact h

theorem notMem_of_reachable (hunset : client.connEstaCallback = false)
    (h : Reachable (client.runs l) s) : Call.connEstaCallback ∉ s.conn.calls := by
  refine h.invariant_of (fun _ hr => (opened_of_reachable hr).wired) ?_
    (fun _ _ _ hw => notMem_step hunset hw)
  rintro _ ⟨_, -, rfl⟩
  exact nofun

/-! ### The order of the callbacks -/

/-- An element that is not in the tail of a list has nothing in front of it. -/
theorem prefix_eq_nil_of_notMem_tail {calls pre post : List Call} {call : Call}
    (hn : call ∉ calls.tail) (h : calls = pre ++ call :: post) : pre = [] ∧ call ∉ post := by
  cases pre with
  | nil =>
      rw [h] at hn
      exact ⟨rfl, hn⟩
  | cons c pre =>
      rw [h] at hn
      exact absurd (List.mem_append_right pre List.mem_cons_self) hn

/-- What an ordered connection's history looks like. -/
theorem Ordered.calls (ho : Ordered s) :
    s.conn.calls.count .connEstaCallback ≤ 1 ∧
      (∀ pre post, s.conn.calls = pre ++ .connEstaCallback :: post →
        Call.connErrorCallback ∉ pre ∧ Call.closeConnection ∉ pre) ∧
      ∀ pre post, s.conn.calls = pre ++ .connMsgCallback :: post → Call.connEstaCallback ∈ pre := by
  refine ⟨?_, ?_, ?_⟩
  · have htail := List.count_eq_zero.mpr ho.once
    cases hc : s.conn.calls with
    | nil => exact Nat.zero_le _
    | cons call calls =>
        rw [hc] at htail
        rw [List.count_cons]
        simp only [List.tail_cons] at htail
        split_ifs <;> omega
  · intro pre post hc
    obtain ⟨rfl, -⟩ := prefix_eq_nil_of_notMem_tail ho.once hc
    exact ⟨List.not_mem_nil, List.not_mem_nil⟩
  · intro pre post hc
    have hmsg : Call.connMsgCallback ∈ s.conn.calls := by
      rw [hc]
      exact List.mem_append_right pre List.mem_cons_self
    obtain ⟨pre', post', hc'⟩ := List.append_of_mem (ho.message hmsg)
    obtain ⟨rfl, hpost⟩ := prefix_eq_nil_of_notMem_tail ho.once hc'
    -- the first call is the established callback, so it stands in front of every message
    rw [hc] at hc'
    cases pre with
    | nil => cases (List.cons.inj hc').1
    | cons call pre =>
        rw [(List.cons.inj hc').1]
        exact List.mem_cons_self

/-- **The established callback comes first**, in every run in which a connection that is not
established yet delivers no message, is closed with nothing to send only, and is not reported as
writable after a connect that failed at once: it is invoked at
most once, after a successful connect, before any message, and neither after an error nor
after a request to close. -/
theorem established_first (client : TcpClient) (l : LoopId) {s : Session}
    (h : Reachable ((client.runs l).guarded client.ConnectsFirst) s) :
    s.conn.calls.count .connEstaCallback ≤ 1 ∧
      (Call.connEstaCallback ∈ s.conn.calls → s.attempt = .succeeded) ∧
      (∀ pre post, s.conn.calls = pre ++ .connEstaCallback :: post →
        Call.connErrorCallback ∉ pre ∧ Call.closeConnection ∉ pre) ∧
      (client.connEstaCallback = true →
        ∀ pre post, s.conn.calls = pre ++ .connMsgCallback :: post →
          Call.connEstaCallback ∈ pre) := by
  cases hset : client.connEstaCallback with
  | true =>
      have ho := ordered_of_reachable hset h
      obtain ⟨hcount, hprefix, hmsg⟩ := ho.calls
      exact ⟨hcount, ho.success, hprefix, fun _ => hmsg⟩
  | false =>
      have hn := notMem_of_reachable hset h.of_guarded
      refine ⟨?_, fun hin => absurd hin hn, fun pre post hc => ?_, nofun⟩
      · rw [List.count_eq_zero.mpr hn]
        exact Nat.zero_le 1
      · rw [hc] at hn
        exact absurd (List.mem_append_right pre List.mem_cons_self) hn

/-- A client with an established and an error callback that waits for more data. -/
def observed : TcpClient := ⟨fun b => (false, b), true, false, true⟩

/-- A connect that succeeds before anything else happens. -/
theorem established_first_observed :
    let c := ((connecting 0).report { EPOLLOUT := true }).log .connEstaCallback
    c.calls.count .connEstaCallback ≤ 1 ∧
      (Call.connEstaCallback ∈ c.calls → Attempt.succeeded = .succeeded) ∧
      (∀ pre post, c.calls = pre ++ .connEstaCallback :: post →
        Call.connErrorCallback ∉ pre ∧ Call.closeConnection ∉ pre) ∧
      (observed.connEstaCallback = true →
        ∀ pre post, c.calls = pre ++ .connMsgCallback :: post → Call.connEstaCallback ∈ pre) := by
  have h1 : Reachable ((observed.runs 0).guarded observed.ConnectsFirst)
      { conn := connecting 0, attempt := .succeeded } :=
    .step (a := .resolve true) (.init ⟨.pending, by decide, rfl⟩)
      ⟨⟨rfl, rfl⟩, fun _ _ _ => ⟨nofun, nofun, nofun⟩⟩
  have h2 : Reachable ((observed.runs 0).guarded observed.ConnectsFirst)
      { conn := ((connecting 0).report { EPOLLOUT := true }).log .connEstaCallback,
        control := .connEstaCallback, attempt := .succeeded } := by
    refine h1.step (a := .event { EPOLLOUT := true } 0 [] (.accepted 0))
      ⟨⟨⟨rfl, rfl, ?_⟩, Session.step_connect rfl (connectCallback_of_set rfl)⟩,
        fun _ _ _ => ⟨?_, ?_, ?_⟩⟩
    · exact .of_succeeded (by decide) rfl trivial (Nat.zero_le _)
    · rintro ⟨hh, -⟩
      exact absurd hh (by decide)
    · exact fun _ => ValidBuffer.bytes_make _
    · rintro - ⟨hf, -⟩
      cases hf
  exact established_first observed 0 h2

/-- A byte is sent before the connect ends, the connect is refused, and the socket is reported
twice. -/
def refusedConnect : List Action :=
  [.send [1], .resolve false,
    .event { EPOLLIN := true, EPOLLOUT := true, EPOLLERR := true, EPOLLHUP := true } 0
      [.error (.other 111)] (.accepted 0),
    .ret, .event { EPOLLOUT := true, EPOLLHUP := true } 0 [.data []] (.accepted 0)]

/-- The read takes the error away and asks for a close, which is put off because of the unsent
byte; the connect callback then finds no error. -/
theorem established_after_refusal : ∃ s, Path (observed.runs 0)
    { conn := connecting 0, attempt := .pending } refusedConnect s ∧ s.attempt = .failed ∧
      s.conn.calls = [.connErrorCallback, .closeConnection, .connEstaCallback] := by
  let c₁ := ((connecting 0).queue [1]).report
    { EPOLLIN := true, EPOLLOUT := true, EPOLLERR := true, EPOLLHUP := true }
  obtain ⟨rb, hread⟩ : ∃ readBuffer : ValidBuffer IO_BUFFER_SIZE,
      observed.preConnMsgCallback [.error (.other 111)] c₁ =
        some (log { c₁ with readBuffer } .connErrorCallback, .connErrorCallback) :=
    preConnMsgCallback_of_neg rfl (by decide) (by decide)
  let c₂ := log { c₁ with readBuffer := rb } .connErrorCallback
  have hb : c₂.writeBuffer.bytes = [1] := ValidBuffer.bytes_append (.make _) [1]
  have hclose : observed.source.callbackReturned 0 .connErrorCallback c₂ = some c₂.deferClose := by
    rw [callbackReturned_error, closeWith_of_unsent (by rw [hb]; decide)]
  refine ⟨_, .cons ⟨?_, Session.step_send (by decide)⟩ (.cons ⟨rfl, rfl⟩
    (.cons ⟨?_, Session.step_read rfl hread⟩ (.cons ⟨?_, Session.step_ret hclose⟩
      (.cons ⟨?_, Session.step_connect rfl (connectCallback_of_set rfl)⟩ (.nil _))))), rfl, rfl⟩
  · exact ⟨rfl, by decide⟩
  · refine ⟨rfl, rfl, ⟨fun _ => rfl, nofun, fun _ => rfl, nofun, nofun⟩, nofun, trivial,
      fun _ => ?_, Nat.zero_le _⟩
    exact ⟨_, [], rfl, Or.inr ⟨_, rfl, by decide⟩⟩
  · exact ⟨rfl, nofun⟩
  · refine ⟨rfl, rfl, ⟨nofun, nofun, fun _ => rfl, nofun, nofun⟩, nofun, by decide,
      fun _ => ?_, Nat.zero_le _⟩
    exact ⟨_, [], rfl, Or.inl ⟨rfl, rfl⟩⟩

/-- A connect that fails at once is followed by a report that finds no error. -/
theorem established_after_failure_at_once : ∃ s, Path (observed.runs 0)
    { conn := connecting 0, attempt := .failed }
    [.event { EPOLLOUT := true, EPOLLHUP := true } 0 [.data []] (.accepted 0)] s ∧
      s.attempt = .failed ∧ s.conn.calls = [.connEstaCallback] := by
  refine ⟨_, .cons ⟨⟨rfl, rfl, ⟨nofun, nofun, fun _ => rfl, nofun, nofun⟩, nofun, by decide,
    fun _ => ?_, Nat.zero_le _⟩, Session.step_connect rfl (connectCallback_of_set rfl)⟩ (.nil _),
    rfl, rfl⟩
  exact ⟨_, [], rfl, Or.inl ⟨rfl, rfl⟩⟩

/-! ### Connects that do not fail at once -/

/-- An error that is no longer pending has been met. -/
def Met (s : Session) : Prop := s.attempt = .failed → s.soError = false → s.conn.calls ≠ []

theorem calls_of_closeWith {closeCallback erase : Bool} {c c' : TcpConnection}
    (h : c.closeWith closeCallback erase = some c') : c'.calls ≠ [] := by
  obtain ⟨-, rfl⟩ | ⟨-, rfl⟩ := closeWith_cases h
  · exact List.append_ne_nil_of_right_ne_nil _ (List.cons_ne_nil _ _)
  · exact List.append_ne_nil_of_right_ne_nil _ (List.cons_ne_nil _ _)

theorem calls_of_extends {c c' : TcpConnection} (h : c.Extends c') (hc : c.calls ≠ []) :
    c'.calls ≠ [] := by
  obtain ⟨⟨more, hcalls, -⟩, -⟩ := h
  rw [hcalls]
  exact List.append_ne_nil_of_left_ne_nil hc more

/-- A connect that failed is met by its first read. -/
theorem readReturn_of_failed {revents : EpollFlags} {script : List ReadResult} {write : WriteResult}
    (h : s.Reported revents script write) (hf : s.attempt = .failed) :
    Buffer.readReturn script ≤ 0 := by
  obtain ⟨r, rest, rfl, ⟨rfl, -⟩ | ⟨e, rfl, he⟩⟩ := h.failed hf
  · exact Int.le_refl 0
  · exact Int.le_of_lt he

theorem met_step (ho : s.conn.Opened) (h : Met s) (hs : (client.runs l).Step s a t) : Met t := by
  obtain ⟨hl, hs⟩ := hs
  cases a with
  | send str =>
      rw [Session.step_send hl.2] at hs
      obtain rfl := Option.some.inj hs
      exact h
  | activeClose =>
      obtain ⟨conn, hc, hs⟩ := Option.bind_eq_some_iff.mp hs
      obtain rfl := Option.some.inj hs
      exact fun _ _ => calls_of_closeWith (client.source_regular.closeConnection hc)
  | ret =>
      obtain ⟨conn, hc, hs⟩ := Option.bind_eq_some_iff.mp hs
      obtain rfl := Option.some.inj hs
      rcases callbackReturned_cases hc with ⟨-, rfl⟩ | ⟨-, hclose⟩ | ⟨-, rfl⟩
      · exact h
      · exact fun _ _ => calls_of_closeWith hclose
      · exact h
  | resolve ok =>
      obtain rfl := Option.some.inj hs
      cases ok with
      | false => exact fun _ herr => by cases herr
      | true => exact fun hf => by cases hf
  | reset =>
      obtain rfl := Option.some.inj hs
      exact fun _ herr => by cases herr
  | event revents time script write =>
      intro hf herr
      rcases Session.event_cases ho.wired hl.2.2.interest hs with
        ⟨-, rfl⟩ | ⟨-, hc, ha, -⟩ | ⟨-, -, hcb, hc, ht⟩ | ⟨-, -, -, hc, ha⟩
      · exact h hf herr
      · -- the read of a failed connect brings nothing
        have hn := readReturn_of_failed hl.2.2 (ha ▸ hf)
        obtain ⟨readBuffer, n, hr, hcase⟩ := preConnMsgCallback_cases hc
        obtain ⟨rb, hrb, -⟩ := ValidBuffer.readFromSocket_of_deliverable
          (b := (s.conn.report revents).readBuffer) hl.2.2.deliverable
        rw [hrb] at hr
        obtain ⟨rfl, rfl⟩ := Prod.mk.inj (Option.some.inj hr)
        rcases hcase with ⟨-, -, hclose⟩ | ⟨-, -, -, ht⟩ | ⟨hpos, -⟩ | ⟨hpos, -⟩
        · exact calls_of_closeWith hclose
        · rw [ht]
          exact List.append_ne_nil_of_right_ne_nil _ (List.cons_ne_nil _ _)
        · omega
        · omega
      · rw [ht] at hf herr
        have hext := Extends.effects (sendNonblock_effects client.source_regular
          (c := s.conn.report revents) hcb hl.2.2.written hc)
        exact calls_of_extends hext (h hf herr)
      · rcases connectCallback_cases hc with ⟨-, -, hclose⟩ | ⟨-, -, -, ht⟩ | ⟨herr', -, -, ht⟩
        · exact calls_of_closeWith hclose
        · rw [ht]
          exact List.append_ne_nil_of_right_ne_nil _ (List.cons_ne_nil _ _)
        · rw [ht]
          exact h (ha ▸ hf) herr'

/-- A connect that was pending at first never counts as failed at once. -/
theorem not_failedAtOnce_of_pending {as : List Action}
    (h : Path (client.runs l) { conn := connecting l, attempt := .pending } as s) :
    ¬ FailedAtOnce s := by
  have hmet : s.conn.Opened ∧ Met s :=
    h.invariant (I := fun s => s.conn.Opened ∧ Met s)
      (fun _ _ _ hi hs => ⟨opened_step hi.1 hs, met_step hi.1 hi.2 hs⟩) ⟨.connecting l, nofun⟩
  rintro ⟨hf, herr, hcalls⟩
  exact hmet.2 hf herr hcalls

end TcpClient

end Dagger

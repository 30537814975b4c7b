import Dagger.ServerDelivery

/-! # Calls made by `connCloseCallback_`

`closeConnection` looks at `writeBuffer_` once, calls `connCloseCallback_` on the connection, which
is still `ESTABLISHED`, and destroys it when the callback returns.  Here the callback runs:
`cutSource` is the code of a server up to its call, and a `Nested` state is a session in which any
number of these calls are under way (an `activeClose` made by the callback starts another one).

`reachable_iff_silent` says what `TcpServer.runs` leaves out: its states are those of the runs in
which the callback makes no calls.  Delivery holds in more runs, those in which it sends nothing;
`delivery` shows that a payload which it sends is never written. -/

namespace Dagger

open TcpConnection Transition

/-- Results that are related pass on to computations that keep them so. -/
theorem rel_bind {α β γ δ : Type} {r : α → β → Prop} {q : γ → δ → Prop} {x : Option α}
    {y : Option β} {f : α → Option γ} {g : β → Option δ} (h : Option.Rel r x y)
    (hfg : ∀ a b, r a b → Option.Rel q (f a) (g b)) : Option.Rel q (x.bind f) (y.bind g) := by
  cases h with
  | none => exact .none
  | some hab => exact hfg _ _ hab

namespace TcpServer

/-! ### The code up to the callback -/

section code
variable (server : TcpServer)

/-- What `closeConnection` does after `connCloseCallback_`. -/
def closeRest (c : TcpConnection) : TcpConnection :=
  if server.idleConnectionsManager then c.destroy else c.destroy.delete

/-- `closeConnection` up to the call of `connCloseCallback_`, if it comes to one. -/
def closeConnectionCut (localEventLoop : LoopId) (destoryCallback : Bool) (c : TcpConnection) :
    Option TcpConnection :=
  if c.data = some localEventLoop ∧ destoryCallback = false then
    let c := c.log .closeConnection
    if 0 < c.writeBuffer.readableBytes then
      send true { c with event := c.event.setReadable false }
    else if server.connCloseCallback then some (c.log .connCloseCallback)
    else some (server.closeRest c)
  else none

def preConnMsgCallbackCut (localEventLoop : LoopId) (timeInProcess : UInt32)
    (script : List ReadResult) (c : TcpConnection) : Option (TcpConnection × Control) := do
  let c := { c with data := some localEventLoop }
  let (readBuffer, n) ← c.readBuffer.readFromSocket script 4096
  let c := { c with readBuffer }
  if n = 0 then
    let c ← server.closeConnectionCut localEventLoop false c
    some (c, .loop)
  else if n < 0 then
    let c ← server.closeConnectionCut localEventLoop false c
    some (c, .loop)
  else
    let c :=
      if server.idleConnectionsManager then { c with lastReceiveTime := timeInProcess } else c
    some (c.checkMsg server.codec)

/-- The code of a server, stopped where `connCloseCallback_` takes over. -/
def cutSource : TcpSource where
  closeConnection := server.closeConnectionCut
  preConnMsgCallback := server.preConnMsgCallbackCut
  connectCallback _ _ _ := none
  callbackReturned _ _ c := some c

end code

/-- How often `connCloseCallback_` was called. -/
def closeCalls (c : TcpConnection) : ℕ := c.calls.count .connCloseCallback

variable {server : TcpServer} {l : LoopId} {c c' d : TcpConnection}

/-- `c'` is where code that ends in `d` stops, when `connCloseCallback_` had been called `k` times
before: at its end, or where that callback takes over. -/
inductive Cut (server : TcpServer) (k : ℕ) : TcpConnection → TcpConnection → Prop
  | whole {d : TcpConnection} : closeCalls d = k → Cut server k d d
  | entered {c' : TcpConnection} : closeCalls c' = k + 1 → c'.writeBuffer.bytes = [] →
      Cut server k c' (server.closeRest c')

theorem Cut.cases {k : ℕ} (h : Cut server k c' d) :
    (d = c' ∧ closeCalls c' = k) ∨
      (d = server.closeRest c' ∧ closeCalls c' = k + 1 ∧ c'.writeBuffer.bytes = []) := by
  cases h with
  | whole hk => exact Or.inl ⟨rfl, hk⟩
  | entered hk hb => exact Or.inr ⟨rfl, hk, hb⟩

theorem writeBuffer_closeRest : (server.closeRest c).writeBuffer = c.writeBuffer := by
  unfold closeRest
  split_ifs <;> rfl

theorem destroys_closeRest : (server.closeRest c).destroys = c.destroys + 1 := by
  unfold closeRest
  split_ifs <;> rfl

theorem closeCalls_log {call : Call} (h : call ≠ .connCloseCallback) :
    closeCalls (c.log call) = closeCalls c := by
  unfold closeCalls log
  rw [List.count_append, List.count_singleton, if_neg (by simpa using h), Nat.add_zero]

theorem closeCalls_closeConnection : closeCalls (c.log .closeConnection) = closeCalls c :=
  closeCalls_log (by decide)

theorem closeCalls_callback : closeCalls (c.log .connCloseCallback) = closeCalls c + 1 := by
  unfold closeCalls log
  rw [List.count_append, List.count_singleton_self]

/-- Without a callback there is nothing to stop at. -/
theorem closeConnectionCut_of_unset (hset : server.connCloseCallback = false)
    (destoryCallback : Bool) :
    server.closeConnectionCut l destoryCallback c = server.closeConnection l destoryCallback c := by
  unfold closeConnectionCut closeConnection closeWith closeRest
  rw [hset]
  cases server.idleConnectionsManager <;> rfl

theorem closeConnectionCut_of_unsent (hdata : c.data = some l) (h : c.writeBuffer.bytes ≠ []) :
    server.closeConnectionCut l false c = some c.deferClose := by
  have hpos : 0 < c.writeBuffer.readableBytes := by
    rw [ValidBuffer.readableBytes_eq]
    exact List.length_pos_iff.mpr h
  unfold closeConnectionCut
  rw [if_pos ⟨hdata, rfl⟩]
  dsimp only [log]
  rw [if_pos hpos]
  refine (send_eq true ?_).trans rfl
  exact h

theorem closeConnectionCut_of_empty (hset : server.connCloseCallback = true)
    (hdata : c.data = some l) (h : c.writeBuffer.bytes = []) :
    server.closeConnectionCut l false c =
      some ((c.log .closeConnection).log .connCloseCallback) := by
  have hpos : ¬ 0 < c.writeBuffer.readableBytes := by
    rw [ValidBuffer.readableBytes_eq, h]
    exact Nat.lt_irrefl 0
  unfold closeConnectionCut
  rw [if_pos ⟨hdata, rfl⟩]
  dsimp only [log]
  rw [if_neg hpos, if_pos hset]

theorem activeCloseCut_of_empty (hset : server.connCloseCallback = true)
    (hdata : c.data = some l) (hd : c.destoryCallback = false) (h : c.writeBuffer.bytes = []) :
    c.activeClose server.cutSource l =
      some ((c.log .closeConnection).log .connCloseCallback) := by
  show server.closeConnectionCut l c.destoryCallback c = _
  rw [hd]
  exact closeConnectionCut_of_empty hset hdata h

/-- A read that meets the end of the file or an error ends in `closeConnection`. -/
theorem preConnMsgCallbackCut_of_nonpos {time : UInt32} {script : List ReadResult}
    (hd : Buffer.Deliverable 4096 script) (hn : Buffer.readReturn script ≤ 0) :
    ∃ readBuffer : ValidBuffer IO_BUFFER_SIZE, ∀ c',
      server.closeConnectionCut l false { c with data := some l, readBuffer } = some c' →
        server.preConnMsgCallbackCut l time script c = some (c', .loop) := by
  obtain ⟨readBuffer, e, -⟩ := ValidBuffer.readFromSocket_of_deliverable (b := c.readBuffer) hd
  refine ⟨readBuffer, fun c' hclose => ?_⟩
  unfold preConnMsgCallbackCut
  simp only [e, hclose, Option.bind_eq_bind, Option.bind_some]
  split_ifs
  · rfl
  · rfl
  · omega
  · omega

theorem closeCalls_deferClose : closeCalls c.deferClose = closeCalls c := closeCalls_closeConnection

theorem closeCalls_closeNow (erase : Bool) :
    closeCalls (c.closeNow false erase) = closeCalls c := closeCalls_closeConnection

theorem closeCalls_sendStr {str : List Byte} (h : c.sendStr str = some c') :
    closeCalls c' = closeCalls c := by
  unfold sendStr send at h
  dsimp only at h
  split_ifs at h
  · rw [← Option.some.inj h]
    rfl
  · rw [← Option.some.inj h]
    rfl

theorem closeCalls_checkMsg (c : TcpConnection) :
    closeCalls (c.checkMsg server.codec).1 = closeCalls c := by
  unfold checkMsg
  dsimp only
  split_ifs
  · exact closeCalls_log (by decide)
  · rfl

/-! ### The cuts -/

theorem closeConnection_cut (l : LoopId) (destoryCallback : Bool) (c : TcpConnection) :
    Option.Rel (Cut server (closeCalls c)) (server.closeConnectionCut l destoryCallback c)
      (server.closeConnection l destoryCallback c) := by
  by_cases howner : c.data = some l ∧ destoryCallback = false
  · obtain ⟨hdata, rfl⟩ := howner
    have hclose : server.closeConnection l false c =
        c.closeWith server.connCloseCallback (!server.idleConnectionsManager) :=
      if_pos ⟨hdata, rfl⟩
    by_cases hb : c.writeBuffer.bytes = []
    · cases hset : server.connCloseCallback with
      | false =>
          rw [closeConnectionCut_of_unset hset, hclose, hset, closeWith_of_empty hb]
          exact .some (.whole (closeCalls_closeNow _))
      | true =>
          have hrest : server.closeRest ((c.log .closeConnection).log .connCloseCallback) =
              c.closeNow true (!server.idleConnectionsManager) := by
            unfold closeRest
            cases server.idleConnectionsManager <;> simp [log, destroy, delete, closeNow]
          rw [closeConnectionCut_of_empty hset hdata hb, hclose, hset, closeWith_of_empty hb,
            ← hrest]
          refine .some (.entered ?_ hb)
          rw [closeCalls_callback, closeCalls_closeConnection]
    · rw [hclose, closeWith_of_unsent hb, closeConnectionCut_of_unsent hdata hb]
      exact .some (.whole closeCalls_deferClose)
  · have h₁ : server.closeConnectionCut l destoryCallback c = none := if_neg howner
    have h₂ : server.closeConnection l destoryCallback c = none := if_neg howner
    rw [h₁, h₂]
    exact .none

theorem activeClose_cut (l : LoopId) (c : TcpConnection) :
    Option.Rel (Cut server (closeCalls c)) (c.activeClose server.cutSource l)
      (c.activeClose server.source l) :=
  closeConnection_cut l c.destoryCallback c

theorem sendNonblock_cut (l : LoopId) (n : WriteResult) (c : TcpConnection) :
    Option.Rel (Cut server (closeCalls c)) (c.sendNonblock server.cutSource l n)
      (c.sendNonblock server.source l n) := by
  have hclose : ∀ d, closeCalls d = closeCalls c → Option.Rel (Cut server (closeCalls c))
      (d.activeClose server.cutSource l) (d.activeClose server.source l) := by
    intro d hd
    rw [← hd]
    exact activeClose_cut l d
  unfold sendNonblock
  cases c.writeBuffer.retrieve n.size with
  | none => exact .none
  | some r =>
      dsimp only [Option.bind_eq_bind, Option.bind_some]
      split_ifs
      · exact hclose _ rfl
      · exact .some (.whole rfl)
      · exact .some (.whole rfl)

/-- Stopping in the read callback stops its `closeConnection`. -/
theorem preConnMsgCallback_cut (l : LoopId) (time : UInt32) (script : List ReadResult)
    (c : TcpConnection) :
    Option.Rel (fun p q => p.2 = q.2 ∧ Cut server (closeCalls c) p.1 q.1)
      (server.preConnMsgCallbackCut l time script c)
      (server.preConnMsgCallback l time script c) := by
  unfold preConnMsgCallbackCut preConnMsgCallback
  dsimp only [Option.bind_eq_bind]
  cases c.readBuffer.readFromSocket script 4096 with
  | none => exact .none
  | some r =>
      dsimp only [Option.bind_some]
      have hclose : Option.Rel (fun p q => p.2 = q.2 ∧ Cut server (closeCalls c) p.1 q.1)
          ((server.closeConnectionCut l false { c with data := some l, readBuffer := r.1 }).bind
            fun c => some (c, Control.loop))
          ((server.closeConnection l false { c with data := some l, readBuffer := r.1 }).bind
            fun c => some (c, Control.loop)) :=
        rel_bind (closeConnection_cut l false _) fun _ _ h => .some ⟨rfl, h⟩
      split_ifs
      · exact hclose
      · exact hclose
      · exact .some ⟨rfl, .whole (closeCalls_checkMsg _)⟩
      · exact .some ⟨rfl, .whole (closeCalls_checkMsg _)⟩

end TcpServer

/-! ### Sessions with callbacks under way -/

/-- A session together with the calls of `connCloseCallback_` under way, which run on top of what
`control` says. -/
structure Nested extends Session where
  closing : ℕ := 0

/-- An action of a session, or the return of the `connCloseCallback_` started last. -/
inductive NestedAction where
  | act (a : Action)
  | closeReturned

/-- The actions of the loop's thread itself, which waits while a callback runs. -/
def Action.ofLoop : Action → Bool
  | .event .. => true
  | .ret => true
  | _ => false

/-- The calls of the user on the connection. -/
def Action.ofUser : Action → Bool
  | .send _ => true
  | .activeClose => true
  | _ => false

namespace Nested

def step (server : TcpServer) (l : LoopId) (n : Nested) : NestedAction → Option Nested
  | .act a => do
      let s ← n.toSession.step server.cutSource l a
      let started := TcpServer.closeCalls s.conn - TcpServer.closeCalls n.conn
      some { toSession := s, closing := n.closing + started }
  | .closeReturned => some { n with conn := server.closeRest n.conn, closing := n.closing - 1 }

def Legal (n : Nested) : NestedAction → Prop
  | .act a => a.Legal n.toSession ∧ (a.ofLoop = true → n.closing = 0)
  | .closeReturned => 0 < n.closing

end Nested

/-- Runs of a connection that a server has accepted, whose `connCloseCallback_` may use it. -/
def TcpServer.nestedRuns (server : TcpServer) (l : LoopId) : System Nested NestedAction where
  Init n := ∃ time, n = { conn := accepted l time }
  Step n a n' := n.Legal a ∧ n.step server l a = some n'

variable {server : TcpServer} {l : LoopId} {s t : Session} {n n' : Nested} {a : Action}

open TcpServer

/-- A step that stops in a callback has done what the whole step does before it. -/
theorem Session.step_cut (server : TcpServer) (l : LoopId) (s : Session) (a : Action) :
    Option.Rel
      (fun s' t => ∃ d, t = { s' with conn := d } ∧ Cut server (closeCalls s.conn) s'.conn d)
      (s.step server.cutSource l a) (s.step server.source l a) := by
  cases a with
  | activeClose =>
      exact rel_bind (activeClose_cut l s.conn) fun _ _ h => .some ⟨_, rfl, h⟩
  | event revents time script write =>
      unfold step handle
      dsimp only [Option.bind_eq_bind]
      cases (s.conn.report revents).event.handle with
      | none => exact .some ⟨_, rfl, .whole rfl⟩
      | some callback =>
          cases callback with
          | preConnMsgCallback =>
              refine rel_bind (preConnMsgCallback_cut l time script (s.conn.report revents)) ?_
              rintro ⟨c, control⟩ ⟨d, _⟩ ⟨rfl, h⟩
              exact .some ⟨_, rfl, h⟩
          | sendNonblock =>
              refine rel_bind (sendNonblock_cut l write (s.conn.report revents)) ?_
              exact fun _ _ h => .some ⟨_, rfl, h⟩
          | connectCallback => exact .none
  | send str =>
      unfold step
      dsimp only [Option.bind_eq_bind]
      cases hs : s.conn.sendStr str with
      | none => exact .none
      | some c => exact .some ⟨_, rfl, .whole (closeCalls_sendStr hs)⟩
  | ret => exact .some ⟨_, rfl, .whole rfl⟩
  | resolve ok => exact .some ⟨_, rfl, .whole rfl⟩
  | reset => exact .some ⟨_, rfl, .whole rfl⟩

namespace Nested

theorem step_act (h : n.toSession.step server.cutSource l a = some s) :
    n.step server l (.act a) = some
      { toSession := s, closing := n.closing + (closeCalls s.conn - closeCalls n.conn) } := by
  simp only [step, h, Option.bind_eq_bind, Option.bind_some]

/-- An action is carried out, or `connCloseCallback_` takes over before its end. -/
theorem act_cases (h : n.step server l (.act a) = some n') :
    (n.toSession.step server.source l a = some n'.toSession ∧ n'.closing = n.closing) ∨
    (n.toSession.step server.source l a =
        some { n'.toSession with conn := server.closeRest n'.conn } ∧
      n'.closing = n.closing + 1 ∧ n'.conn.writeBuffer.bytes = []) := by
  obtain ⟨s', hs', hn⟩ := Option.bind_eq_some_iff.mp h
  obtain rfl := Option.some.inj hn
  have hcut := Session.step_cut server l n.toSession a
  rw [hs'] at hcut
  cases hstep : n.toSession.step server.source l a with
  | none =>
      rw [hstep] at hcut
      cases hcut
  | some t =>
      rw [hstep, Option.rel_some_some] at hcut
      obtain ⟨d, rfl, hd⟩ := hcut
      rcases hd.cases with ⟨rfl, hk⟩ | ⟨rfl, hk, hb⟩
      · refine Or.inl ⟨rfl, ?_⟩
        dsimp only
        omega
      · refine Or.inr ⟨rfl, ?_, hb⟩
        dsimp only
        omega

/-- An action that a session can take is carried out, or stops in `connCloseCallback_`, whose
return ends it. -/
theorem exists_act (h : s.step server.source l a = some t) (k : ℕ) :
    ({ toSession := s, closing := k } : Nested).step server l (.act a) =
        some { toSession := t, closing := k } ∨
    ∃ n : Nested, n.closing = k + 1 ∧ t = { n.toSession with conn := server.closeRest n.conn } ∧
      ({ toSession := s, closing := k } : Nested).step server l (.act a) = some n := by
  have hcut := Session.step_cut server l s a
  rw [h] at hcut
  cases hs : s.step server.cutSource l a with
  | none =>
      rw [hs] at hcut
      cases hcut
  | some s' =>
      rw [hs, Option.rel_some_some] at hcut
      obtain ⟨d, rfl, hd⟩ := hcut
      simp only [step, hs, Option.bind_eq_bind, Option.bind_some, Option.some.injEq]
      rcases hd.cases with ⟨rfl, hk⟩ | ⟨rfl, hk, hb⟩
      · refine Or.inl ?_
        rw [hk, Nat.sub_self, Nat.add_zero]
      · refine Or.inr ⟨_, ?_, rfl, rfl⟩
        rw [hk, Nat.add_sub_cancel_left]

theorem step_send {str : List Byte} (hstr : str ≠ []) :
    n.step server l (.act (.send str)) = some { n with conn := n.conn.queue str } := by
  rw [step_act (Session.step_send hstr)]
  have hcalls : closeCalls (n.conn.queue str) = closeCalls n.conn := rfl
  rw [hcalls, Nat.sub_self, Nat.add_zero]

/-- What is left are the changes on the kernel's side. -/
theorem eq_of_kernel (huser : a.ofUser = false) (hloop : a.ofLoop = false)
    (h : n.step server l (.act a) = some n') :
    n' = { n with attempt := n'.attempt, soError := n'.soError } := by
  have hclosing : n.closing + (closeCalls n.conn - closeCalls n.conn) = n.closing := by
    rw [Nat.sub_self, Nat.add_zero]
  cases a with
  | resolve ok =>
      obtain rfl := Option.some.inj h
      rw [hclosing]
  | reset =>
      obtain rfl := Option.some.inj h
      rw [hclosing]
  | send str => cases huser
  | activeClose => cases huser
  | event revents time script write => cases hloop
  | ret => cases hloop

/-- Nobody else touches a destroyed connection. -/
theorem kernel_of_destroyed (hl : a.Legal s) (hd : s.conn.destroys ≠ 0) :
    a.ofUser = false ∧ a.ofLoop = false := by
  cases a with
  | resolve ok => exact ⟨rfl, rfl⟩
  | reset => exact ⟨rfl, rfl⟩
  | send str => exact absurd hl.1 hd
  | activeClose => exact absurd hl hd
  | event revents time script write => exact absurd hl.1 hd
  | ret => exact absurd hl.1 hd

theorem act_activeClose (h : n.step server l (.act .activeClose) = some n') :
    n'.conn.writeBuffer = n.conn.writeBuffer ∧ (n.conn.writeBuffer.bytes ≠ [] →
      n'.conn.destroys = n.conn.destroys ∧ n'.closing = n.closing) := by
  have hbuffer : ∀ {u : Session}, n.toSession.step server.source l .activeClose = some u →
      u.conn.writeBuffer = n.conn.writeBuffer ∧
        (n.conn.writeBuffer.bytes ≠ [] → u.conn.destroys = n.conn.destroys) := by
    intro u hu
    obtain ⟨c, hc, hu⟩ := Option.bind_eq_some_iff.mp hu
    obtain rfl := Option.some.inj hu
    obtain ⟨-, rfl⟩ | ⟨hb, rfl⟩ := closeWith_cases (closeConnection_eq hc)
    · exact ⟨rfl, fun _ => rfl⟩
    · exact ⟨rfl, fun hne => absurd hb hne⟩
  rcases act_cases h with ⟨ht, hc⟩ | ⟨ht, -, hb⟩
  · exact ⟨(hbuffer ht).1, fun hne => ⟨(hbuffer ht).2 hne, hc⟩⟩
  · have hw : n'.conn.writeBuffer = n.conn.writeBuffer := by
      rw [← (hbuffer ht).1]
      exact writeBuffer_closeRest.symm
    refine ⟨hw, fun hne => ?_⟩
    rw [← hw, hb] at hne
    exact absurd rfl hne

/-- While a callback runs the loop waits: something is sent, or nothing is done to the buffer, and
nothing else is done to a connection with unsent bytes. -/
theorem act_of_closing (hpos : 0 < n.closing) (hl : n.Legal (.act a))
    (h : n.step server l (.act a) = some n') :
    (∃ str, a = .send str ∧ str ≠ [] ∧ n' = { n with conn := n.conn.queue str }) ∨
    (n'.conn.writeBuffer = n.conn.writeBuffer ∧ (n.conn.writeBuffer.bytes ≠ [] →
      n'.conn.destroys = n.conn.destroys ∧ n'.closing = n.closing)) := by
  have hloop : a.ofLoop = false := Bool.eq_false_iff.mpr fun h => hpos.ne' (hl.2 h)
  cases a with
  | send str =>
      rw [step_send hl.1.2] at h
      exact Or.inl ⟨str, rfl, hl.1.2, (Option.some.inj h).symm⟩
  | activeClose => exact Or.inr (act_activeClose h)
  | resolve ok =>
      rw [eq_of_kernel rfl rfl h]
      exact Or.inr ⟨rfl, fun _ => ⟨rfl, rfl⟩⟩
  | reset =>
      rw [eq_of_kernel rfl rfl h]
      exact Or.inr ⟨rfl, fun _ => ⟨rfl, rfl⟩⟩
  | event revents time script write => cases hloop
  | ret => cases hloop

end Nested

/-! ### A callback that makes no calls -/

/-- While `connCloseCallback_` runs, the user makes no calls. -/
def Silent (n : Nested) (a : NestedAction) : Prop :=
  0 < n.closing → ∀ b, a = .act b → b.ofUser = false

namespace TcpServer

/-- The state that the session of `n` is in when the callbacks under way have returned. -/
def Returned (server : TcpServer) (l : LoopId) (n : Nested) : Prop :=
  (n.closing = 0 ∧ Reachable (server.runs l) n.toSession) ∨
    (n.closing = 1 ∧ Reachable (server.runs l) { n.toSession with conn := server.closeRest n.conn })

theorem returned_step {a : NestedAction} (h : Returned server l n)
    (hs : ((server.nestedRuns l).guarded Silent).Step n a n') : Returned server l n' := by
  obtain ⟨⟨hl, hs⟩, hsilent⟩ := hs
  cases a with
  | closeReturned =>
      obtain rfl := Option.some.inj hs
      rcases h with ⟨h0, -⟩ | ⟨h1, hr⟩
      · exact absurd h0 (Nat.pos_iff_ne_zero.mp hl)
      · refine Or.inl ⟨?_, hr⟩
        show n.closing - 1 = 0
        rw [h1]
  | act a =>
      rcases h with ⟨h0, hr⟩ | ⟨h1, hr⟩
      · rcases Nested.act_cases hs with ⟨ht, hc⟩ | ⟨ht, hc, -⟩
        · exact Or.inl ⟨hc.trans h0, hr.step ⟨hl.1, ht⟩⟩
        · refine Or.inr ⟨?_, hr.step ⟨hl.1, ht⟩⟩
          rw [hc, h0]
      · -- the kernel alone moves
        have hpos : 0 < n.closing := by omega
        have huser := hsilent hpos a rfl
        have hloop : a.ofLoop = false := Bool.eq_false_iff.mpr fun h => hpos.ne' (hl.2 h)
        refine Or.inr ⟨?_, ?_⟩
        · rw [Nested.eq_of_kernel huser hloop hs]
          exact h1
        cases a with
        | resolve ok =>
            obtain rfl := Option.some.inj hs
            exact hr.step (a := .resolve ok) ⟨hl.1, rfl⟩
        | reset =>
            obtain rfl := Option.some.inj hs
            exact hr.step (a := .reset) ⟨hl.1, rfl⟩
        | send str => cases huser
        | activeClose => cases huser
        | event revents time script write => cases hloop
        | ret => cases hloop

/-- The runs of `TcpServer.runs` are those in which `connCloseCallback_` makes no calls on the
connection, seen while it does not run. -/
theorem reachable_iff_silent :
    Reachable (server.runs l) s ↔
      Reachable ((server.nestedRuns l).guarded Silent) { toSession := s } := by
  constructor
  · intro h
    induction h with
    | init hi =>
        obtain ⟨time, rfl⟩ := hi
        exact .init ⟨time, rfl⟩
    | @step s t a _ hs ih =>
        obtain ⟨hl, hs⟩ := hs
        have hlegal : Nested.Legal { toSession := s } (.act a) := ⟨hl, fun _ => rfl⟩
        have hsilent : Silent { toSession := s } (.act a) := fun h => absurd h (Nat.lt_irrefl 0)
        rcases Nested.exists_act hs 0 with hn | ⟨n, h1, rfl, hn⟩
        · exact ih.step ⟨⟨hlegal, hn⟩, hsilent⟩
        · have hr := ih.step ⟨⟨hlegal, hn⟩, hsilent⟩
          have hret : (server.nestedRuns l).Step n .closeReturned
              { toSession := { n.toSession with conn := server.closeRest n.conn } } := by
            refine ⟨?_, ?_⟩
            · show 0 < n.closing
              omega
            · show some _ = some _
              rw [h1]
          exact hr.step ⟨hret, fun _ b hb => by cases hb⟩
  · intro h
    have hret : Returned server l { toSession := s } := by
      refine h.invariant ?_ fun n a n' => returned_step
      rintro _ ⟨time, rfl⟩
      exact Or.inl ⟨rfl, .init ⟨time, rfl⟩⟩
    rcases hret with ⟨-, hr⟩ | ⟨h1, -⟩
    · exact hr
    · cases h1

end TcpServer

/-! ### A callback that sends nothing -/

/-- While `connCloseCallback_` runs, nothing is sent. -/
def SendsNothing (n : Nested) (a : NestedAction) : Prop :=
  0 < n.closing → ∀ str, a ≠ .act (.send str)

/-- What was handed to the socket and what is still in the buffer is what was sent, the buffer holds
something exactly while writable events are asked for and flush it, and a destroyed connection has
written everything. -/
def TcpConnection.Delivered (c : TcpConnection) : Prop :=
  c.written ++ c.writeBuffer.bytes = c.sent ∧
    (c.writeBuffer.bytes ≠ [] ↔
      c.event.isWritable = true ∧ c.event.writeCallback = some .sendNonblock) ∧
    (0 < c.destroys → c.writeBuffer.bytes = [] ∧ c.written = c.sent)

theorem TcpConnection.Delivering.delivered {c : TcpConnection} (h : c.Delivering) :
    c.Delivered := by
  refine ⟨h.conserved, ⟨?_, ?_⟩, ?_⟩
  · intro hne
    have hw := h.watched.mp hne
    exact ⟨hw, h.flushed hw⟩
  · rintro ⟨hw, -⟩
    exact h.watched.mpr hw
  · intro hpos
    have hb := h.destroyed hpos
    refine ⟨hb, ?_⟩
    have hc := h.conserved
    rwa [hb, List.append_nil] at hc

namespace TcpServer

variable {c : TcpConnection}

/-- What follows the callback changes nothing that delivery speaks of. -/
theorem delivering_closeRest (hb : c.writeBuffer.bytes = []) :
    (server.closeRest c).Delivering ↔ c.Delivering := by
  have hset : ∀ (state : State) (destroys deletes : ℕ),
      ({ c with state, destroys, deletes } : TcpConnection).Delivering ↔ c.Delivering :=
    fun _ _ _ => ⟨
      fun h => ⟨⟨h.wired.plain, h.wired.readCallback, h.wired.writeCallback⟩, h.conserved,
        h.watched, h.flushed, fun _ => hb⟩,
      fun h => ⟨⟨h.wired.plain, h.wired.readCallback, h.wired.writeCallback⟩, h.conserved,
        h.watched, h.flushed, fun _ => hb⟩⟩
  unfold closeRest
  split_ifs
  · exact hset _ _ _
  · exact hset _ _ _

/-- The invariant of `TcpServer.runs`, and a callback runs on an empty buffer. -/
structure NestedDelivering (n : Nested) : Prop where
  delivering : n.conn.Delivering
  empty : 0 < n.closing → n.conn.writeBuffer.bytes = []

theorem nestedDelivering_step {a : NestedAction} (h : NestedDelivering n)
    (hs : ((server.nestedRuns l).guarded SendsNothing).Step n a n') : NestedDelivering n' := by
  obtain ⟨⟨hl, hs⟩, hsends⟩ := hs
  cases a with
  | closeReturned =>
      obtain rfl := Option.some.inj hs
      have hb := h.empty hl
      refine ⟨(delivering_closeRest hb).mpr h.delivering, fun _ => ?_⟩
      show (server.closeRest n.conn).writeBuffer.bytes = []
      rw [writeBuffer_closeRest]
      exact hb
  | act a =>
      rcases Nested.act_cases hs with ⟨ht, hc⟩ | ⟨ht, -, hb⟩
      · refine ⟨delivering_step h.delivering ⟨hl.1, ht⟩, fun hpos => ?_⟩
        rw [hc] at hpos
        have hb := h.empty hpos
        rcases Nested.act_of_closing hpos hl hs with ⟨str, rfl, -⟩ | ⟨hw, -⟩
        · exact absurd rfl (hsends hpos str)
        · rw [hw]
          exact hb
      · have hd := @delivering_step server l _ _ _ h.delivering ⟨hl.1, ht⟩
        exact ⟨(delivering_closeRest hb).mp hd, fun _ => hb⟩

theorem nestedDelivering_of_reachable
    (h : Reachable ((server.nestedRuns l).guarded SendsNothing) n) : NestedDelivering n := by
  refine h.invariant ?_ fun _ _ _ => nestedDelivering_step
  rintro _ ⟨time, rfl⟩
  exact ⟨.accepted l time, fun hpos => absurd hpos (Nat.lt_irrefl 0)⟩

/-- There are unsent bytes with `k` callbacks under way; the first to return destroys them. -/
structure Stranded (k : ℕ) (n : Nested) : Prop where
  unsent : n.conn.writeBuffer.bytes ≠ []
  closing : n.closing ≤ k
  destroyed : n.closing < k → 0 < n.conn.destroys

theorem stranded_step {k : ℕ} (hk : 0 < k) {a : NestedAction} (h : Stranded k n)
    (hs : (server.nestedRuns l).Step n a n') : Stranded k n' := by
  obtain ⟨hl, hs⟩ := hs
  cases a with
  | closeReturned =>
      obtain rfl := Option.some.inj hs
      refine ⟨?_, (Nat.sub_le _ _).trans h.closing, fun _ => ?_⟩
      · show (server.closeRest n.conn).writeBuffer.bytes ≠ []
        rw [writeBuffer_closeRest]
        exact h.unsent
      · show 0 < (server.closeRest n.conn).destroys
        rw [destroys_closeRest]
        exact Nat.succ_pos _
  | act a =>
      by_cases hpos : 0 < n.closing
      · rcases Nested.act_of_closing hpos hl hs with ⟨str, rfl, hstr, rfl⟩ | ⟨hw, hrest⟩
        · exact ⟨bytes_queue_ne_nil hstr, h.closing, h.destroyed⟩
        · obtain ⟨hd, hc⟩ := hrest h.unsent
          refine ⟨by rw [hw]; exact h.unsent, hc.trans_le h.closing, fun hlt => ?_⟩
          rw [hd]
          exact h.destroyed (hc ▸ hlt)
      · -- the connection is destroyed, and only the kernel acts on it
        have hd : 0 < n.conn.destroys := h.destroyed (by omega)
        obtain ⟨huser, hloop⟩ := Nested.kernel_of_destroyed hl.1 hd.ne'
        rw [Nested.eq_of_kernel huser hloop hs]
        exact ⟨h.unsent, h.closing, h.destroyed⟩

/-- **Delivery**: the runs of a server connection whose `connCloseCallback_` sends nothing deliver
what is sent.  Whatever that callback sends is never written: the connection is destroyed with it
as soon as the callback returns. -/
theorem delivery (server : TcpServer) (l : LoopId) (n : Nested) :
    (Reachable ((server.nestedRuns l).guarded SendsNothing) n → n.conn.Delivered) ∧
      ∀ str t, 0 < n.closing → (server.nestedRuns l).Step n (.act (.send str)) t →
        ∀ as u, Path (server.nestedRuns l) t as u → u.conn.writeBuffer.bytes ≠ [] ∧
          (u.closing < n.closing → 0 < u.conn.destroys ∧ ¬ u.conn.Delivered) := by
  refine ⟨fun h => (nestedDelivering_of_reachable h).delivering.delivered, ?_⟩
  intro str t hpos hs as u hpath
  obtain ⟨hl, hs⟩ := hs
  rw [Nested.step_send hl.1.2] at hs
  obtain rfl := Option.some.inj hs
  have ht : Stranded n.closing { n with conn := n.conn.queue str } :=
    ⟨bytes_queue_ne_nil hl.1.2, le_refl _, fun hlt => absurd hlt (Nat.lt_irrefl _)⟩
  have hu := hpath.invariant (fun _ _ _ => stranded_step hpos) ht
  refine ⟨hu.unsent, fun hlt => ⟨hu.destroyed hlt, fun hdel => ?_⟩⟩
  exact hu.unsent (hdel.2.2 (hu.destroyed hlt)).1

/-- A server that waits for more data after every read and has a `connCloseCallback_`. -/
def farewell : TcpServer := ⟨fun b => (false, b), false, true, false⟩

/-- Two bytes are sent and one is written, the peer closes, and the other byte is written: the
callback is running now. -/
def flushedClose : List NestedAction :=
  [.act (.send [1, 2]), .act (.event { EPOLLOUT := true } 0 [] (.accepted 1)),
    .act (.event { EPOLLIN := true } 0 [.data []] (.accepted 0)),
    .act (.event { EPOLLOUT := true } 0 [] (.accepted 1))]

theorem path_flushedClose : ∃ n : Nested, Path ((farewell.nestedRuns 0).guarded SendsNothing)
    { conn := accepted 0 0 } flushedClose n ∧ n.closing = 1 ∧ n.conn.destroys = 0 ∧
      n.conn.sent = [1, 2] ∧ n.conn.writeBuffer.bytes = [] := by
  -- half of the buffer is written
  let c₁ := ((accepted 0 0).queue [1, 2]).report { EPOLLOUT := true }
  have hb₁ : c₁.writeBuffer.bytes = [1, 2] := ValidBuffer.bytes_append (.make _) [1, 2]
  obtain ⟨rest, hrest, hpart⟩ := @sendNonblock_part c₁ farewell.cutSource 0 1 (by rw [hb₁]; decide)
  rw [hb₁] at hrest
  -- the end of the file comes before the other half
  let c₂ := (c₁.wrote rest 1).report { EPOLLIN := true }
  obtain ⟨readBuffer, hread⟩ := @preConnMsgCallbackCut_of_nonpos farewell 0 c₂ 0 [.data []]
    (by decide) (by decide)
  have hb₂ : c₂.writeBuffer.bytes = [2] := hrest
  have hdefer := hread _ (closeConnectionCut_of_unsent rfl (by
    show c₂.writeBuffer.bytes ≠ []
    rw [hb₂]
    decide))
  let c₃ := { c₂ with data := some 0, readBuffer }.deferClose.report { EPOLLOUT := true }
  have hb₃ : c₃.writeBuffer.bytes = [2] := hrest
  obtain ⟨rest', hrest', hflush⟩ := @sendNonblock_last c₃ farewell.cutSource 0 1
    (by rw [hb₃]; rfl) rfl
  have hclose : c₃.sendNonblock farewell.cutSource 0 (.accepted 1) =
      some (((c₃.wrote rest' 1).unwatch.log .closeConnection).log .connCloseCallback) :=
    hflush.trans (activeCloseCut_of_empty rfl rfl rfl hrest')
  have hidle : ∀ {n : Nested} {a : NestedAction}, n.closing = 0 → SendsNothing n a :=
    fun h0 hpos => absurd h0 hpos.ne'
  refine ⟨_, .cons ⟨⟨⟨⟨rfl, by decide⟩, nofun⟩, Nested.step_act (Session.step_send (by decide))⟩,
      hidle rfl⟩
    (.cons ⟨⟨⟨?_, fun _ => rfl⟩, Nested.step_act (Session.step_write rfl hpart)⟩, hidle rfl⟩
    (.cons ⟨⟨⟨?_, fun _ => rfl⟩, Nested.step_act (Session.step_read rfl hdefer)⟩, hidle rfl⟩
    (.cons ⟨⟨⟨?_, fun _ => rfl⟩, Nested.step_act (Session.step_write rfl hclose)⟩,
      hidle rfl⟩ (.nil _)))), rfl, rfl, rfl, hrest'⟩
  · refine Session.legal_write rfl rfl rfl rfl trivial ?_
    show 1 ≤ c₁.writeBuffer.bytes.length
    rw [hb₁]
    decide
  · exact Session.legal_read rfl rfl rfl rfl (by decide)
  · refine Session.legal_write rfl rfl rfl rfl trivial ?_
    show 1 ≤ c₃.writeBuffer.bytes.length
    rw [hb₃]
    decide

/-- In that run the bytes are delivered when the callback returns.  If it sends one more, the
connection is destroyed with it. -/
theorem delivery_flushedClose : ∃ n t u v : Nested,
    Path (farewell.nestedRuns 0) { conn := accepted 0 0 } flushedClose n ∧
      (farewell.nestedRuns 0).Step n .closeReturned t ∧ t.conn.Delivered ∧
      t.conn.written = [1, 2] ∧ (farewell.nestedRuns 0).Step n (.act (.send [3])) u ∧
      (farewell.nestedRuns 0).Step u .closeReturned v ∧ 0 < v.conn.destroys ∧
      ¬ v.conn.Delivered := by
  obtain ⟨n, hpath, h1, hd, hsent, -⟩ := path_flushedClose
  have hpos : 0 < n.closing := by omega
  have hn : Reachable ((farewell.nestedRuns 0).guarded SendsNothing) n :=
    hpath.reachable (.init ⟨0, rfl⟩)
  have ht : (farewell.nestedRuns 0).Step n .closeReturned _ := ⟨hpos, rfl⟩
  have hdel := (delivery farewell 0 _).1
    (hn.step (a := .closeReturned) ⟨ht, fun _ _ h => by cases h⟩)
  -- the byte that the callback sends
  have hlegal : n.Legal (.act (.send [3])) := ⟨⟨hd, by decide⟩, nofun⟩
  have hu : (farewell.nestedRuns 0).Step n (.act (.send [3])) { n with conn := n.conn.queue [3] } :=
    ⟨hlegal, Nested.step_send (by decide)⟩
  have hv : (farewell.nestedRuns 0).Step { n with conn := n.conn.queue [3] } .closeReturned _ :=
    ⟨hpos, rfl⟩
  have hlost := (delivery farewell 0 n).2 [3] _ hpos hu [.closeReturned] _ (.cons hv (.nil _))
  refine ⟨n, _, _, _, hpath.of_guarded, ht, hdel, ?_, hu, hv, hlost.2 ?_⟩
  · exact (hdel.2.2 (Nat.succ_pos _)).2.trans hsent
  · show n.closing - 1 < n.closing
    omega

/-- The peer closes, and the callback sends a byte. -/
def lastWord : List NestedAction :=
  [.act (.event { EPOLLIN := true } 0 [.data []] (.accepted 0)), .act (.send [1]), .closeReturned]

/-- The byte is not written: the connection is destroyed with it in the buffer and writable events
asked for. -/
theorem last_word_lost : ∃ n : Nested,
    Path (farewell.nestedRuns 0) { conn := accepted 0 0 } lastWord n ∧ 0 < n.conn.destroys ∧
      0 < n.conn.deletes ∧ n.conn.sent = [1] ∧ n.conn.written = [] ∧
      n.conn.writeBuffer.bytes = [1] ∧ n.conn.event.isWritable = true ∧ ¬ n.conn.Delivered := by
  let c₀ := (accepted 0 0).report { EPOLLIN := true }
  obtain ⟨readBuffer, hread⟩ := @preConnMsgCallbackCut_of_nonpos farewell 0 c₀ 0 [.data []]
    (by decide) (by decide)
  have hclose := hread _ (closeConnectionCut_of_empty rfl rfl rfl)
  have hbytes : ((ValidBuffer.make IO_BUFFER_SIZE).append [1]).bytes = [1] :=
    ValidBuffer.bytes_append (.make _) [1]
  have hlegal : (Action.event { EPOLLIN := true } 0 [.data []] (.accepted 0)).Legal
      { conn := accepted 0 0 } := Session.legal_read rfl rfl rfl rfl (by decide)
  refine ⟨_, .cons ⟨⟨hlegal, fun _ => rfl⟩, Nested.step_act (Session.step_read rfl hclose)⟩
    (.cons ⟨⟨⟨rfl, by decide⟩, nofun⟩, Nested.step_send (by decide)⟩
      (.cons ⟨Nat.one_pos, rfl⟩ (.nil _))), Nat.one_pos, Nat.one_pos, rfl, rfl, hbytes, rfl, ?_⟩
  intro hdel
  have hnil := (hdel.2.2 Nat.one_pos).1
  exact absurd (hbytes.symm.trans hnil) (by decide)

end TcpServer

end Dagger

import Dagger.ServerStep

/-! # Accepting a connection

`acceptCallback` runs on the main thread and hands the new connection to a helper's loop, which
may report its events as soon as `setReadable(true)` is done.  `connEstaCallback_` is called
after that, so a message or the end of the file can overtake it.

An `Accepting` is the connection's session on its owner's thread together with the main thread;
`established_before_use` proves the order the callbacks should have in the runs in which the
owner's first reads wait for the main thread. -/

namespace Dagger

open TcpConnection Transition

/-- Where the main thread stands in `acceptCallback` with a new connection. -/
inductive MainPc where
  /-- The event and the connection are made. -/
  | created
  | callbackSet
  /-- Reads are asked for. -/
  | readable
  | connEstaCallback
  /-- The main thread turns to the next connection. -/
  | done
deriving DecidableEq, Repr

def MainPc.BeforeEsta : MainPc → Prop
  | .connEstaCallback => False
  | .done => False
  | _ => True

structure Accepting where
  session : Session
  main : MainPc := .created
  /-- The main thread used the connection after it was destroyed. -/
  fault : Bool := false

namespace Accepting

inductive Act where
  | setReadCallback
  | setReadable
  /-- `if (connEstaCallback_) connEstaCallback_(newConn)`, up to the user's code. -/
  | connEstaCallback
  /-- `connEstaCallback_` sends on the connection. -/
  | send (str : List Byte)
  /-- `connEstaCallback_` uses the connection in another way; to close it on this thread fails
  the assertion of `closeConnection`. -/
  | use
  /-- `connEstaCallback_` returns. -/
  | ret
  /-- A step of the owner's thread, or of the kernel. -/
  | owner (a : Action)

/-- The main thread uses the connection, leaves it as `c` and goes on at `main`. -/
def touch (c : TcpConnection) (main : MainPc) (s : Accepting) : Accepting :=
  if 0 < s.session.conn.destroys then { s with fault := true }
  else { s with session := { s.session with conn := c }, main }

def step (server : TcpServer) (l : LoopId) (s : Accepting) : Act → Option Accepting
  | .setReadCallback =>
      let c := s.session.conn
      some (s.touch { c with event := c.event.setReadCallback .preConnMsgCallback } .callbackSet)
  | .setReadable =>
      let c := s.session.conn
      some (s.touch { c with event := c.event.setReadable true } .readable)
  | .connEstaCallback =>
      if server.connEstaCallback then
        some (s.touch (s.session.conn.log .connEstaCallback) .connEstaCallback)
      else some { s with main := .done }
  | .send str => do
      let c ← s.session.conn.sendStr str
      some (s.touch c s.main)
  | .use => some (s.touch s.session.conn s.main)
  | .ret => some { s with main := .done }
  | .owner a => do
      let session ← s.session.step server.source l a
      some { s with session }

/-- The user has been handed the connection. -/
def Known (s : Accepting) : Prop :=
  Call.connEstaCallback ∈ s.session.conn.calls ∨ Call.connMsgCallback ∈ s.session.conn.calls

def Act.Legal (s : Accepting) : Act → Prop
  | .setReadCallback => s.main = .created
  | .setReadable => s.main = .callbackSet
  | .connEstaCallback => s.main = .readable
  | .send str => s.main = .connEstaCallback ∧ str ≠ []
  | .use => s.main = .connEstaCallback
  | .ret => s.main = .connEstaCallback
  | .owner a => a.Legal s.session ∧ ((∃ str, a = .send str) ∨ a = .activeClose → s.Known)

/-- The connection that `acceptCallback` makes; nothing is asked of its event yet. -/
def made (l : LoopId) (lastReceiveTime : UInt32) : TcpConnection where
  loop := l
  lastReceiveTime := lastReceiveTime

/-- The interleavings of the main thread with loop `l`; nothing is said about what follows a
fault. -/
def system (server : TcpServer) (l : LoopId) : Transition.System Accepting Act where
  Init s := ∃ time, s = { session := { conn := made l time } }
  Step s a t := s.fault = false ∧ a.Legal s ∧ s.step server l a = some t

/-- The owner's thread delivers no message before `connEstaCallback_` is called, and destroys
nothing before it has returned. -/
def OwnerWaits (server : TcpServer) (s : Accepting) (a : Act) : Prop :=
  server.connEstaCallback = true → ∀ b, a = .owner b →
    (s.main.BeforeEsta → ¬ s.session.DeliversMessage server.codec b) ∧
      (s.main ≠ .done → ¬ TcpServer.Destroys s.session b)

/-- `connEstaCallback_` comes before every message and before `connCloseCallback_`. -/
def EstaFirst (calls : List Call) : Prop :=
  ∀ pre post call, calls = pre ++ call :: post →
    call = .connMsgCallback ∨ call = .connCloseCallback → Call.connEstaCallback ∈ pre

theorem estaFirst_of_notMem {calls : List Call} (hm : Call.connMsgCallback ∉ calls)
    (hc : Call.connCloseCallback ∉ calls) : EstaFirst calls := by
  rintro pre post call rfl (rfl | rfl)
  · exact absurd (List.mem_append_right pre List.mem_cons_self) hm
  · exact absurd (List.mem_append_right pre List.mem_cons_self) hc

/-- What follows `connEstaCallback_` does not matter. -/
theorem EstaFirst.append {calls : List Call} (h : EstaFirst calls)
    (hesta : Call.connEstaCallback ∈ calls) (more : List Call) : EstaFirst (calls ++ more) := by
  intro pre post call he hcall
  rcases List.append_eq_append_iff.mp he with ⟨rest, rfl, -⟩ | ⟨rest, hcalls, hrest⟩
  · exact List.mem_append_left rest hesta
  · cases rest with
    | nil =>
        rw [List.append_nil] at hcalls
        rw [← hcalls]
        exact hesta
    | cons c rest =>
        obtain ⟨rfl, -⟩ := List.cons.inj hrest
        exact h pre rest _ hcalls hcall

/-! ### Before the connection is readable -/

/-- The owner's loop has nothing to do with the connection yet. -/
structure Hidden (s : Session) : Prop where
  control : s.control = .loop
  calls : s.conn.calls = []
  destroys : s.conn.destroys = 0
  plain : s.conn.event.Plain
  notReadable : s.conn.event.isReadable = false
  notWritable : s.conn.event.isWritable = false
  writeCallback : s.conn.event.writeCallback = none

variable {server : TcpServer} {l : LoopId} {s t : Accepting} {a : Act} {u v : Session} {b : Action}

/-- The owner's thread can only store the flags of reports. -/
theorem Hidden.step (h : Hidden u) (hl : b.Legal u) (hsend : ∀ str, b ≠ .send str)
    (hclose : b ≠ .activeClose) (hs : u.step server.source l b = some v) :
    Hidden v ∧ v.conn.event.readCallback = u.conn.event.readCallback := by
  cases b with
  | send str => exact absurd rfl (hsend str)
  | activeClose => exact absurd rfl hclose
  | ret => exact absurd h.control hl.2
  | resolve ok =>
      obtain rfl := Option.some.inj hs
      exact ⟨⟨h.control, h.calls, h.destroys, h.plain, h.notReadable, h.notWritable,
        h.writeCallback⟩, rfl⟩
  | reset =>
      obtain rfl := Option.some.inj hs
      exact ⟨⟨h.control, h.calls, h.destroys, h.plain, h.notReadable, h.notWritable,
        h.writeCallback⟩, rfl⟩
  | event revents time script write =>
      have hnone : (u.conn.report revents).event.handle = none := by
        by_contra hne
        obtain ⟨callback, hh⟩ := Option.ne_none_iff_exists'.mp hne
        rcases Event.handle_cases h.plain hl.2.2.interest hh with ⟨hr, -⟩ | ⟨hw, -⟩
        · rw [h.notReadable] at hr
          cases hr
        · rw [h.notWritable] at hw
          cases hw
      simp only [Session.step, Session.handle, hnone, Option.some.injEq] at hs
      obtain rfl := hs
      exact ⟨⟨h.control, h.calls, h.destroys, h.plain.setRevents, h.notReadable, h.notWritable,
        h.writeCallback⟩, rfl⟩

/-! ### The invariant -/

structure Safe (server : TcpServer) (s : Accepting) : Prop where
  hidden : s.main = .created ∨ s.main = .callbackSet → Hidden s.session
  callbackSet : s.main = .callbackSet →
    s.session.conn.event.readCallback = some .preConnMsgCallback
  wired : s.main ≠ .created → s.main ≠ .callbackSet → s.session.conn.Wired
  set : s.main = .connEstaCallback → server.connEstaCallback = true
  alive : server.connEstaCallback = true → s.main ≠ .done → s.session.conn.destroys = 0
  fresh : server.connEstaCallback = true → s.main.BeforeEsta →
    Call.connMsgCallback ∉ s.session.conn.calls ∧ Call.connCloseCallback ∉ s.session.conn.calls
  told : server.connEstaCallback = true → ¬ s.main.BeforeEsta →
    Call.connEstaCallback ∈ s.session.conn.calls
  first : server.connEstaCallback = true → EstaFirst s.session.conn.calls
  fault : s.fault = false

theorem touch_of_alive {c : TcpConnection} {main : MainPc} (h : s.session.conn.destroys = 0) :
    s.touch c main = { s with session := { s.session with conn := c }, main } := by
  unfold touch
  rw [if_neg (by omega)]

/-- The connection is still hidden after the step. -/
theorem Safe.of_hidden (h : Hidden s.session)
    (hmain : s.main = .created ∨ s.main = .callbackSet ∧
      s.session.conn.event.readCallback = some .preConnMsgCallback)
    (hf : s.fault = false) : Safe server s := by
  have hcalls : ∀ call, call ∉ s.session.conn.calls := by
    intro call
    rw [h.calls]
    exact List.not_mem_nil
  refine ⟨fun _ => h, fun hm => ?_, fun h1 h2 => ?_, fun hm => ?_, fun _ _ => h.destroys,
    fun _ _ => ⟨hcalls _, hcalls _⟩, fun _ hb => ?_,
    fun _ => estaFirst_of_notMem (hcalls _) (hcalls _), hf⟩
  · rcases hmain with hc | hc
    · rw [hm] at hc
      cases hc
    · exact hc.2
  · exact absurd hmain (not_or.mpr ⟨h1, fun hc => h2 hc.1⟩)
  · rcases hmain with hc | hc
    · rw [hm] at hc
      cases hc
    · rw [hm] at hc
      cases hc.1
  · refine absurd ?_ hb
    rcases hmain with hc | hc
    · rw [hc]
      trivial
    · rw [hc.1]
      trivial

theorem step_owner (h : s.session.step server.source l b = some v) :
    s.step server l (.owner b) = some { s with session := v } := by
  simp only [step, h, Option.bind_eq_bind, Option.bind_some]

theorem safe_owner (h : Safe server s)
    (hs : ((system server l).guarded (OwnerWaits server)).Step s (.owner b) t) :
    Safe server t := by
  obtain ⟨⟨-, ⟨hl, hknown⟩, hs⟩, hguard⟩ := hs
  obtain ⟨v, hv, hs⟩ := Option.bind_eq_some_iff.mp hs
  obtain rfl := Option.some.inj hs
  by_cases hm : s.main = .created ∨ s.main = .callbackSet
  · have hh := h.hidden hm
    have hn : ¬ s.Known := by
      unfold Known
      rw [hh.calls]
      simp
    obtain ⟨hv', hrc⟩ := hh.step hl (fun str hb => hn (hknown (Or.inl ⟨str, hb⟩)))
      (fun hb => hn (hknown (Or.inr hb))) hv
    refine .of_hidden hv' ?_ h.fault
    rcases hm with hm | hm
    · exact Or.inl hm
    · exact Or.inr ⟨hm, hrc.trans (h.callbackSet hm)⟩
  · obtain ⟨h1, h2⟩ := not_or.mp hm
    have hw := h.wired h1 h2
    have hspec := TcpServer.step_spec hw hl hv
    obtain ⟨more, hcalls, -, hmsg, hclose⟩ := hspec.calls
    -- neither callback is among the new calls
    have hfresh : server.connEstaCallback = true → s.main.BeforeEsta →
        Call.connMsgCallback ∉ v.conn.calls ∧ Call.connCloseCallback ∉ v.conn.calls := by
      intro hset hb
      have hd : s.main ≠ .done := by
        intro hd
        rw [hd] at hb
        exact hb
      obtain ⟨hdeliver, hdestroy⟩ := hguard hset b rfl
      obtain ⟨hm1, hm2⟩ := h.fresh hset hb
      rw [hcalls, List.mem_append, List.mem_append]
      constructor
      · rintro (hin | hin)
        · exact hm1 hin
        · exact hdeliver hb (hmsg hin)
      · rintro (hin | hin)
        · exact hm2 hin
        · exact hdestroy hd (hclose hin)
    refine ⟨fun hc => absurd hc hm, fun hc => absurd hc h2,
      fun _ _ => TcpServer.wired_step hw hl hv, h.set, fun hset hd => ?_, hfresh,
      fun hset hb => ?_, fun hset => ?_, h.fault⟩
    · have hk := hspec.kept ((hguard hset b rfl).2 hd)
      exact hk.1.trans (h.alive hset hd)
    · rw [hcalls]
      exact List.mem_append_left more (h.told hset hb)
    · by_cases hb : s.main.BeforeEsta
      · exact estaFirst_of_notMem (hfresh hset hb).1 (hfresh hset hb).2
      · rw [hcalls]
        exact (h.first hset).append (h.told hset hb) more

theorem safe_setReadable (h : Safe server s) (hm : s.main = .callbackSet)
    (hs : s.step server l .setReadable = some t) : Safe server t := by
  have hh := h.hidden (Or.inr hm)
  simp only [step, touch_of_alive hh.destroys] at hs
  obtain rfl := Option.some.inj hs
  have hcalls : ∀ call, call ∉ s.session.conn.calls := by
    intro call
    rw [hh.calls]
    exact List.not_mem_nil
  have hslot : s.session.conn.event.writeCallback ≠ some .preConnMsgCallback := by
    rw [hh.writeCallback]
    exact nofun
  exact ⟨by simp, nofun, fun _ _ => ⟨hh.plain.setReadable, h.callbackSet hm, hslot⟩, nofun,
    fun _ _ => hh.destroys, fun _ _ => ⟨hcalls _, hcalls _⟩, fun _ hb => absurd trivial hb,
    fun _ => estaFirst_of_notMem (hcalls _) (hcalls _), h.fault⟩

theorem safe_connEstaCallback (h : Safe server s) (hm : s.main = .readable)
    (hs : s.step server l .connEstaCallback = some t) : Safe server t := by
  have hw : s.session.conn.Wired := h.wired (by rw [hm]; decide) (by rw [hm]; decide)
  unfold step at hs
  dsimp only at hs
  split_ifs at hs with hset
  · have hd : s.session.conn.destroys = 0 := h.alive hset (by rw [hm]; decide)
    rw [touch_of_alive hd] at hs
    obtain rfl := Option.some.inj hs
    have hb : s.main.BeforeEsta := by
      rw [hm]
      trivial
    obtain ⟨hm1, hm2⟩ := h.fresh hset hb
    refine ⟨by simp, nofun, fun _ _ => ⟨hw.plain, hw.readCallback, hw.writeCallback⟩,
      fun _ => hset, fun _ _ => hd, fun _ hb => absurd hb id, fun _ _ => ?_, fun _ => ?_, h.fault⟩
    · exact List.mem_append_right _ List.mem_cons_self
    · apply estaFirst_of_notMem
      · simp [log, hm1]
      · simp [log, hm2]
  · obtain rfl := Option.some.inj hs
    exact ⟨by simp, nofun, fun _ _ => hw, nofun, fun hset' => absurd hset' hset,
      fun hset' => absurd hset' hset, fun hset' => absurd hset' hset,
      fun hset' => absurd hset' hset, h.fault⟩

/-- While the user's code runs the connection is there. -/
theorem Safe.callback (h : Safe server s) (hm : s.main = .connEstaCallback) :
    server.connEstaCallback = true ∧ s.session.conn.destroys = 0 ∧ s.session.conn.Wired := by
  have hset := h.set hm
  exact ⟨hset, h.alive hset (by rw [hm]; decide), h.wired (by rw [hm]; decide) (by rw [hm]; decide)⟩

theorem safe_step (h : Safe server s)
    (hs : ((system server l).guarded (OwnerWaits server)).Step s a t) : Safe server t := by
  cases a with
  | owner b => exact safe_owner h hs
  | setReadCallback =>
      obtain ⟨⟨-, hm, hs⟩, -⟩ := hs
      have hm : s.main = .created := hm
      have hh := h.hidden (Or.inl hm)
      simp only [step, touch_of_alive hh.destroys] at hs
      obtain rfl := Option.some.inj hs
      refine .of_hidden ?_ (Or.inr ⟨rfl, rfl⟩) h.fault
      exact ⟨hh.control, hh.calls, hh.destroys, hh.plain.setReadCallback, hh.notReadable,
        hh.notWritable, hh.writeCallback⟩
  | setReadable =>
      obtain ⟨⟨-, hm, hs⟩, -⟩ := hs
      exact safe_setReadable h hm hs
  | connEstaCallback =>
      obtain ⟨⟨-, hm, hs⟩, -⟩ := hs
      exact safe_connEstaCallback h hm hs
  | send str =>
      obtain ⟨⟨-, ⟨hm, hstr⟩, hs⟩, -⟩ := hs
      obtain ⟨hset, hd, hw⟩ := h.callback hm
      simp only [step, sendStr_eq hstr, Option.bind_eq_bind, Option.bind_some,
        touch_of_alive hd] at hs
      obtain rfl := Option.some.inj hs
      exact ⟨fun hc => absurd hc (by rw [hm]; simp), fun hc => absurd hc (by rw [hm]; simp),
        fun _ _ => hw.queue str, fun _ => hset, fun _ _ => hd, h.fresh, h.told, h.first, h.fault⟩
  | use =>
      obtain ⟨⟨-, hm, hs⟩, -⟩ := hs
      obtain ⟨-, hd, -⟩ := h.callback hm
      simp only [step, touch_of_alive hd] at hs
      obtain rfl := Option.some.inj hs
      exact h
  | ret =>
      obtain ⟨⟨-, hm, hs⟩, -⟩ := hs
      have hm : s.main = .connEstaCallback := hm
      obtain ⟨hset, -, hw⟩ := h.callback hm
      obtain rfl := Option.some.inj hs
      have htold := h.told hset (by rw [hm]; exact id)
      exact ⟨by simp, nofun, fun _ _ => hw, nofun, fun _ hd => absurd rfl hd,
        fun _ hb => absurd hb id, fun _ _ => htold, h.first, h.fault⟩

theorem safe_of_reachable (h : Reachable ((system server l).guarded (OwnerWaits server)) s) :
    Safe server s := by
  apply h.invariant
  · rintro _ ⟨time, rfl⟩
    refine .of_hidden ?_ (Or.inl rfl) rfl
    exact ⟨rfl, rfl, rfl, ⟨rfl, rfl, rfl, rfl, rfl⟩, rfl, rfl, rfl⟩
  · intro s a t
    exact safe_step

/-- **`connEstaCallback_` comes first** on an accepted connection, and the main thread never uses
a connection that was destroyed, in every run in which the owner's thread delivers no message
before `connEstaCallback_` is called and destroys nothing before it has returned. -/
theorem established_before_use
    (h : Reachable ((system server l).guarded (OwnerWaits server)) s) :
    s.fault = false ∧ (server.connEstaCallback = true → EstaFirst s.session.conn.calls) :=
  ⟨(safe_of_reachable h).fault, (safe_of_reachable h).first⟩

/-! ### Two runs -/

/-- A server that waits for more data after every read, and has all callbacks but the message
callback. -/
def greeting : TcpServer := ⟨fun b => (false, b), true, true, false⟩

/-- The connection after `setReadable(true)`. -/
def published : Accepting where
  session := { conn := TcpServer.accepted 0 0 }
  main := .readable

/-- The main thread asks for reads before anything is reported. -/
theorem published_path (server : TcpServer) : Path ((system server 0).guarded (OwnerWaits server))
    { session := { conn := made 0 0 } } [.setReadCallback, .setReadable] published := by
  refine .cons ⟨⟨rfl, rfl, rfl⟩, ?_⟩ (.cons ⟨⟨rfl, rfl, rfl⟩, ?_⟩ (.nil _))
  · intro _ b hb
    cases hb
  · intro _ b hb
    cases hb

/-- A server that delivers a message for every read, and has all callbacks. -/
def talking : TcpServer := ⟨fun b => (true, b), true, true, false⟩

/-- While `connEstaCallback_` runs, the owner's thread delivers a message; when it has returned, the
owner's thread meets the end of the file. -/
def messageAndClose : List Act :=
  [.setReadCallback, .setReadable, .connEstaCallback,
    .owner (.event { EPOLLIN := true } 0 [.data [7]] (.accepted 0)), .use, .owner .ret, .ret,
    .owner (.event { EPOLLIN := true } 0 [.data []] (.accepted 0))]

/-- Every step of that run waits as it should. -/
theorem path_messageAndClose : ∃ s, Path ((system talking 0).guarded (OwnerWaits talking))
    { session := { conn := made 0 0 } } messageAndClose s ∧
      s.session.conn.calls =
        [.connEstaCallback, .connMsgCallback, .closeConnection, .connCloseCallback] ∧
      s.session.conn.destroys = 1 := by
  let c₀ := (TcpServer.accepted 0 0).log .connEstaCallback
  let d₀ := c₀.report { EPOLLIN := true }
  obtain ⟨rb, -, hmsg⟩ := @TcpServer.preConnMsgCallback_of_pos talking 0 0 [.data [7]] d₀
    (by decide) (by decide)
  let c₁ := log { d₀ with data := some 0, readBuffer := rb } .connMsgCallback
  let d₁ := c₁.report { EPOLLIN := true }
  obtain ⟨rb', heof⟩ : ∃ readBuffer : ValidBuffer IO_BUFFER_SIZE,
      talking.preConnMsgCallback 0 0 [.data []] d₁ =
        some (closeNow true true { d₁ with data := some 0, readBuffer }, .loop) :=
    TcpServer.preConnMsgCallback_of_nonpos (by decide) (by decide) rfl
  let c₂ := closeNow true true { d₁ with data := some 0, readBuffer := rb' }
  let during (session : Session) : Accepting := { session, main := .connEstaCallback }
  let after (session : Session) : Accepting := { session, main := .done }
  have hmain : ∀ {s : Accepting} {a : Act}, (∀ b, a ≠ .owner b) → OwnerWaits talking s a :=
    fun hne _ b hb => absurd hb (hne b)
  have hread₁ : ((system talking 0).guarded (OwnerWaits talking)).Step (during { conn := c₀ })
      (.owner (.event { EPOLLIN := true } 0 [.data [7]] (.accepted 0)))
      (during { conn := c₁, control := .connMsgCallback }) := by
    have hstep : Session.step talking.source 0 { conn := c₀ }
        (.event { EPOLLIN := true } 0 [.data [7]] (.accepted 0)) =
          some { conn := c₁, control := .connMsgCallback } := Session.step_read rfl hmsg
    refine ⟨⟨rfl, ⟨?_, ?_⟩, step_owner hstep⟩, ?_⟩
    · exact Session.legal_read rfl rfl rfl rfl (by decide)
    · exact fun _ => Or.inl (List.mem_singleton.mpr rfl)
    · rintro - b hb
      obtain rfl := Act.owner.inj hb
      refine ⟨fun h => absurd h id, ?_⟩
      rintro - (⟨-, hle, -⟩ | ⟨hh, -⟩)
      · exact absurd hle (by decide)
      · exact absurd hh (by decide)
  have hret : ((system talking 0).guarded (OwnerWaits talking)).Step
      (during { conn := c₁, control := .connMsgCallback }) (.owner .ret)
      (during { conn := c₁ }) := by
    have hstep : Session.step talking.source 0 { conn := c₁, control := .connMsgCallback } .ret =
        some { conn := c₁ } := Session.step_ret rfl
    refine ⟨⟨rfl, ⟨⟨rfl, fun h => by cases h⟩, ?_⟩, step_owner hstep⟩, ?_⟩
    · exact fun _ => Or.inl List.mem_cons_self
    · rintro - b hb
      obtain rfl := Act.owner.inj hb
      exact ⟨fun h => absurd h id, fun _ h => h⟩
  have hread₂ : ((system talking 0).guarded (OwnerWaits talking)).Step (after { conn := c₁ })
      (.owner (.event { EPOLLIN := true } 0 [.data []] (.accepted 0))) (after { conn := c₂ }) := by
    have hstep : Session.step talking.source 0 { conn := c₁ }
        (.event { EPOLLIN := true } 0 [.data []] (.accepted 0)) = some { conn := c₂ } :=
      Session.step_read rfl heof
    refine ⟨⟨rfl, ⟨?_, ?_⟩, step_owner hstep⟩, ?_⟩
    · exact Session.legal_read rfl rfl rfl rfl (by decide)
    · exact fun _ => Or.inl List.mem_cons_self
    · rintro - b hb
      exact ⟨fun h => absurd h id, fun h => absurd rfl h⟩
  refine ⟨after { conn := c₂ }, (published_path talking).append ?_, rfl, rfl⟩
  have hstart : ((system talking 0).guarded (OwnerWaits talking)).Step published .connEstaCallback
      (during { conn := c₀ }) :=
    ⟨⟨rfl, rfl, rfl⟩, hmain fun _ h => by cases h⟩
  have huse : ((system talking 0).guarded (OwnerWaits talking)).Step
      (during { conn := c₁, control := .connMsgCallback }) .use
      (during { conn := c₁, control := .connMsgCallback }) :=
    ⟨⟨rfl, rfl, rfl⟩, hmain fun _ h => by cases h⟩
  have hdone : ((system talking 0).guarded (OwnerWaits talking)).Step (during { conn := c₁ }) .ret
      (after { conn := c₁ }) :=
    ⟨⟨rfl, rfl, rfl⟩, hmain fun _ h => by cases h⟩
  exact .cons hstart (.cons hread₁ (.cons huse (.cons hret (.cons hdone (.cons hread₂ (.nil _))))))

/-- The callbacks come in order, and the main thread uses a live connection. -/
theorem established_before_use_messageAndClose : ∃ s : Accepting,
    Path (system talking 0) { session := { conn := made 0 0 } } messageAndClose s ∧
      s.session.conn.calls =
        [.connEstaCallback, .connMsgCallback, .closeConnection, .connCloseCallback] ∧
      s.session.conn.destroys = 1 ∧ s.fault = false ∧ EstaFirst s.session.conn.calls := by
  obtain ⟨s, hpath, hcalls, hd⟩ := path_messageAndClose
  obtain ⟨hfault, hfirst⟩ := established_before_use (hpath.reachable (.init ⟨0, rfl⟩))
  exact ⟨s, hpath.of_guarded, hcalls, hd, hfault, hfirst rfl⟩

/-- The peer closes right after the accept: the end of the file is handled before the main
thread calls `connEstaCallback_`. -/
def earlyClose : List Act :=
  [.setReadCallback, .setReadable, .owner (.event { EPOLLIN := true } 0 [.data []] (.accepted 0)),
    .connEstaCallback]

/-- In this run `connCloseCallback_` comes without `connEstaCallback_`, which the main thread then
calls on the destroyed connection. -/
theorem closed_before_established : ∃ s, Path (system greeting 0)
    { session := { conn := made 0 0 } } earlyClose s ∧ s.fault = true ∧
      ¬ EstaFirst s.session.conn.calls := by
  let c₀ := (TcpServer.accepted 0 0).report { EPOLLIN := true }
  obtain ⟨rb, hread⟩ : ∃ readBuffer : ValidBuffer IO_BUFFER_SIZE,
      greeting.preConnMsgCallback 0 0 [.data []] c₀ =
        some (closeNow true true { c₀ with data := some 0, readBuffer }, .loop) :=
    TcpServer.preConnMsgCallback_of_nonpos (by decide) (by decide) rfl
  have hread' : Session.step greeting.source 0 { conn := TcpServer.accepted 0 0 }
      (.event { EPOLLIN := true } 0 [.data []] (.accepted 0)) =
        some { conn := closeNow true true { c₀ with data := some 0, readBuffer := rb } } :=
    Session.step_read rfl hread
  refine ⟨_, .cons ⟨rfl, rfl, rfl⟩ (.cons ⟨rfl, rfl, rfl⟩ (.cons ⟨rfl, ⟨?_, ?_⟩, step_owner hread'⟩
    (.cons ⟨rfl, rfl, rfl⟩ (.nil _)))), rfl, ?_⟩
  · exact Session.legal_read rfl rfl rfl rfl (by decide)
  · rintro (⟨str, hb⟩ | hb)
    · cases hb
    · cases hb
  · intro hfirst
    have hesta := hfirst [.closeConnection] [] .connCloseCallback rfl (Or.inr rfl)
    simp at hesta

end Accepting

end Dagger

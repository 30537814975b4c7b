import Dagger.Link

/-! # The echo server

The server of `examples/ping-pong/server.cpp`: its message callback sends what has arrived and
retrieves it.  The calls that a callback makes follow each other on the loop's thread, so the
handling of an event and the callback are one step here; as steps of the link they are a path
(`serve_cases`), and what holds of the link holds of the echo server.

`echo_in_order` is about any client: whatever it does, it gets back what it sent. -/

namespace Dagger

open TcpConnection Transition

namespace Link

section Defs

variable (client : TcpClient) (server : TcpServer) (l : End → LoopId) (s : Link)

/-- The calls of `whenMsgArrived` at end `e`, and its return. -/
def whenMsgArrived (e : End) : List Act :=
  [.act e (.send (s.conn e).readBuffer.bytes), .retrieve e (s.conn e).readBuffer.readableBytes,
    .act e .ret]

/-- `handle()` at end `e`, with the message callback that it may lead to. -/
def serve (e : End) (revents : EpollFlags) (timeInProcess : UInt32) (script : List ReadResult)
    (write : WriteResult) : Option Link := do
  let s ← s.next client server l (.act e (.event revents timeInProcess script write))
  if (s.ends e).session.control = .connMsgCallback then
    (s.whenMsgArrived e).foldlM (next client server l) s
  else some s

/-- The event may be reported.  A read that meets no error and no end of the file brings bytes: the
callback would send nothing, which `send` asserts against. -/
structure Serves (e : End) (revents : EpollFlags) (timeInProcess : UInt32)
    (script : List ReadResult) (write : WriteResult) : Prop where
  legal : (Act.act e (.event revents timeInProcess script write)).Legal s
  brings : 0 < Buffer.readReturn script → Buffer.received 4096 script ≠ []

/-- A link after the message callback of end `e`. -/
def echoed (e : End) (rest : ValidBuffer IO_BUFFER_SIZE) : Link :=
  let bs := (s.conn e).readBuffer.bytes
  let conn := { (s.conn e).queue bs with readBuffer := rest }
  let session := { (s.ends e).session with conn, control := .loop }
  let retrieved := (s.ends e).retrieved ++ bs
  { s with ends := s.setEnd e { s.ends e with session, retrieved } }

end Defs

variable {client : TcpClient} {server : TcpServer} {l : End → LoopId} {s t : Link} {e : End}

/-! ### The callback -/

theorem callbackReturned_message (c : TcpConnection) :
    (source client server e).callbackReturned (l e) .connMsgCallback c = some c := by
  cases e <;> rfl

/-- The callback sends the bytes that have arrived and leaves none in the buffer. -/
theorem path_whenMsgArrived (hctl : (s.ends e).session.control = .connMsgCallback)
    (hd : (s.conn e).destroys = 0) (hne : (s.conn e).readBuffer.bytes ≠ []) :
    ∃ rest : ValidBuffer IO_BUFFER_SIZE, rest.bytes = [] ∧
      (s.whenMsgArrived e).foldlM (next client server l) s = some (s.echoed e rest) ∧
      Path (system client server l) s (s.whenMsgArrived e) (s.echoed e rest) := by
  have hlen : (s.conn e).readBuffer.readableBytes = (s.conn e).readBuffer.bytes.length :=
    ValidBuffer.readableBytes_eq _
  obtain ⟨rest, p, hret, hrest⟩ := ValidBuffer.retrieve_of_le hlen.le
  let sent := (s.ends e).session
  let s₁ : Link := { s with ends := s.setEnd e { s.ends e with
    session := { sent with conn := (s.conn e).queue (s.conn e).readBuffer.bytes } } }
  let s₂ : Link := { s with ends := s.setEnd e { s.ends e with
    session := { sent with
      conn := { (s.conn e).queue (s.conn e).readBuffer.bytes with readBuffer := rest } }
    retrieved := (s.ends e).retrieved ++ (s.conn e).readBuffer.bytes } }
  have h1 : s.next client server l (.act e (.send (s.conn e).readBuffer.bytes)) = some s₁ :=
    next_of_quiet (Session.step_send hne) rfl rfl rfl
  have h2 :
      s₁.next client server l (.retrieve e (s.conn e).readBuffer.readableBytes) = some s₂ := by
    have hret' : (s₁.ends e).session.conn.readBuffer.retrieve
        (s.conn e).readBuffer.readableBytes = some (rest, p) := by
      simp only [s₁, setEnd_self]
      exact hret
    simp only [next, hret', Option.bind_eq_bind, Option.bind_some]
    simp only [s₁, s₂, setEnd, Function.update_self, Function.update_idem, queue, sent, hlen]
    rw [List.take_length]
  have hs₂ : s₂.ends e = _ := setEnd_self
  have h3 : s₂.next client server l (.act e .ret) = some (s.echoed e rest) := by
    have hstep : (s₂.ends e).session.step (source client server e) (l e) .ret =
        some { (s₂.ends e).session with control := .loop } := by
      refine Session.step_ret ?_
      rw [hs₂]
      exact hctl ▸ callbackReturned_message _
    rw [next_of_quiet hstep rfl rfl rfl, hs₂]
    simp only [s₂, echoed, setEnd, Function.update_idem, sent]
  refine ⟨rest, ?_, ?_, ?_⟩
  · rw [hrest, hlen, List.drop_length]
  · simp only [whenMsgArrived, List.foldlM_cons, List.foldlM_nil, h1, h2, h3, Option.bind_eq_bind,
      Option.bind_some, Option.pure_def]
  · have hs₁ : s₁.ends e = _ := setEnd_self
    refine .cons ⟨⟨⟨hd, hne⟩, by simp, arrives_of_quiet rfl rfl⟩, h1⟩
      (.cons ⟨⟨?_, ?_⟩, h2⟩ (.cons ⟨⟨⟨?_, ?_⟩, by simp, arrives_of_quiet rfl rfl⟩, h3⟩ (.nil _)))
    · show (s₁.ends e).session.conn.destroys = 0
      rw [hs₁]
      exact hd
    · show _ ≤ (s₁.ends e).session.conn.readBuffer.bytes.length
      rw [hs₁]
      exact hlen.le
    · rw [hs₂]
      exact hd
    · rw [hs₂]
      show (s.ends e).session.control ≠ .loop
      rw [hctl]
      decide

/-- An event that leads to a message. -/
theorem serve_of_message {revents : EpollFlags} {time : UInt32} {script : List ReadResult}
    {write : WriteResult}
    (h : s.next client server l (.act e (.event revents time script write)) = some t)
    (hctl : (t.ends e).session.control = .connMsgCallback) (hd : (t.conn e).destroys = 0)
    (hne : (t.conn e).readBuffer.bytes ≠ []) :
    ∃ rest : ValidBuffer IO_BUFFER_SIZE, rest.bytes = [] ∧
      s.serve client server l e revents time script write = some (t.echoed e rest) := by
  obtain ⟨rest, hrest, hrun, -⟩ := @path_whenMsgArrived client server l t e hctl hd hne
  refine ⟨rest, hrest, ?_⟩
  unfold serve
  rw [h, Option.bind_eq_bind, Option.bind_some, if_pos hctl, hrun]

/-- An event without a message is done when its handler returns. -/
theorem serve_of_loop {revents : EpollFlags} {time : UInt32} {script : List ReadResult}
    {write : WriteResult}
    (h : s.next client server l (.act e (.event revents time script write)) = some t)
    (hctl : (t.ends e).session.control = .loop) :
    s.serve client server l e revents time script write = some t := by
  unfold serve
  rw [h, Option.bind_eq_bind, Option.bind_some, hctl]
  rfl

/-- What the callback leaves behind. -/
theorem echoed_of_ends {p : Peer} {bs : List Byte} {rest : ValidBuffer IO_BUFFER_SIZE}
    (hp : s.ends e = p) (hbs : p.session.conn.readBuffer.bytes = bs) :
    s.echoed e rest = ⟨s.setEnd e { p with
      session := { p.session with
        conn := { p.session.conn.queue bs with readBuffer := rest }, control := .loop }
      retrieved := p.retrieved ++ bs }, s.pipes⟩ := by
  subst hp hbs
  rfl

/-! ### The event -/

def codec (client : TcpClient) (server : TcpServer) :
    End → ValidBuffer IO_BUFFER_SIZE → Bool × ValidBuffer IO_BUFFER_SIZE
  | .client => client.codec
  | .server => server.codec

/-- Every read that brings something is a message. -/
def Unlimited (client : TcpClient) (server : TcpServer) (e : End) : Prop :=
  codec client server e = ValidBuffer.check .UNLIMITED_MODEL 0

theorem received_of_nonpos {maxBytes : ℕ} {script : List ReadResult} (hmax : 0 < maxBytes)
    (h : Buffer.readReturn script ≤ 0) : Buffer.received maxBytes script = [] := by
  match script with
  | [] => rfl
  | .error _ :: _ => rfl
  | .data bs :: _ =>
      have hlen : (bs.length : ℤ) ≤ 0 := h
      have hbs : bs = [] := List.eq_nil_of_length_eq_zero (by omega)
      subst hbs
      rw [Buffer.received, if_neg (by simp only [List.length_nil]; omega)]
      rfl

section read

variable {c c' : TcpConnection} {time : UInt32} {script : List ReadResult} {control : Control}

theorem source_message (l : End → LoopId) (time : UInt32) (c : TcpConnection)
    (hu : Unlimited client server e) (hd : Buffer.Deliverable 4096 script)
    (hpos : 0 < Buffer.readReturn script) :
    ∃ (readBuffer : ValidBuffer IO_BUFFER_SIZE) (data : Option LoopId) (last : UInt32),
      readBuffer.bytes = c.readBuffer.bytes ++ Buffer.received 4096 script ∧
      (source client server e).preConnMsgCallback (l e) time script c =
        some (log { c with readBuffer, data, lastReceiveTime := last } .connMsgCallback,
          .connMsgCallback) := by
  cases e with
  | client =>
      obtain ⟨readBuffer, hr, h⟩ := client.preConnMsgCallback_of_pos (c := c) hd hpos
      have hcodec : client.codec = ValidBuffer.check .UNLIMITED_MODEL 0 := hu
      rw [hcodec] at h
      exact ⟨readBuffer, _, _, hr, h⟩
  | server =>
      obtain ⟨readBuffer, hr, h⟩ :=
        @TcpServer.preConnMsgCallback_of_pos server (l .server) time script c hd hpos
      have hcodec : server.codec = ValidBuffer.check .UNLIMITED_MODEL 0 := hu
      rw [hcodec] at h
      exact ⟨readBuffer, _, _, hr, h⟩

theorem source_stopped (hn : Buffer.readReturn script ≤ 0) (hd : Buffer.Deliverable 4096 script)
    (h : (source client server e).preConnMsgCallback (l e) time script c = some (c', control)) :
    control ≠ .connMsgCallback := by
  obtain ⟨b, hb, -⟩ := ValidBuffer.readFromSocket_of_deliverable (b := c.readBuffer) hd
  cases e with
  | client =>
      obtain ⟨readBuffer, n, hr, hcase⟩ := TcpClient.preConnMsgCallback_cases h
      rw [hb] at hr
      obtain ⟨-, rfl⟩ := Prod.mk.inj (Option.some.inj hr)
      rcases hcase with ⟨-, rfl, -⟩ | ⟨-, -, rfl, -⟩ | ⟨hpos, -⟩ | ⟨hpos, -⟩
      · exact nofun
      · exact nofun
      · exact absurd hpos (not_lt.mpr hn)
      · exact absurd hpos (not_lt.mpr hn)
  | server =>
      obtain ⟨readBuffer, n, last, hr, hcase⟩ := TcpServer.preConnMsgCallback_cases h
      rw [hb] at hr
      obtain ⟨-, rfl⟩ := Prod.mk.inj (Option.some.inj hr)
      rcases hcase with ⟨-, rfl, -⟩ | ⟨hpos, -⟩ | ⟨hpos, -⟩
      · exact nofun
      · exact absurd hpos (not_lt.mpr hn)
      · exact absurd hpos (not_lt.mpr hn)

end read

section event

variable {session session' : Session} {revents : EpollFlags} {time : UInt32}
  {script : List ReadResult} {write : WriteResult}

theorem readBytes_of_handle {callback : Option Callback}
    (hh : (session.conn.report revents).event.handle = callback)
    (hne : callback ≠ some .preConnMsgCallback) :
    session.readBytes (.event revents time script write) = [] :=
  if_neg (hh ▸ hne)

/-- An event calls the message callback exactly when it brings bytes. -/
theorem event_cases (hu : Unlimited client server e) (hw : session.conn.Wired)
    (hl : (Action.event revents time script write).Legal session)
    (hb : 0 < Buffer.readReturn script → Buffer.received 4096 script ≠ [])
    (h : session.step (source client server e) (l e) (.event revents time script write) =
      some session') :
    (session'.control ≠ .connMsgCallback ∧
        session.readBytes (.event revents time script write) = []) ∨
      (session'.control = .connMsgCallback ∧ session'.conn.destroys = 0 ∧
        session.readBytes (.event revents time script write) ≠ []) := by
  obtain ⟨hd, hctl, hrep⟩ := hl
  have hloop : session.control ≠ .connMsgCallback := by
    rw [hctl]
    exact nofun
  rcases Session.event_cases hw hrep.interest h with
    ⟨hh, rfl⟩ | ⟨hh, hc, -⟩ | ⟨hh, -, -, -, ht⟩ | ⟨hh, -, -, hc, -⟩
  · exact Or.inl ⟨hloop, readBytes_of_handle hh nofun⟩
  · have hread : session.readBytes (.event revents time script write) =
        Buffer.received 4096 script := if_pos hh
    by_cases hpos : 0 < Buffer.readReturn script
    · obtain ⟨readBuffer, data, last, -, e1⟩ :=
        source_message l time (session.conn.report revents) hu hrep.deliverable hpos
      obtain ⟨hconn, hcontrol⟩ := Prod.mk.inj (Option.some.inj (e1.symm.trans hc))
      refine Or.inr ⟨hcontrol.symm, ?_, hread ▸ hb hpos⟩
      rw [← hconn]
      exact hd
    · have hn : Buffer.readReturn script ≤ 0 := not_lt.mp hpos
      refine Or.inl ⟨source_stopped hn hrep.deliverable hc, ?_⟩
      rw [hread, received_of_nonpos (by decide) hn]
  · refine Or.inl ⟨?_, readBytes_of_handle hh nofun⟩
    rw [ht]
    exact hloop
  · refine Or.inl ⟨?_, readBytes_of_handle hh nofun⟩
    obtain ⟨closeCallback, erase, connects, hreg⟩ := source_regular client server e
    rcases (hreg.connectCallback hc).2 with ⟨-, hcontrol, -⟩ | ⟨-, hcontrol, -⟩ | ⟨-, hcontrol, -⟩
    all_goals
      rw [hcontrol]
      exact nofun

/-- What `serve` comes to: an event that brings nothing, or one with the callback after it. -/
theorem serve_cases (hc : KeepsBytes client.codec) (hs : KeepsBytes server.codec)
    (hu : Unlimited client server e) (hsound : s.Sound)
    (hserves : s.Serves e revents time script write)
    (h : s.serve client server l e revents time script write = some t) :
    ∃ u, (system client server l).Step s (.act e (.event revents time script write)) u ∧
      ((t = u ∧ (u.ends e).session.control ≠ .connMsgCallback ∧
          (s.ends e).session.readBytes (.event revents time script write) = []) ∨
        ∃ rest : ValidBuffer IO_BUFFER_SIZE, rest.bytes = [] ∧ t = u.echoed e rest ∧
          Path (system client server l) u (u.whenMsgArrived e) t ∧
          (s.ends e).session.readBytes (.event revents time script write) ≠ []) := by
  obtain ⟨u, hnext, ht⟩ := Option.bind_eq_some_iff.mp h
  obtain ⟨session, hsession, hu1, -⟩ := next_act_cases hnext
  have hw := (hsound.conserving e).closing.wired
  obtain ⟨closeCallback, erase, connects, hreg⟩ := source_regular client server e
  have hread := Session.readBuffer_step hreg (source_receives hc hs e) hw hserves.legal.1 hsession
  rw [← hu1] at hsession hread
  refine ⟨u, ⟨hserves.legal, hnext⟩, ?_⟩
  rcases event_cases hu hw hserves.legal.1 hserves.brings hsession with ⟨hctl, hr⟩ | ⟨hctl, hd, hr⟩
  · rw [if_neg hctl] at ht
    exact Or.inl ⟨(Option.some.inj ht).symm, hctl, hr⟩
  · have hne : (u.conn e).readBuffer.bytes ≠ [] := by
      unfold conn
      rw [hread]
      exact List.append_ne_nil_of_right_ne_nil _ hr
    obtain ⟨rest, hrest, hrun, hpath⟩ := @path_whenMsgArrived client server l u e hctl hd hne
    rw [if_pos hctl, hrun] at ht
    obtain rfl := Option.some.inj ht
    exact Or.inr ⟨rest, hrest, rfl, hpath, hr⟩

/-- An event changes neither what was sent nor what was retrieved. -/
theorem sent_event {t : Link}
    (h : (system client server l).Step s (.act e (.event revents time script write)) t)
    (hsound : s.Sound) : (t.conn e).sent = (s.conn e).sent ∧
      (t.ends e).retrieved = (s.ends e).retrieved := by
  obtain ⟨hl, ht⟩ := h
  obtain ⟨session', hstep, rfl, hret, -⟩ := next_act_cases ht
  obtain ⟨closeCallback, erase, connects, hreg⟩ := source_regular client server e
  exact ⟨Session.sent_step hreg (hsound.conserving e).closing.wired hl.1 hstep nofun, hret⟩

end event

end Link

/-! ### The server -/

namespace Echo

open Link

/-- The server of `main`; in the default build `idleConnectionsManager` is off. -/
def server (idleConnectionsManager : Bool) : TcpServer :=
  ⟨ValidBuffer.check .UNLIMITED_MODEL 0, false, false, idleConnectionsManager⟩

inductive Act where
  | serve (revents : EpollFlags) (timeInProcess : UInt32) (script : List ReadResult)
      (write : WriteResult)
  /-- The client, or the network. -/
  | other (a : Link.Act)

/-- Neither the server's loop nor its user. -/
def Foreign : Link.Act → Prop
  | .act .client _ | .act .server .reset | .retrieve .client _ | .lose _ => True
  | _ => False

variable (client : TcpClient) (idle : Bool) (l : End → LoopId)

def Step (s : Link) : Act → Link → Prop
  | .serve revents time script write, t => s.Serves .server revents time script write ∧
      s.serve client (server idle) l .server revents time script write = some t
  | .other a, t => Foreign a ∧ (Link.system client (server idle) l).Step s a t

def system : System Link Act where
  Init s := ∃ time, s = Link.start l time
  Step := Step client idle l

/-- The server has sent what it has retrieved, and nothing is left to retrieve. -/
structure Echoing (s : Link) : Prop where
  sent : (s.conn .server).sent = (s.ends .server).retrieved
  empty : (s.conn .server).readBuffer.bytes = []

variable {client idle l} {s t : Link}

theorem unlimited (client : TcpClient) (idle : Bool) : Unlimited client (server idle) .server := rfl

theorem keepsBytes (idle : Bool) : KeepsBytes (server idle).codec := keepsBytes_check 0 nofun

/-- The echo server is one of the link's. -/
theorem simulates_link (hc : KeepsBytes client.codec) :
    Simulation (system client idle l) (Link.system client (server idle) l)
      fun s t => s = t ∧ Reachable (Link.system client (server idle) l) t where
  init := by
    rintro _ ⟨time, rfl⟩
    exact ⟨_, ⟨time, rfl⟩, rfl, .init ⟨time, rfl⟩⟩
  step := by
    rintro s a t _ ⟨rfl, hr⟩ hs
    cases a with
    | other a => exact ⟨[a], t, .cons hs.2 (.nil t), rfl, hr.step hs.2⟩
    | serve revents time script write =>
        have hsound := sound_of_reachable hc (keepsBytes idle) hr
        obtain ⟨u, hu, ⟨rfl, -⟩ | ⟨rest, -, -, hpath, -⟩⟩ :=
          serve_cases hc (keepsBytes idle) (unlimited client idle) hsound hs.1 hs.2
        · exact ⟨_, t, .cons hu (.nil t), rfl, hr.step hu⟩
        · exact ⟨_, t, .cons hu hpath, rfl, hpath.reachable (hr.step hu)⟩

theorem sound_of_reachable (hc : KeepsBytes client.codec)
    (h : Reachable (system client idle l) s) : s.Sound := by
  obtain ⟨_, hr, rfl, -⟩ := (simulates_link hc).reachable h
  exact Link.sound_of_reachable hc (keepsBytes idle) hr

/-- One step of the server's loop, with the callback. -/
theorem echoing_serve (hc : KeepsBytes client.codec) (hsound : s.Sound) (h : Echoing s)
    {revents : EpollFlags} {time : UInt32} {script : List ReadResult} {write : WriteResult}
    (hs : Step client idle l s (.serve revents time script write) t) : Echoing t := by
  obtain ⟨u, hu, hcase⟩ :=
    serve_cases hc (keepsBytes idle) (unlimited client idle) hsound hs.1 hs.2
  obtain ⟨hsent, hret⟩ := sent_event hu hsound
  obtain ⟨session, hstep, rfl, -⟩ := next_act_cases hu.2
  have hread : (u.conn .server).readBuffer.bytes = _ := Session.readBuffer_step
    (server idle).source_regular ((server idle).source_receives (keepsBytes idle))
    (hsound.conserving .server).closing.wired hu.1.1 hstep
  rcases hcase with ⟨rfl, -, hr⟩ | ⟨rest, hrest, rfl, -, -⟩
  · refine ⟨hsent.trans (h.sent.trans hret.symm), ?_⟩
    rw [hread, hr, List.append_nil]
    exact h.empty
  · constructor
    · simp only [conn, echoed, setEnd_self]
      show (u.conn .server).sent ++ _ = (u.ends .server).retrieved ++ _
      rw [hsent, hret, h.sent]
    · simp only [conn, echoed, setEnd_self]
      exact hrest

/-- The client and the network do not touch the server's connection. -/
theorem server_other {a : Link.Act} (hs : Step client idle l s (.other a) t) :
    t.conn .server = s.conn .server ∧ (t.ends .server).retrieved = (s.ends .server).retrieved := by
  obtain ⟨hf, -, ht⟩ := hs
  have hsame : t.ends .server = s.ends .server →
      t.conn .server = s.conn .server ∧
        (t.ends .server).retrieved = (s.ends .server).retrieved := by
    intro he
    unfold conn
    rw [he]
    exact ⟨rfl, rfl⟩
  cases a with
  | act e a =>
      obtain ⟨session, hstep, hsession, hret, hpeer⟩ := next_act_cases ht
      cases e with
      | client => exact hsame hpeer
      | server =>
          cases a with
          | reset =>
              obtain rfl := Option.some.inj hstep
              refine ⟨?_, hret⟩
              unfold conn
              rw [hsession]
          | _ => exact hf.elim
  | retrieve e len =>
      cases e with
      | server => exact hf.elim
      | client => exact hsame (ends_peer_retrieve ht)
  | lose e =>
      obtain rfl := Option.some.inj ht
      exact hsame rfl

theorem echoing_of_reachable (hc : KeepsBytes client.codec)
    (h : Reachable (system client idle l) s) : Echoing s := by
  refine h.invariant_of (fun _ => sound_of_reachable hc) ?_ ?_
  · rintro _ ⟨time, rfl⟩
    exact ⟨rfl, rfl⟩
  · intro s a t hsound h hs
    cases a with
    | serve revents time script write => exact echoing_serve hc hsound h hs
    | other a =>
        obtain ⟨hconn, hret⟩ := server_other hs
        exact ⟨by rw [hconn, hret, h.sent], by rw [hconn, h.empty]⟩

/-- What the client and the network do to the link, they do to the echo server's. -/
theorem path_other {as : List Link.Act} (h : Path (Link.system client (server idle) l) s as t)
    (hf : ∀ a ∈ as, Foreign a) : Path (system client idle l) s (as.map .other) t := by
  induction h with
  | nil s => exact .nil s
  | cons hs _ ih =>
      obtain ⟨ha, hrest⟩ := List.forall_mem_cons.mp hf
      exact .cons ⟨ha, hs⟩ (ih hrest)

/-! ### A byte that goes round -/

/-- The server's connection after it has sent back a byte. -/
def answer (b : Byte) (rest : ValidBuffer IO_BUFFER_SIZE) : TcpConnection :=
  let d := (TcpServer.accepted 0 0).report { EPOLLIN := true }
  { queue [b] (log { d with data := some 0 } .connMsgCallback) with readBuffer := rest }

/-- The server has retrieved one byte; the other direction is empty. -/
def answered (b : Byte) (c d : TcpConnection) (flight : List Byte) : Link where
  ends
    | .client => { session := { conn := c } }
    | .server => { session := { conn := d }, retrieved := [b] }
  pipes
    | .client => {}
    | .server => { flight }

section round

variable {b : Byte} {c : TcpConnection}

theorem step_answer {msg : List Byte} : ∃ rest : ValidBuffer IO_BUFFER_SIZE,
    (system client false fun _ => 0).Step (departed (fun _ => 0) 0 b msg c)
      (.serve { EPOLLIN := true } 0 [.data [b]] (.accepted 0))
      (answered b c (answer b rest) []) := by
  let s := departed (fun _ => 0) 0 b msg c
  let d := TcpServer.accepted 0 0
  have hd : Buffer.Deliverable 4096 [.data [b]] := by simp [Buffer.Deliverable]
  obtain ⟨readBuffer, hread, hmsg⟩ := @TcpServer.preConnMsgCallback_of_pos (server false) 0 0
    [.data [b]] (d.report { EPOLLIN := true }) hd Int.one_pos
  let d₁ := log { d.report { EPOLLIN := true } with data := some 0, readBuffer } .connMsgCallback
  let p : Peer := { session := { conn := d₁, control := .connMsgCallback } }
  let u : Link := ⟨s.setEnd .server p, s.flow .server [] 1⟩
  have hne : reads [b] ≠ .resolve false := fun h => Action.noConfusion h
  have hl : (Link.Act.act .server (reads [b])).Legal s :=
    ⟨Session.legal_read rfl rfl rfl rfl hd, hne, List.prefix_refl _,
      fun h => absurd h Bool.false_ne_true⟩
  have hnext : s.next client (server false) (fun _ => 0) (.act .server (reads [b])) = some u :=
    @next_of_step client (server false) (fun _ => 0) s .server (reads [b]) p.session [] [b] false
      (Session.step_read rfl hmsg) (List.append_nil _).symm rfl rfl
  have hbytes : (u.conn .server).readBuffer.bytes = [b] := hread
  have hsome : (u.conn .server).readBuffer.bytes ≠ [] := by
    rw [hbytes]
    exact List.cons_ne_nil _ _
  obtain ⟨rest, -, hserve⟩ := serve_of_message hnext rfl rfl hsome
  refine ⟨rest, ⟨hl, fun _ => List.cons_ne_nil _ _⟩, hserve.trans (congrArg some ?_)⟩
  rw [echoed_of_ends rfl hbytes]
  exact eq_of_ends rfl rfl (funext fun e => by cases e <;> rfl)

theorem step_writesBack (rest : ValidBuffer IO_BUFFER_SIZE) : ∃ left : ValidBuffer IO_BUFFER_SIZE,
    (system client false fun _ => 0).Step (answered b c (answer b rest) [])
      (.serve { EPOLLOUT := true } 0 [.data []] (.accepted 1))
      (answered b c (((answer b rest).report { EPOLLOUT := true }).wrote left 1).unwatch [b]) := by
  let s := answered b c (answer b rest) []
  let d := (answer b rest).report { EPOLLOUT := true }
  have hd : d.writeBuffer.bytes = [b] := ValidBuffer.bytes_append (.make _) [b]
  have hlen : 1 ≤ d.writeBuffer.bytes.length := by
    rw [hd]
    rfl
  obtain ⟨left, -, hwrite⟩ := @sendNonblock_all d (server false).source 0 1 (by rw [hd]; rfl) rfl
  let p : Peer := { s.ends .server with session := { conn := (d.wrote left 1).unwatch } }
  have hwrote : p.session.conn.written = [b] := by
    show [] ++ d.writeBuffer.bytes.take 1 = [b]
    rw [hd]
    rfl
  have hnext : s.next client (server false) (fun _ => 0) (.act .server writesOne) =
      some ⟨s.setEnd .server p, s.flow .server [b] 0⟩ :=
    @next_of_step client (server false) (fun _ => 0) s .server writesOne p.session [b] [] false
      (Session.step_write rfl hwrite) hwrote rfl rfl
  refine ⟨left, ⟨⟨Session.legal_write rfl rfl rfl rfl (by decide) hlen, nofun, List.nil_prefix,
    nofun⟩, nofun⟩, (serve_of_loop hnext rfl).trans (congrArg some ?_)⟩
  exact eq_of_ends rfl rfl (funext fun e => by cases e <;> rfl)

end round

/-- **Echo**: in every run, what the client has got back is what it has sent, in order and up to
some byte, and the rest is on one of its four ways as long as nothing was lost. -/
theorem echo_in_order (hc : KeepsBytes client.codec) (h : Reachable (system client idle l) s) :
    s.received .client <+: (s.conn .client).sent ∧ ((∀ e, (s.pipes e).broken = false) →
      s.received .client ++ (s.pipes .server).flight ++ (s.conn .server).writeBuffer.bytes ++
        (s.pipes .client).flight ++ (s.conn .client).writeBuffer.bytes =
          (s.conn .client).sent) := by
  have hsound := sound_of_reachable hc h
  have hecho := echoing_of_reachable hc h
  have hback : s.received .server = (s.conn .server).sent := by
    unfold received
    rw [hecho.empty, List.append_nil, hecho.sent]
  obtain ⟨hdown, hdown'⟩ := hsound.arrival .server
  obtain ⟨hup, hup'⟩ := hsound.arrival .client
  simp only [End.peer, hback] at hup hup' hdown hdown'
  refine ⟨hdown.trans hup, fun hb => ?_⟩
  rw [hdown' (hb .server), hup' (hb .client)]

/-- The client sends two bytes, and the first of them has gone round. -/
theorem echo_in_order_back : ∃ s, Reachable (system TcpClient.waiting false fun _ => 0) s ∧
    s.received .client = [1] ∧ (s.conn .client).writeBuffer.bytes = [2] ∧
    s.received .client <+: (s.conn .client).sent ∧
    s.received .client ++ (s.pipes .server).flight ++ (s.conn .server).writeBuffer.bytes ++
      (s.pipes .client).flight ++ (s.conn .client).writeBuffer.bytes = (s.conn .client).sent := by
  let l : End → LoopId := fun _ => 0
  have hne : ([1, 2] : List Byte) ≠ [] := by decide
  have hlink : Path (Link.system TcpClient.waiting (server false) l) (start l 0) _
      (opened l 0 [1, 2]) := path_opened rfl hne 0
  have hopened := path_other hlink (by simp [Foreign])
  let c₀ := (greeted 0 [1, 2]).report { EPOLLOUT := true }
  have hc₀ : c₀.writeBuffer.bytes = [1, 2] := ValidBuffer.bytes_append (.make _) [1, 2]
  obtain ⟨left, hleft, hwrite⟩ := @sendNonblock_part c₀ TcpClient.waiting.source 0 1
    (by rw [hc₀]; decide)
  let c := c₀.wrote left 1
  have hwrote : c.written = [1] := by
    show [] ++ c₀.writeBuffer.bytes.take 1 = [1]
    rw [hc₀]
    rfl
  have h1 : (system TcpClient.waiting false l).Step (opened l 0 [1, 2])
      (.other (.act .client writesOne)) (departed l 0 1 [2] c) :=
    ⟨trivial, step_departed hwrite hwrote⟩
  obtain ⟨rest, h2⟩ := @step_answer TcpClient.waiting 1 c [2]
  obtain ⟨left', h3⟩ := @step_writesBack TcpClient.waiting 1 c rest
  let s := answered 1 c (((answer 1 rest).report { EPOLLOUT := true }).wrote left' 1).unwatch [1]
  have hd : Buffer.Deliverable 4096 [.data [1]] := by decide
  obtain ⟨readBuffer, hread, hreads⟩ := @TcpClient.preConnMsgCallback_of_pos TcpClient.waiting
    [.data [1]] (c.report { EPOLLIN := true }) hd Int.one_pos
  let p : Peer := { session := { conn := { c.report { EPOLLIN := true } with readBuffer } } }
  have h4 : (system TcpClient.waiting false l).Step s (.other (.act .client (reads [1])))
      ⟨s.setEnd .client p, s.flow .client [] 1⟩ :=
    ⟨trivial, step_act (e := .client) (p := s.ends .client) (a := reads [1]) rfl
      (Session.legal_read rfl rfl rfl rfl hd) nofun
      (Session.step_read rfl hreads) (List.append_nil _).symm rfl rfl (List.prefix_refl _) nofun⟩
  have hr := ((((hopened.reachable (.init ⟨0, rfl⟩)).step h1).step h2).step h3).step h4
  obtain ⟨hfirst, hwhole⟩ := echo_in_order (fun _ => rfl) hr
  refine ⟨_, hr, hread, by rw [hc₀] at hleft; exact hleft, hfirst, hwhole fun e => ?_⟩
  cases e <;> rfl

end Echo

end Dagger

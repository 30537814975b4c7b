import Dagger.CloseCallback

/-! # Read errors

The four read callbacks are copies of each other.  When `readFromSocket` fails, the copies of
`TcpServer` and `TcpClient` close the connection; those of `FreeServerClient` leave it open, and
the one of a server port goes on to the codec and calls an error callback that may not be set.

The user's error callback runs in the middle, so a read callback is cut there: what it does
afterwards is asked for every connection that the user may have left. -/

namespace Dagger

open TcpConnection

/-- What has to have happened when a read error has been handled: `calls` are the calls of the
read callback, `c` is the connection it leaves. -/
structure ErrorHandled (errorCallback : Bool) (calls : List Call) (c : TcpConnection) : Prop where
  message : Call.connMsgCallback ∉ calls
  error : Call.connErrorCallback ∈ calls → errorCallback = true
  close : Call.closeConnection ∈ calls
  /-- The event does not ask for reads any more. -/
  unregistered : 0 < c.destroys ∨ c.event.isReadable = false

variable {closeCallback erase : Bool} {c c' : TcpConnection}

/-- A close handles the error. -/
theorem ErrorHandled.closeWith {errorCallback : Bool} {before : List Call}
    (hm : Call.connMsgCallback ∉ before)
    (he : Call.connErrorCallback ∈ before → errorCallback = true)
    (h : c.closeWith closeCallback erase = some c') :
    ∃ after, c'.calls = c.calls ++ after ∧ ErrorHandled errorCallback (before ++ after) c' := by
  obtain ⟨-, rfl⟩ | ⟨-, rfl⟩ := closeWith_cases h
  · refine ⟨[.closeConnection], rfl, ?_, fun hin => ?_, ?_, Or.inr Event.isReadable_wantWrite⟩
    · simp [hm]
    · refine he ?_
      simpa using hin
    · exact List.mem_append_right _ List.mem_cons_self
  · refine ⟨_, rfl, ?_, fun hin => ?_, ?_, Or.inl (Nat.succ_pos _)⟩
    · cases closeCallback <;> simp [hm]
    · refine he ?_
      cases closeCallback <;> simpa using hin
    · exact List.mem_append_right _ List.mem_cons_self

namespace Origin

def source : Origin → TcpSource
  | tcpServer server => server.source
  | tcpClient client => client.source
  | serverPort free => free.portSource
  | clientConn free => free.clientSource

/-- An error callback is set; a `TcpServer` has none. -/
def errorCallback : Origin → Bool
  | tcpServer _ => false
  | tcpClient client => client.connErrorCallback
  | serverPort free => free.errorCallback
  | clientConn free => free.errorCallback

/-- The read callback runs to its end and handles the error, in whatever state the user's error
callback has left the connection. -/
def HandlesReadError (origin : Origin) (l : LoopId) (time : UInt32) (script : List ReadResult)
    (c : TcpConnection) : Prop :=
  ∃ c₁ control before, origin.source.preConnMsgCallback l time script c = some (c₁, control) ∧
    c₁.calls = c.calls ++ before ∧
    ((control = .loop ∧ ErrorHandled origin.errorCallback before c₁) ∨
      (control ≠ .loop ∧ ∀ c₂ : TcpConnection, c₂.destroys = 0 →
        ∃ c₃ after, origin.source.callbackReturned l control c₂ = some c₃ ∧
          c₃.calls = c₂.calls ++ after ∧ ErrorHandled origin.errorCallback (before ++ after) c₃))

/-- The connection belongs to a `TcpServer` or a `TcpClient`. -/
def OfTcp : Origin → Prop
  | tcpServer _ | tcpClient _ => True
  | serverPort _ | clientConn _ => False

/-! ### The copies -/

section Copies

variable {l : LoopId} {time : UInt32} {script : List ReadResult} {n : ℤ}
  {readBuffer : ValidBuffer IO_BUFFER_SIZE}

theorem handlesReadError_tcpServer (server : TcpServer)
    (hread : c.readBuffer.readFromSocket script 4096 = some (readBuffer, n)) (hn : n < 0) :
    (tcpServer server).HandlesReadError l time script c := by
  obtain ⟨c', hc⟩ := exists_closeWith server.connCloseCallback (!server.idleConnectionsManager)
    { c with data := some l, readBuffer }
  obtain ⟨after, hcalls, herr⟩ := @ErrorHandled.closeWith _ _ _ _ false [] nofun nofun hc
  have hclose : server.closeConnection l false { c with data := some l, readBuffer } = some c' :=
    (if_pos ⟨rfl, rfl⟩).trans hc
  refine ⟨c', .loop, after, ?_, hcalls, Or.inl ⟨rfl, herr⟩⟩
  show server.preConnMsgCallback l time script c = _
  unfold TcpServer.preConnMsgCallback
  simp only [hread, hclose, Option.bind_eq_bind, Option.bind_some, Int.ne_of_lt hn, hn, if_false,
    if_true]

theorem handlesReadError_tcpClient (client : TcpClient)
    (hread : c.readBuffer.readFromSocket script 4096 = some (readBuffer, n)) (hn : n < 0) :
    (tcpClient client).HandlesReadError l time script c := by
  by_cases herr : client.connErrorCallback = true
  · refine ⟨log { c with readBuffer } .connErrorCallback, .connErrorCallback,
      [.connErrorCallback], ?_, rfl, Or.inr ⟨by decide, fun c₂ _ => ?_⟩⟩
    · show client.preConnMsgCallback script c = _
      unfold TcpClient.preConnMsgCallback
      simp only [hread, Option.bind_eq_bind, Option.bind_some, Int.ne_of_lt hn, hn, herr, if_false,
        if_true]
    · obtain ⟨c₃, hc⟩ := exists_closeWith client.connCloseCallback true c₂
      obtain ⟨after, hcalls, hhandled⟩ := @ErrorHandled.closeWith _ _ _ _
        client.connErrorCallback [.connErrorCallback] (by decide) (fun _ => herr) hc
      exact ⟨c₃, after, hc, hcalls, hhandled⟩
  · obtain ⟨c', hc⟩ := exists_closeWith client.connCloseCallback true { c with readBuffer }
    obtain ⟨after, hcalls, hhandled⟩ := @ErrorHandled.closeWith _ _ _ _
      client.connErrorCallback [] nofun nofun hc
    have hclose : client.closeConnection false { c with readBuffer } = some c' := hc
    refine ⟨c', .loop, after, ?_, hcalls, Or.inl ⟨rfl, hhandled⟩⟩
    show client.preConnMsgCallback script c = _
    unfold TcpClient.preConnMsgCallback
    simp only [hread, hclose, Option.bind_eq_bind, Option.bind_some, Int.ne_of_lt hn, hn,
      Bool.not_eq_true _ ▸ herr, if_false, if_true, Bool.false_eq_true]

/-- The copy of a server port never closes the connection. -/
theorem not_handlesReadError_serverPort (free : FreeServerClient)
    (hread : c.readBuffer.readFromSocket script 4096 = some (readBuffer, n)) (hn : n < 0) :
    ¬ (serverPort free).HandlesReadError l time script c := by
  rintro ⟨c₁, control, before, hc₁, hbefore, hrest⟩
  have hread' : free.bindCallback script c = some (c₁, control) := hc₁
  unfold FreeServerClient.bindCallback at hread'
  simp only [hread, Option.bind_eq_bind, Option.bind_some, Int.ne_of_lt hn, hn, if_false, if_true]
    at hread'
  split_ifs at hread' with herr
  obtain ⟨rfl, rfl⟩ := Prod.mk.inj (Option.some.inj hread')
  obtain rfl : before = [.connErrorCallback] := (List.append_cancel_left hbefore).symm
  obtain ⟨c₃, after, hc₃, hafter, hhandled⟩ :=
    (hrest.resolve_left fun h => absurd h.1 (by decide)).2 {} rfl
  obtain ⟨⟨c', control⟩, hcheck, rfl⟩ := Option.map_eq_some_iff.mp hc₃
  -- what follows the error callback is the codec's check
  have hcalls : after = [] ∨ after = [.connMsgCallback] := by
    unfold FreeServerClient.check checkMsg at hcheck
    dsimp only at hcheck
    split_ifs at hcheck
    · obtain ⟨rfl, -⟩ := Prod.mk.inj (Option.some.inj hcheck)
      exact Or.inr hafter.symm
    · obtain ⟨rfl, -⟩ := Prod.mk.inj (Option.some.inj hcheck)
      exact Or.inl hafter.symm
  rcases hcalls with rfl | rfl
  · exact absurd hhandled.close (by decide)
  · exact absurd hhandled.close (by decide)

/-- The copy of a client connection does nothing but call the error callback. -/
theorem not_handlesReadError_clientConn (free : FreeServerClient)
    (hread : c.readBuffer.readFromSocket script 4096 = some (readBuffer, n)) (hn : n < 0) :
    ¬ (clientConn free).HandlesReadError l time script c := by
  rintro ⟨c₁, control, before, hc₁, hbefore, hrest⟩
  have hread' : free.preConnMsgCallback script c = some (c₁, control) := hc₁
  unfold FreeServerClient.preConnMsgCallback at hread'
  simp only [hread, Option.bind_eq_bind, Option.bind_some, Int.ne_of_lt hn, hn, if_false, if_true]
    at hread'
  split_ifs at hread' with herr
  · obtain ⟨rfl, rfl⟩ := Prod.mk.inj (Option.some.inj hread')
    obtain rfl : before = [.connErrorCallback] := (List.append_cancel_left hbefore).symm
    obtain ⟨c₃, after, hc₃, hafter, hhandled⟩ :=
      (hrest.resolve_left fun h => absurd h.1 (by decide)).2 {} rfl
    obtain rfl := Option.some.inj hc₃
    obtain rfl : after = [] := hafter.symm
    exact absurd hhandled.close (by decide)
  · obtain ⟨rfl, rfl⟩ := Prod.mk.inj (Option.some.inj hread')
    obtain rfl : before = [] :=
      List.append_cancel_left (hbefore.symm.trans (List.append_nil _).symm)
    rcases hrest with ⟨-, hhandled⟩ | ⟨hne, -⟩
    · exact absurd hhandled.close (by decide)
    · exact hne rfl

end Copies

/-- **A read error is handled** by the copies of `TcpServer` and `TcpClient`, for every state of
the connection, and never by those of `FreeServerClient`. -/
theorem handlesReadError_iff {origin : Origin} {l : LoopId} {time : UInt32}
    {script : List ReadResult} {readBuffer : ValidBuffer IO_BUFFER_SIZE} {n : ℤ}
    (hread : c.readBuffer.readFromSocket script 4096 = some (readBuffer, n)) (hn : n < 0) :
    origin.HandlesReadError l time script c ↔ origin.OfTcp := by
  cases origin with
  | tcpServer server => exact iff_of_true (handlesReadError_tcpServer server hread hn) trivial
  | tcpClient client => exact iff_of_true (handlesReadError_tcpClient client hread hn) trivial
  | serverPort free => exact iff_of_false (not_handlesReadError_serverPort free hread hn) id
  | clientConn free => exact iff_of_false (not_handlesReadError_clientConn free hread hn) id

/-- A reset connection: the first `::read` fails with `ECONNRESET`. -/
theorem exists_reset_read (c : TcpConnection) : ∃ readBuffer,
    c.readBuffer.readFromSocket [.error (.other 104)] 4096 = some (readBuffer, -1) := by
  obtain ⟨readBuffer, hread, -⟩ :=
    @ValidBuffer.readFromSocket_of_deliverable _ c.readBuffer [.error (.other 104)] 4096 trivial
  exact ⟨readBuffer, hread⟩

theorem handlesReadError_iff_reset :
    (tcpServer .waiting).HandlesReadError 0 0 [.error (.other 104)] {} := by
  obtain ⟨readBuffer, hread⟩ := exists_reset_read {}
  exact (handlesReadError_iff hread (by decide)).mpr trivial

/-- A client connection with an error callback stays registered. -/
theorem reset_left_open :
    ¬ (clientConn ⟨fun b => (true, b), true, true, true, true⟩).HandlesReadError 0 0
      [.error (.other 104)] (FreeServerClient.startReading {}) ∧
    ∃ c, FreeServerClient.preConnMsgCallback ⟨fun b => (true, b), true, true, true, true⟩
        [.error (.other 104)] (FreeServerClient.startReading {}) =
          some (c, .connErrorCallback) ∧
      c.calls = [.connErrorCallback] ∧ c.event.isReadable = true ∧ c.destroys = 0 := by
  obtain ⟨readBuffer, hread⟩ := exists_reset_read (FreeServerClient.startReading {})
  refine ⟨not_handlesReadError_clientConn _ hread (by decide), ?_⟩
  unfold FreeServerClient.preConnMsgCallback
  simp only [hread, Option.bind_eq_bind, Option.bind_some]
  exact ⟨_, rfl, rfl, rfl, rfl⟩

end Origin

end Dagger

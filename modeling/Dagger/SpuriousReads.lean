import Dagger.Codec
import Dagger.Effect

/-! # Spurious reads

`readFromSocket` returns 1 when the first `::read` finds nothing, which the read callback of a
`TcpServer` takes for data: it asks the codec about a buffer that has not changed.  Which codecs
call the message callback then depends on the bytes that are there already. -/

namespace Dagger

/-- The first `::read` of an event finds nothing. -/
def SpuriousRead : List ReadResult → Prop
  | [] | .error .EAGAIN :: _ | .error .EINTR :: _ => True
  | _ => False

namespace Buffer

theorem received_of_spuriousRead {script : List ReadResult} (h : SpuriousRead script)
    (maxBytes : ℕ) : readReturn script = 1 ∧ received maxBytes script = [] := by
  match script, h with
  | [], _ => exact ⟨rfl, by simp [received]⟩
  | .error .EAGAIN :: _, _ => exact ⟨rfl, by simp [received]⟩
  | .error .EINTR :: _, _ => exact ⟨rfl, by simp [received]⟩

/-- Any other read on which the value is positive brings data. -/
theorem received_ne_nil {script : List ReadResult} (h : ¬ SpuriousRead script)
    (hpos : 0 < readReturn script) (maxBytes : ℕ) : received maxBytes script ≠ [] := by
  match script with
  | [] => exact absurd trivial h
  | .data bs :: script =>
      intro hnil
      have hbs : bs = [] := by
        simp only [received, List.append_eq_nil_iff] at hnil
        exact hnil.1
      simp [readReturn, hbs] at hpos
  | .error e :: script =>
      cases e with
      | EAGAIN => exact absurd trivial h
      | EINTR => exact absurd trivial h
      | EPROTO | ECONNABORTED | other code => simp [readReturn, readError] at hpos

end Buffer

namespace TcpServer

open TcpConnection

variable {server : TcpServer} {l : LoopId} {time : UInt32} {script : List ReadResult}
  {c : TcpConnection}

/-- The message callback is only invoked when the event has appended bytes to `readBuffer_`. -/
def MessageBringsData (server : TcpServer) (l : LoopId) (time : UInt32)
    (script : List ReadResult) (c : TcpConnection) : Prop :=
  ∀ c', server.preConnMsgCallback l time script c = some (c', .connMsgCallback) →
    ∃ readBuffer n, c.readBuffer.readFromSocket script 4096 = some (readBuffer, n) ∧
      c.readBuffer.bytes.length < readBuffer.bytes.length

/-- What a spurious read comes to. -/
theorem preConnMsgCallback_of_spuriousRead {model : Codec.Model} {data : ℕ}
    (hcodec : server.codec = ValidBuffer.check model data)
    (hs : SpuriousRead script) (hd : Buffer.Deliverable 4096 script)
    (hready : Codec.ready model data c.readBuffer.bytes = true) :
    ∃ c', server.preConnMsgCallback l time script c = some (c', .connMsgCallback) := by
  obtain ⟨hone, hnil⟩ := Buffer.received_of_spuriousRead hs 4096
  obtain ⟨readBuffer, hbytes, hc⟩ := @preConnMsgCallback_of_pos server l time script c hd (by omega)
  rw [hnil, List.append_nil] at hbytes
  have hready' : (server.codec readBuffer).1 = true := by
    rw [hcodec, ValidBuffer.check_fst, hbytes, hready]
  rw [hc]
  simp only [checkMsg, hready', if_true]
  exact ⟨_, rfl⟩

/-- A message callback on a spurious read has no new data. -/
theorem not_messageBringsData {c' : TcpConnection} (hs : SpuriousRead script)
    (hd : Buffer.Deliverable 4096 script)
    (hc : server.preConnMsgCallback l time script c = some (c', .connMsgCallback)) :
    ¬ server.MessageBringsData l time script c := by
  intro hbrings
  obtain ⟨readBuffer, hread, hbytes⟩ :=
    @ValidBuffer.readFromSocket_of_deliverable _ c.readBuffer script 4096 hd
  obtain ⟨readBuffer', n, hread', hlt⟩ := hbrings c' hc
  obtain ⟨rfl, -⟩ := Prod.mk.inj (Option.some.inj (hread.symm.trans hread'))
  rw [hbytes, (Buffer.received_of_spuriousRead hs 4096).2, List.append_nil] at hlt
  exact Nat.lt_irrefl _ hlt

/-- **A message callback implies new data** exactly when the codec is not ready on the bytes that
a spurious read leaves as they are. -/
theorem messageBringsData_iff {model : Codec.Model} {data : ℕ}
    (hcodec : server.codec = ValidBuffer.check model data)
    (hd : Buffer.Deliverable 4096 script) :
    server.MessageBringsData l time script c ↔
      (SpuriousRead script → Codec.ready model data c.readBuffer.bytes = false) := by
  constructor
  · intro hbrings hs
    by_contra hready
    rw [Bool.not_eq_false] at hready
    obtain ⟨c', hc'⟩ := @preConnMsgCallback_of_spuriousRead server l time script c model data
      hcodec hs hd hready
    exact not_messageBringsData hs hd hc' hbrings
  · intro hspurious c' hc'
    obtain ⟨readBuffer, hread, hbytes⟩ :=
      @ValidBuffer.readFromSocket_of_deliverable _ c.readBuffer script 4096 hd
    refine ⟨readBuffer, _, hread, ?_⟩
    obtain ⟨readBuffer', n, last, hread', hcase⟩ := preConnMsgCallback_cases hc'
    obtain ⟨rfl, rfl⟩ := Prod.mk.inj (Option.some.inj (hread.symm.trans hread'))
    rcases hcase with ⟨-, hloop, -⟩ | ⟨-, -, hloop, -⟩ | ⟨hpos, hready, -, -⟩
    · cases hloop
    · cases hloop
    · have hns : ¬ SpuriousRead script := by
        intro hs
        rw [(Buffer.received_of_spuriousRead hs 4096).2, List.append_nil] at hbytes
        rw [hcodec, ValidBuffer.check_fst, hbytes, hspurious hs] at hready
        cases hready
      have hne := List.length_pos_iff.mpr (Buffer.received_ne_nil hns hpos 4096)
      rw [hbytes, List.length_append]
      omega

/-- The server of the ping-pong example. -/
def pingPong : TcpServer where
  codec := ValidBuffer.check .UNLIMITED_MODEL 0
  connEstaCallback := false
  connCloseCallback := false
  idleConnectionsManager := false

theorem messageBringsData_iff_ping :
    pingPong.MessageBringsData 0 0 [.data [7]] {} := by
  have hd : Buffer.Deliverable 4096 [.data [7]] := by decide
  exact (messageBringsData_iff rfl hd).mpr nofun

/-- A spurious read of a new connection: the message callback is invoked, and the `send` with
which it answers what has arrived fails its assertion. -/
theorem spurious_ping : ¬ pingPong.MessageBringsData 0 0 [.error .EAGAIN] {} ∧
    ∃ c', pingPong.preConnMsgCallback 0 0 [.error .EAGAIN] {} = some (c', .connMsgCallback) ∧
      c'.readBuffer.bytes = [] ∧ c'.sendStr c'.readBuffer.bytes = none := by
  have hd : Buffer.Deliverable 4096 [.error .EAGAIN] := trivial
  obtain ⟨readBuffer, hbytes, hc⟩ :=
    @preConnMsgCallback_of_pos pingPong 0 0 [.error .EAGAIN] {} hd (by decide)
  have hnil : readBuffer.bytes = [] := by
    rw [hbytes]
    rfl
  refine ⟨not_messageBringsData trivial hd hc, _, hc, hnil, ?_⟩
  show sendStr readBuffer.bytes _ = none
  rw [hnil]
  unfold sendStr send
  rw [if_neg]
  rw [ValidBuffer.readableBytes_eq, ValidBuffer.bytes_append]
  exact Nat.lt_irrefl 0

end TcpServer

end Dagger

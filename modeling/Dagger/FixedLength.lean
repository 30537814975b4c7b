import Dagger.Codec
import Dagger.Session

/-! # Messages of a fixed length

By its comment, `fixed_length_default_callback` is true when the buffer has `size` readable bytes;
it asks for more than that.  A read event that ends exactly with a message does not hand it over,
and a later event has to bring at least one byte of the next.

A `ReadEvent` is a read that meets neither an error nor the end of the file.  The message callback
retrieves one message for each call.  `fixedLength_delivers_iff` compares, over whole runs and
after each event, the calls with the complete messages. -/

namespace Dagger

structure ReadEvent where
  /-- `timeInProcess`. -/
  time : UInt32
  script : List ReadResult
  deliverable : Buffer.Deliverable 4096 script
  reads : 0 < Buffer.readReturn script

/-- The bytes that an event brings. -/
def ReadEvent.bytes (e : ReadEvent) : List Byte := Buffer.received 4096 e.script

/-- A read event that brings a few bytes in one read. -/
def ReadEvent.ofBytes (bs : List Byte) (h : 0 < bs.length ∧ bs.length < 4096) : ReadEvent where
  time := 0
  script := [.data bs]
  deliverable := ⟨Nat.le_of_lt h.2, fun hfull => absurd hfull (Nat.ne_of_lt h.2)⟩
  reads := Int.natCast_pos.mpr h.1

namespace TcpServer

open TcpConnection

variable (server : TcpServer) (n : ℕ) (l : LoopId)

/-- A read event on a connection whose message callback retrieves `n` bytes. -/
def readEvent (e : ReadEvent) (c : TcpConnection) : Option TcpConnection := do
  let (c, control) ← server.preConnMsgCallback l e.time e.script c
  match control with
  | .connMsgCallback =>
      let (readBuffer, _) ← c.readBuffer.retrieve n
      some { c with readBuffer }
  | _ => some c

/-- The number of calls of the message callback. -/
def messageCalls (c : TcpConnection) : ℕ := c.calls.count .connMsgCallback

/-- Each event completes at most one message, `total` bytes having come before. -/
def Segmented : ℕ → List ReadEvent → Prop
  | _, [] => True
  | total, e :: es =>
      (total + e.bytes.length) / n ≤ total / n + 1 ∧ Segmented (total + e.bytes.length) es

/-- After each event there have been as many calls as complete messages. -/
def DeliversEach : ℕ → TcpConnection → List ReadEvent → Prop
  | _, _, [] => True
  | total, c, e :: es => ∃ c', server.readEvent n l e c = some c' ∧
      messageCalls c' = (total + e.bytes.length) / n ∧
      DeliversEach (total + e.bytes.length) c' es

/-- No event ends with the last byte of a message. -/
def NoneEndsExactly : ℕ → List ReadEvent → Prop
  | _, [] => True
  | total, e :: es =>
      (0 < total + e.bytes.length → ¬ n ∣ total + e.bytes.length) ∧
        NoneEndsExactly (total + e.bytes.length) es

/-- Of `total` bytes less than a message is left in the buffer, and the others were retrieved. -/
structure InStep (total : ℕ) (c : TcpConnection) : Prop where
  conserved : n * messageCalls c + c.readBuffer.bytes.length = total
  partial_lt : c.readBuffer.bytes.length < n
  empty : c.readBuffer.bytes = [] → messageCalls c = 0

variable {server n l} {e : ReadEvent} {c : TcpConnection} {total : ℕ}

/-! ### One event -/

/-- Not more than `n` bytes: the callback is not called. -/
theorem readEvent_of_le (hcodec : server.codec = ValidBuffer.check .FIXED_LENGTH_MODEL n)
    (hle : c.readBuffer.bytes.length + e.bytes.length ≤ n) :
    ∃ c', server.readEvent n l e c = some c' ∧ messageCalls c' = messageCalls c ∧
      c'.readBuffer.bytes.length = c.readBuffer.bytes.length + e.bytes.length := by
  obtain ⟨readBuffer, hbytes, hc⟩ :=
    @preConnMsgCallback_of_pos server l e.time e.script c e.deliverable e.reads
  have hlen : readBuffer.bytes.length = c.readBuffer.bytes.length + e.bytes.length := by
    rw [hbytes, List.length_append]
    rfl
  have hready : (ValidBuffer.check .FIXED_LENGTH_MODEL n readBuffer).1 = false := by
    rw [ValidBuffer.check_fst]
    simp only [Codec.ready, decide_eq_false_iff_not]
    omega
  unfold readEvent
  rw [hc]
  simp only [checkMsg, hcodec, hready, Option.bind_eq_bind, Option.bind_some]
  exact ⟨_, rfl, rfl, hlen⟩

/-- More than `n` bytes: the callback retrieves a message. -/
theorem readEvent_of_lt (hcodec : server.codec = ValidBuffer.check .FIXED_LENGTH_MODEL n)
    (hlt : n < c.readBuffer.bytes.length + e.bytes.length) :
    ∃ c', server.readEvent n l e c = some c' ∧ messageCalls c' = messageCalls c + 1 ∧
      c'.readBuffer.bytes.length + n = c.readBuffer.bytes.length + e.bytes.length := by
  obtain ⟨readBuffer, hbytes, hc⟩ :=
    @preConnMsgCallback_of_pos server l e.time e.script c e.deliverable e.reads
  have hlen : readBuffer.bytes.length = c.readBuffer.bytes.length + e.bytes.length := by
    rw [hbytes, List.length_append]
    rfl
  have hready : (ValidBuffer.check .FIXED_LENGTH_MODEL n readBuffer).1 = true := by
    rw [ValidBuffer.check_fst]
    simp only [Codec.ready, decide_eq_true_eq]
    omega
  have hsame : (ValidBuffer.check .FIXED_LENGTH_MODEL n readBuffer).2.bytes = readBuffer.bytes :=
    rfl
  obtain ⟨rest, p, hrest, hdrop⟩ := @ValidBuffer.retrieve_of_le _
    (ValidBuffer.check .FIXED_LENGTH_MODEL n readBuffer).2 n (by rw [hsame]; omega)
  unfold readEvent
  rw [hc]
  simp only [checkMsg, hcodec, hready, if_true, Option.bind_eq_bind, Option.bind_some, log, hrest]
  refine ⟨_, rfl, ?_, ?_⟩
  · simp [messageCalls]
  · show rest.bytes.length + n = _
    rw [hdrop, hsame, List.length_drop]
    omega

/-! ### Events and complete messages -/

theorem add_div_of_lt {k rest : ℕ} (hrest : rest < n) : (n * k + rest) / n = k := by
  rw [Nat.mul_add_div (Nat.zero_lt_of_lt hrest), Nat.div_eq_of_lt hrest, Nat.add_zero]

theorem not_dvd_of_between {rest : ℕ} (hpos : 0 < rest) (hne : rest ≠ n) (hlt : rest < n + n) :
    ¬ n ∣ rest := by
  rintro ⟨k, rfl⟩
  rcases Nat.lt_trichotomy k 1 with hk | rfl | hk
  · obtain rfl : k = 0 := by omega
    exact Nat.lt_irrefl 0 hpos
  · exact hne (Nat.mul_one n)
  · have hle : n * 2 ≤ n * k := Nat.mul_le_mul_left n hk
    omega

theorem InStep.total_div (h : InStep n total c) : total / n = messageCalls c := by
  rw [← h.conserved]
  exact add_div_of_lt h.partial_lt

/-- The buffer and the event make less than two messages. -/
theorem InStep.lt_two (h : InStep n total c)
    (hseg : (total + e.bytes.length) / n ≤ total / n + 1) :
    c.readBuffer.bytes.length + e.bytes.length < n + n := by
  have hn : 0 < n := Nat.zero_lt_of_lt h.partial_lt
  rw [h.total_div, ← h.conserved, Nat.add_assoc, Nat.mul_add_div hn] at hseg
  have hlt : (c.readBuffer.bytes.length + e.bytes.length) / n < 2 := by omega
  rw [Nat.div_lt_iff_lt_mul hn] at hlt
  omega

/-- An event that does not end with a message keeps the calls in step with the messages. -/
theorem InStep.event (h : InStep n total c)
    (hcodec : server.codec = ValidBuffer.check .FIXED_LENGTH_MODEL n)
    (hseg : (total + e.bytes.length) / n ≤ total / n + 1)
    (hne : c.readBuffer.bytes.length + e.bytes.length ≠ n) :
    (0 < total + e.bytes.length → ¬ n ∣ total + e.bytes.length) ∧
      ∃ c', server.readEvent n l e c = some c' ∧ InStep n (total + e.bytes.length) c' := by
  have htwo := h.lt_two hseg
  have hconserved := h.conserved
  constructor
  · intro hpos
    rw [← hconserved, Nat.add_assoc, Nat.dvd_add_right (Nat.dvd_mul_right n _)]
    refine not_dvd_of_between ?_ hne htwo
    by_contra hzero
    have hempty : c.readBuffer.bytes = [] := List.length_eq_zero_iff.mp (by omega)
    have hcalls := h.empty hempty
    rw [hcalls] at hconserved
    omega
  · rcases Nat.lt_or_gt_of_ne hne with hlt | hgt
    · obtain ⟨c', he, hcalls, hlen⟩ :=
        @readEvent_of_le server n l e c hcodec (Nat.le_of_lt hlt)
      refine ⟨c', he, ?_, by omega, fun hempty => ?_⟩
      · rw [hcalls]
        omega
      · rw [hcalls]
        rw [hempty, List.length_nil] at hlen
        exact h.empty (List.length_eq_zero_iff.mp (by omega))
    · obtain ⟨c', he, hcalls, hlen⟩ := @readEvent_of_lt server n l e c hcodec hgt
      refine ⟨c', he, ?_, by omega, fun hempty => ?_⟩
      · rw [hcalls, Nat.mul_succ]
        omega
      · rw [hempty, List.length_nil] at hlen
        omega

/-- An event that ends with a message does not hand it over. -/
theorem InStep.missed (h : InStep n total c)
    (hcodec : server.codec = ValidBuffer.check .FIXED_LENGTH_MODEL n)
    (hexact : c.readBuffer.bytes.length + e.bytes.length = n) :
    (0 < total + e.bytes.length ∧ n ∣ total + e.bytes.length) ∧
      ∃ c', server.readEvent n l e c = some c' ∧
        messageCalls c' ≠ (total + e.bytes.length) / n := by
  have hn : 0 < n := Nat.zero_lt_of_lt h.partial_lt
  have htotal : total + e.bytes.length = n * (messageCalls c + 1) := by
    have hconserved := h.conserved
    rw [Nat.mul_succ]
    omega
  obtain ⟨c', he, hcalls, -⟩ := @readEvent_of_le server n l e c hcodec (Nat.le_of_eq hexact)
  refine ⟨⟨?_, htotal ▸ Nat.dvd_mul_right n _⟩, c', he, ?_⟩
  · rw [htotal, Nat.mul_succ]
    omega
  · rw [hcalls, htotal, Nat.mul_div_cancel_left _ hn]
    omega

/-! ### Runs -/

theorem deliversEach_iff (hcodec : server.codec = ValidBuffer.check .FIXED_LENGTH_MODEL n) :
    ∀ (es : List ReadEvent) {total : ℕ} {c : TcpConnection}, InStep n total c →
      Segmented n total es →
      (DeliversEach server n l total c es ↔ NoneEndsExactly n total es)
  | [], _, _, _, _ => iff_of_true trivial trivial
  | e :: es, total, c, h, ⟨hseg, hrest⟩ => by
      unfold DeliversEach NoneEndsExactly
      by_cases hexact : c.readBuffer.bytes.length + e.bytes.length = n
      · obtain ⟨⟨hpos, hdvd⟩, c', he, hcalls⟩ := @InStep.missed server n l e c total h hcodec hexact
        refine iff_of_false ?_ fun hnone => hnone.1 hpos hdvd
        rintro ⟨c₁, he₁, hcalls₁, -⟩
        rw [he] at he₁
        obtain rfl := Option.some.inj he₁
        exact hcalls hcalls₁
      · obtain ⟨hnone, c', he, hstep⟩ := @InStep.event server n l e c total h hcodec hseg hexact
        have hrun := @deliversEach_iff hcodec es _ c' hstep hrest
        constructor
        · rintro ⟨c₁, he₁, -, hes⟩
          rw [he] at he₁
          obtain rfl := Option.some.inj he₁
          exact ⟨hnone, hrun.mp hes⟩
        · rintro ⟨-, hes⟩
          exact ⟨c', he, hstep.total_div.symm, hrun.mpr hes⟩

theorem inStep_accepted (hn : 0 < n) (time : UInt32) : InStep n 0 (accepted l time) :=
  ⟨rfl, hn, fun _ => rfl⟩

/-- **Every message is delivered** in time, in a run whose events complete at most one message
each, exactly when no event ends with the last byte of a message. -/
theorem fixedLength_delivers_iff {time : UInt32} {es : List ReadEvent} (hn : 0 < n)
    (hcodec : server.codec = ValidBuffer.check .FIXED_LENGTH_MODEL n) (hseg : Segmented n 0 es) :
    DeliversEach server n l 0 (accepted l time) es ↔ NoneEndsExactly n 0 es :=
  deliversEach_iff hcodec es (inStep_accepted hn time) hseg

/-- A server for messages of two bytes. -/
def twoBytes : TcpServer where
  codec := ValidBuffer.check .FIXED_LENGTH_MODEL 2
  connEstaCallback := false
  connCloseCallback := false
  idleConnectionsManager := false

theorem fixedLength_delivers_iff_ahead : DeliversEach twoBytes 2 0 0 (accepted 0 0)
    [.ofBytes [1] (by decide), .ofBytes [2, 3] (by decide)] := by
  refine (fixedLength_delivers_iff (by decide) rfl ?_).mpr ?_
  · exact ⟨by decide, by decide, trivial⟩
  · exact ⟨by decide, by decide, trivial⟩

/-- One message, in one event: the callback is not called. -/
theorem exact_message_missed : Segmented 2 0 [.ofBytes [1, 2] (by decide)] ∧
    ¬ DeliversEach twoBytes 2 0 0 (accepted 0 0) [.ofBytes [1, 2] (by decide)] := by
  have hseg : Segmented 2 0 [.ofBytes [1, 2] (by decide)] := ⟨by decide, trivial⟩
  refine ⟨hseg, fun hdelivers => ?_⟩
  rw [deliversEach_iff rfl _ (inStep_accepted (by decide) 0) hseg] at hdelivers
  exact hdelivers.1 (by decide) (by decide)

end TcpServer

end Dagger

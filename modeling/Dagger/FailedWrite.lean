import Dagger.Effect

/-! # A write that fails

`sendNonblock` passes the `-1` of `::write` to `retrieve`, where it becomes the largest `size_t`.
With assertions that ends the program.  Under `NDEBUG` the sum `readIndex_ + len` wraps around:
it is past `writeIndex_` when nothing was written from the buffer yet, and otherwise it takes one
byte back that was written already.

`retrieveIn` and `sendNonblockIn` are `retrieve` and `sendNonblock` in a build with assertions or
without, and with the arithmetic of `size_t`. -/

namespace Dagger

namespace Buffer

variable {N : ℕ} {b : Buffer N} {len : ℕ}

/-- `readIndex_ + len`. -/
def retrieveEnd (b : Buffer N) (len : ℕ) : ℕ := (b.readIndex + len) % (SIZE_MAX + 1)

def retrieveIn (asserts : Bool) (b : Buffer N) (len : ℕ) : Option (Buffer N × Option ℕ) :=
  if asserts ∧ ¬ len ≤ b.readableBytes then none
  else if b.writeIndex < b.retrieveEnd len then some (b, none)
  else some ({ b with readIndex := b.retrieveEnd len }, some b.readIndex)

/-- With assertions, no sum wraps around. -/
theorem retrieveIn_true (h : b.Wf) (hsize : b.vec.length < SIZE_MAX) :
    b.retrieveIn true len = b.retrieve len := by
  unfold retrieveIn retrieve
  by_cases hl : len ≤ b.readableBytes
  · have hend : b.retrieveEnd len = b.readIndex + len := by
      have h1 := h.read_le
      have h2 := h.write_le
      simp only [readableBytes] at hl
      exact Nat.mod_eq_of_lt (by omega)
    simp only [hl, hend, not_true_eq_false, and_false, if_false, if_true]
  · simp only [hl, not_false_eq_true, and_true, if_true, if_false]

theorem retrieveIn_wf (asserts : Bool) (len : ℕ) {r : Buffer N × Option ℕ} (h : b.Wf)
    (hr : b.retrieveIn asserts len = some r) : r.1.Wf := by
  unfold retrieveIn at hr
  split_ifs at hr with ha hlt
  · rw [← Option.some.inj hr]
    exact h
  · rw [← Option.some.inj hr]
    exact ⟨Nat.not_lt.mp hlt, h.write_le⟩

/-- `SIZE_MAX` acts as `-1`. -/
theorem retrieveIn_false_max (h : b.Wf) (hsize : b.vec.length < SIZE_MAX) :
    b.retrieveIn false SIZE_MAX =
      if b.readIndex = 0 then some (b, none)
      else some ({ b with readIndex := b.readIndex - 1 }, some b.readIndex) := by
  have h1 := h.read_le
  have h2 := h.write_le
  unfold retrieveIn
  simp only [Bool.false_eq_true, false_and, if_false]
  by_cases hz : b.readIndex = 0
  · have hend : b.retrieveEnd SIZE_MAX = SIZE_MAX := by
      unfold retrieveEnd
      rw [hz, Nat.zero_add]
      exact Nat.mod_eq_of_lt (Nat.lt_succ_self _)
    rw [if_pos hz, hend, if_pos (by omega)]
  · have hend : b.retrieveEnd SIZE_MAX = b.readIndex - 1 := by
      have hsum : b.readIndex + SIZE_MAX = b.readIndex - 1 + (SIZE_MAX + 1) := by omega
      unfold retrieveEnd
      rw [hsum, Nat.add_mod_right]
      exact Nat.mod_eq_of_lt (by omega)
    rw [if_neg hz, hend, if_neg (by omega)]

end Buffer

namespace ValidBuffer

variable {N : ℕ} {b : ValidBuffer N}

def retrieveIn (asserts : Bool) (b : ValidBuffer N) (len : ℕ) :
    Option (ValidBuffer N × Option ℕ) :=
  lift (b.raw.retrieveIn asserts len) (fun _ => Buffer.retrieveIn_wf asserts len b.wf)

theorem retrieveIn_true {len : ℕ} (hsize : b.raw.vec.length < SIZE_MAX) :
    b.retrieveIn true len = b.retrieve len := by
  have heq : b.raw.retrieveIn true len = b.raw.retrieve len := Buffer.retrieveIn_true b.wf hsize
  unfold retrieveIn retrieve
  rcases Option.eq_none_or_eq_some (b.raw.retrieve len) with hr | ⟨r, hr⟩
  · rw [lift_none (heq.trans hr), lift_none hr]
  · rw [lift_some (heq.trans hr), lift_some hr]

/-- Without assertions `SIZE_MAX` moves `readIndex_` back, or nowhere. -/
theorem retrieveIn_false_max (hsize : b.raw.vec.length < SIZE_MAX) :
    ∃ b' p, b.retrieveIn false SIZE_MAX = some (b', p) ∧ b'.raw.writeIndex = b.raw.writeIndex ∧
      b'.raw.readIndex = b.raw.readIndex - 1 ∧ (b.raw.readIndex = 0 → b' = b) := by
  have hraw := Buffer.retrieveIn_false_max b.wf hsize
  by_cases hz : b.raw.readIndex = 0
  · rw [if_pos hz] at hraw
    exact ⟨b, none, lift_some hraw, rfl, by omega, fun _ => rfl⟩
  · rw [if_neg hz] at hraw
    exact ⟨_, _, lift_some hraw, rfl, rfl, fun h => absurd h hz⟩

/-- Bytes for which there is room are stored behind the others. -/
theorem raw_append {s : List Byte} (hroom : s.length ≤ b.raw.writableBytes) :
    (b.append s).raw.readIndex = b.raw.readIndex ∧
      (b.append s).raw.writeIndex = b.raw.writeIndex + s.length ∧
      (b.append s).raw.vec.length = b.raw.vec.length := by
  obtain ⟨vec, happend, hlen⟩ := Buffer.append_of_room b.wf hroom
  simp only [append, happend, Option.get_some, hlen, and_self]

end ValidBuffer

/-- The bytes that went to the socket. -/
def WriteResult.count : WriteResult → ℕ
  | accepted n => n
  | error _ => 0

namespace TcpConnection

variable (asserts : Bool) (source : TcpSource) (localEventLoop : LoopId)

def sendNonblockIn (n : WriteResult) (c : TcpConnection) : Option TcpConnection := do
  let (writeBuffer, _) ← c.writeBuffer.retrieveIn asserts n.size
  let c := { c with writeBuffer, written := c.written ++ c.writeBuffer.bytes.take n.count }
  if c.writeBuffer.readableBytes = 0 then
    let c := { c with event := c.event.setWritable false }
    if c.isWillClose then c.activeClose source localEventLoop else some c
  else some c

/-- What a write that accepted nothing has to leave alone. -/
structure Intact (c c' : TcpConnection) : Prop where
  writeBuffer : c'.writeBuffer = c.writeBuffer
  events : c'.event.events = c.event.events
  isWillClose : c'.isWillClose = c.isWillClose
  state : c'.state = c.state

variable {source localEventLoop} {c : TcpConnection}

theorem bytes_lt (hsize : c.writeBuffer.raw.vec.length < SIZE_MAX) :
    c.writeBuffer.bytes.length < SIZE_MAX := by
  have hlen := Buffer.length_readable c.writeBuffer.wf
  have h2 := c.writeBuffer.wf.write_le
  simp only [Buffer.readableBytes] at hlen
  simp only [ValidBuffer.bytes]
  omega

/-- With assertions this is the function of `TcpConnection.lean`. -/
theorem sendNonblockIn_true {n : WriteResult} (hsize : c.writeBuffer.raw.vec.length < SIZE_MAX) :
    c.sendNonblockIn true source localEventLoop n = c.sendNonblock source localEventLoop n := by
  unfold sendNonblockIn sendNonblock
  rw [ValidBuffer.retrieveIn_true hsize]
  cases n with
  | accepted n => rfl
  | error e =>
      rw [show WriteResult.size (.error e) = SIZE_MAX from rfl,
        ValidBuffer.retrieve_of_lt (bytes_lt hsize)]
      rfl

/-- Under `NDEBUG` a failed write moves `readIndex_` back, or changes nothing. -/
theorem sendNonblockIn_error (source : TcpSource) (localEventLoop : LoopId) (e : Errno)
    (hne : 0 < c.writeBuffer.readableBytes)
    (hsize : c.writeBuffer.raw.vec.length < SIZE_MAX) :
    ∃ b, c.sendNonblockIn false source localEventLoop (.error e) =
        some { c with writeBuffer := b } ∧
      b.raw.readIndex = c.writeBuffer.raw.readIndex - 1 ∧
      (c.writeBuffer.raw.readIndex = 0 → b = c.writeBuffer) := by
  obtain ⟨b, p, hb, hwrite, hread, hsame⟩ := ValidBuffer.retrieveIn_false_max hsize
  have hb' : c.writeBuffer.retrieveIn false (WriteResult.size (.error e)) = some (b, p) := hb
  have hpos : b.readableBytes ≠ 0 := by
    simp only [ValidBuffer.readableBytes, Buffer.readableBytes] at hne ⊢
    omega
  refine ⟨b, ?_, hread, hsame⟩
  unfold sendNonblockIn
  simp only [hb', Option.bind_eq_bind, Option.bind_some, WriteResult.count, List.take_zero,
    List.append_nil, hpos, if_false]

/-- What was written once is not forgotten: the failed write takes a byte of it back, or stops at
an assertion. -/
theorem not_intact_of_written (hne : 0 < c.writeBuffer.readableBytes)
    (hsize : c.writeBuffer.raw.vec.length < SIZE_MAX)
    (hread : asserts = true ∨ c.writeBuffer.raw.readIndex ≠ 0) :
    ¬ ∃ c', c.sendNonblockIn asserts source localEventLoop (.error .EAGAIN) = some c' ∧
      c.Intact c' := by
  rintro ⟨c', hc', hi⟩
  cases asserts with
  | true =>
      rw [sendNonblockIn_true hsize, sendNonblock_error .EAGAIN (bytes_lt hsize)] at hc'
      cases hc'
  | false =>
      obtain ⟨b, hb, hback, -⟩ := sendNonblockIn_error source localEventLoop .EAGAIN hne hsize
      rw [hb] at hc'
      obtain rfl := Option.some.inj hc'
      rw [show b = c.writeBuffer from hi.writeBuffer] at hback
      have hpos := hread.resolve_left Bool.false_ne_true
      omega

/-- **A failed write leaves the connection intact** in no build with assertions, and under
`NDEBUG` exactly when nothing before the readable bytes of `writeBuffer_` was written. -/
theorem sendNonblock_intact_iff (hne : 0 < c.writeBuffer.readableBytes)
    (hsize : c.writeBuffer.raw.vec.length < SIZE_MAX) :
    (∃ c', c.sendNonblockIn asserts source localEventLoop (.error .EAGAIN) = some c' ∧
      c.Intact c') ↔ asserts = false ∧ c.writeBuffer.raw.readIndex = 0 := by
  constructor
  · intro hintact
    by_contra hnot
    refine not_intact_of_written asserts hne hsize ?_ hintact
    cases asserts with
    | true => exact Or.inl rfl
    | false => exact Or.inr fun hz => hnot ⟨rfl, hz⟩
  · rintro ⟨rfl, hz⟩
    obtain ⟨b, hb, -, hsame⟩ := sendNonblockIn_error source localEventLoop .EAGAIN hne hsize
    exact ⟨_, hb, hsame hz, rfl, rfl, rfl⟩

/-! ### A send, and a partial write -/

/-- A write that leaves something moves `readIndex_`. -/
theorem sendNonblockIn_accepted (source : TcpSource) (localEventLoop : LoopId) {n : ℕ}
    (hn : n < c.writeBuffer.readableBytes) (hsize : c.writeBuffer.raw.vec.length < SIZE_MAX) :
    ∃ b written, c.sendNonblockIn asserts source localEventLoop (.accepted n) =
        some { c with writeBuffer := b, written } ∧
      b.raw = { c.writeBuffer.raw with readIndex := c.writeBuffer.raw.readIndex + n } := by
  have h1 := c.writeBuffer.wf.read_le
  have h2 := c.writeBuffer.wf.write_le
  simp only [ValidBuffer.readableBytes, Buffer.readableBytes] at hn
  have hend : c.writeBuffer.raw.retrieveEnd n = c.writeBuffer.raw.readIndex + n :=
    Nat.mod_eq_of_lt (by omega)
  have hraw : c.writeBuffer.raw.retrieveIn asserts n = some
      ({ c.writeBuffer.raw with readIndex := c.writeBuffer.raw.readIndex + n },
        some c.writeBuffer.raw.readIndex) := by
    have hle : n ≤ c.writeBuffer.raw.readableBytes := by
      simp only [Buffer.readableBytes]
      omega
    unfold Buffer.retrieveIn
    rw [hend, if_neg (fun h => h.2 hle), if_neg (by omega)]
  obtain ⟨b, hb, hbraw⟩ : ∃ b, c.writeBuffer.retrieveIn asserts (WriteResult.size (.accepted n)) =
      some (b, some c.writeBuffer.raw.readIndex) ∧
        b.raw = { c.writeBuffer.raw with readIndex := c.writeBuffer.raw.readIndex + n } :=
    ⟨_, ValidBuffer.lift_some hraw, rfl⟩
  refine ⟨b, c.written ++ c.writeBuffer.bytes.take n, ?_, hbraw⟩
  unfold sendNonblockIn
  simp only [hb, Option.bind_eq_bind, Option.bind_some]
  refine if_neg ?_
  simp only [ValidBuffer.readableBytes, Buffer.readableBytes, hbraw]
  omega

/-- A failed write behind a partial one. -/
theorem not_intact_of_accepted (source : TcpSource) (localEventLoop : LoopId) {n : ℕ} (h0 : 0 < n)
    (hn : n < c.writeBuffer.readableBytes) (hsize : c.writeBuffer.raw.vec.length < SIZE_MAX) :
    ∃ c₁, c.sendNonblockIn asserts source localEventLoop (.accepted n) = some c₁ ∧
      0 < c₁.writeBuffer.readableBytes ∧
      ¬ ∃ c', c₁.sendNonblockIn asserts source localEventLoop (.error .EAGAIN) = some c' ∧
        c₁.Intact c' := by
  obtain ⟨b, written, hb, hraw⟩ := sendNonblockIn_accepted asserts source localEventLoop hn hsize
  have hpos : 0 < b.readableBytes := by
    simp only [ValidBuffer.readableBytes, Buffer.readableBytes, hraw] at hn ⊢
    omega
  refine ⟨_, hb, hpos, not_intact_of_written asserts hpos ?_ (Or.inr ?_)⟩
  · rw [hraw]
    exact hsize
  · rw [hraw]
    exact Nat.ne_of_gt (Nat.add_pos_right _ h0)

/-- A connection that has been asked to send two bytes. -/
def queued : TcpConnection where
  writeBuffer := (ValidBuffer.make _).append [1, 2]
  sent := [1, 2]
  event := (({} : Event Callback).setWritable true).setWriteCallback .sendNonblock

theorem sendStr_queued : sendStr [1, 2] {} = some queued := by
  have hpos : 0 < ((ValidBuffer.make IO_BUFFER_SIZE).append [1, 2]).readableBytes := by simp
  unfold sendStr send
  exact if_pos hpos

theorem queued_raw : queued.writeBuffer.raw.readIndex = 0 ∧
    queued.writeBuffer.readableBytes = 2 ∧ queued.writeBuffer.raw.vec.length < SIZE_MAX := by
  have hlen : (Buffer.make IO_BUFFER_SIZE).vec.length = IO_BUFFER_SIZE := List.length_replicate
  have hroom : [1, 2].length ≤ (Buffer.make IO_BUFFER_SIZE).writableBytes := by
    simp only [Buffer.writableBytes, hlen]
    decide
  obtain ⟨hread, hwrite, hvec⟩ :=
    ValidBuffer.raw_append (b := .make IO_BUFFER_SIZE) (s := ([1, 2] : List Byte)) hroom
  refine ⟨hread, ?_, ?_⟩
  · simp [queued]
  · refine Nat.lt_of_le_of_lt (Nat.le_of_eq (hvec.trans hlen)) ?_
    decide

theorem sendNonblock_intact_iff_queued :
    let source := TcpServer.source ⟨fun b => (true, b), false, false, false⟩
    ∃ c', queued.sendNonblockIn false source 0 (.error .EAGAIN) = some c' ∧
      queued.Intact c' := by
  obtain ⟨hread, hbytes, hsize⟩ := queued_raw
  exact (sendNonblock_intact_iff false (by omega) hsize).mpr ⟨rfl, hread⟩

/-- One byte of two is written, and the next write fails: neither build keeps the connection. -/
theorem queued_partly_written : sendStr [1, 2] {} = some queued ∧
    ∀ asserts source localEventLoop, ∃ c,
      queued.sendNonblockIn asserts source localEventLoop (.accepted 1) = some c ∧
        0 < c.writeBuffer.readableBytes ∧
        ¬ ∃ c', c.sendNonblockIn asserts source localEventLoop (.error .EAGAIN) = some c' ∧
          c.Intact c' := by
  obtain ⟨hread, hbytes, hsize⟩ := queued_raw
  refine ⟨sendStr_queued, fun asserts source localEventLoop => ?_⟩
  exact not_intact_of_accepted asserts source localEventLoop (by omega) (by omega) hsize

end TcpConnection

end Dagger

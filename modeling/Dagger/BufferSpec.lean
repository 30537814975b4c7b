import Dagger.Buffer
import Dagger.Fifo
import Mathlib.Order.Basic

/-! # `Buffer<N>` is a FIFO queue of bytes

`Buffer.Wf` is the invariant `readIndex_ ≤ writeIndex_ ≤ vec_.size()`.  Everything an
operation does to the vector is said once in its specification lemma (`makeRoom_spec`,
`append_spec`, `readFromSocket_spec`, `retrieve_spec`, `writeToSocket_spec`), in terms of
the readable bytes; later files never look at the vector.

`Buffer.fifo` packages the operations as an implementation of the queue of `Fifo.lean`, and
`fifo_run` reads off the refinement for whole runs.  `ValidBuffer` is the type of the
buffers that occur: the raw buffers of the invariant, with the operations on them. -/

namespace Dagger

/-! ### The vector -/

theorem length_resize {v : List Byte} {n : ℕ} (h : v.length ≤ n) : (resize v n).length = n := by
  simp only [resize, List.length_append, List.length_take, List.length_replicate]
  omega

theorem slice_resize {v : List Byte} {n i k : ℕ} (h : v.length ≤ n) (hik : i + k ≤ v.length) :
    slice (resize v n) i k = some ((v.drop i).take k) := by
  have hlen := length_resize h
  have hv : v.take n = v := List.take_of_length_le h
  unfold slice
  rw [if_pos (by omega), resize, hv, List.drop_append_of_le_length (by omega),
    List.take_append_of_le_length (by rw [List.length_drop]; omega)]

theorem memcpy_eq {v src : List Byte} {dst : ℕ} (h : dst + src.length ≤ v.length) :
    memcpy v dst src = some (v.take dst ++ src ++ v.drop (dst + src.length)) := if_pos h

theorem length_memcpy {v src w : List Byte} {dst : ℕ} (h : memcpy v dst src = some w) :
    w.length = v.length := by
  unfold memcpy at h
  split_ifs at h with hlt
  obtain rfl := Option.some.inj h
  simp only [List.length_append, List.length_take, List.length_drop]
  omega

namespace Buffer

variable {N : ℕ}

/-- `readIndex_ ≤ writeIndex_ ≤ vec_.size()`. -/
structure Wf (b : Buffer N) : Prop where
  read_le : b.readIndex ≤ b.writeIndex
  write_le : b.writeIndex ≤ b.vec.length

theorem wf_make (N : ℕ) : (make N).Wf := ⟨le_refl 0, Nat.zero_le _⟩

@[simp] theorem readable_make (N : ℕ) : (make N).readable = [] := rfl

theorem length_readable {b : Buffer N} (h : b.Wf) : b.readable.length = b.readableBytes := by
  have h1 := h.read_le
  have h2 := h.write_le
  simp only [readable, List.length_take, List.length_drop, readableBytes]
  omega

theorem readable_front (v : List Byte) (n : ℕ) : (⟨v, 0, n⟩ : Buffer N).readable = v.take n := by
  simp [readable, readableBytes]

/-! ### One lemma for each operation -/

/-- Making room succeeds, keeps the readable bytes and leaves at least `len` bytes to write. -/
theorem makeRoom_spec {b : Buffer N} (h : b.Wf) (len : ℕ) :
    ∃ b', b.makeRoom len = some b' ∧ b'.Wf ∧ b'.readable = b.readable ∧ len ≤ b'.writableBytes := by
  have h1 := h.read_le
  have h2 := h.write_le
  unfold makeRoom
  by_cases hroom : b.writableBytes < len
  · rw [if_pos hroom]
    -- the vector after the optional growth: long enough, and with the readable bytes in place
    obtain ⟨v, hv, hlen, hsrc⟩ : ∃ v : List Byte,
        (if len ≤ b.discardableBytes then b.vec
          else resize b.vec (max (b.vec.length * 2) (len + b.readableBytes))) = v ∧
        len + b.readableBytes ≤ v.length ∧
        slice v b.readIndex b.readableBytes = some b.readable := by
      by_cases hd : len ≤ b.discardableBytes
      · refine ⟨b.vec, if_pos hd, ?_, if_pos ?_⟩
        · simp only [discardableBytes, readableBytes] at hd ⊢
          omega
        · simp only [readableBytes]
          omega
      · have hgrow : b.vec.length ≤ max (b.vec.length * 2) (len + b.readableBytes) := by omega
        refine ⟨_, if_neg hd, ?_, slice_resize hgrow ?_⟩
        · rw [length_resize hgrow]
          omega
        · simp only [readableBytes]
          omega
    have hrl := length_readable h
    simp only [hv]
    by_cases hpos : 0 < b.readableBytes
    · obtain ⟨w, hw⟩ : ∃ w, memcpy v 0 b.readable = some w := ⟨_, memcpy_eq (by omega)⟩
      have hwl := length_memcpy hw
      refine ⟨⟨w, 0, b.readableBytes⟩, by simp [hpos, hsrc, hw], ⟨Nat.zero_le _, ?_⟩, ?_, ?_⟩
      · simp only
        omega
      · rw [memcpy_eq (by omega)] at hw
        obtain rfl := Option.some.inj hw
        rw [readable_front, ← hrl]
        simp
      · simp only [writableBytes]
        omega
    · refine ⟨⟨v, 0, b.readableBytes⟩, by simp [hpos], ⟨Nat.zero_le _, ?_⟩, ?_, ?_⟩
      · simp only
        omega
      · have h0 : b.readableBytes = 0 := by omega
        rw [readable_front, h0, List.length_eq_zero_iff.mp (hrl.trans h0), List.take_zero]
      · simp only [writableBytes]
        omega
  · rw [if_neg hroom]
    exact ⟨b, rfl, h, rfl, by omega⟩

/-- Bytes stored in the writable space become readable, behind what is readable already. -/
theorem fill_spec {b : Buffer N} (h : b.Wf) {s : List Byte} (hs : s.length ≤ b.writableBytes) :
    ∃ b', b.fill s = some b' ∧ b'.Wf ∧ b'.readable = b.readable ++ s := by
  have h1 := h.read_le
  have h2 := h.write_le
  simp only [writableBytes] at hs
  obtain ⟨w, hw⟩ : ∃ w, memcpy b.vec b.writeIndex s = some w := ⟨_, memcpy_eq (by omega)⟩
  have hwl := length_memcpy hw
  refine ⟨⟨w, b.readIndex, b.writeIndex + s.length⟩, by simp [fill, hw], ⟨?_, ?_⟩, ?_⟩
  · simp only
    omega
  · simp only
    omega
  · rw [memcpy_eq (by omega)] at hw
    obtain rfl := Option.some.inj hw
    simp only [readable, readableBytes]
    have hpre : (b.vec.take b.writeIndex).length = b.writeIndex := by
      rw [List.length_take]; omega
    rw [List.append_assoc, List.drop_append_of_le_length (by omega), List.drop_take]
    have hk : b.writeIndex + s.length - b.readIndex
        = (b.writeIndex - b.readIndex) + s.length := by omega
    have hfront : ((b.vec.drop b.readIndex).take (b.writeIndex - b.readIndex)).length
        = b.writeIndex - b.readIndex := by
      rw [List.length_take, List.length_drop]; omega
    rw [hk, List.take_append, hfront, Nat.add_sub_cancel_left]
    simp [List.take_take]

theorem append_spec {b : Buffer N} (h : b.Wf) (s : List Byte) :
    ∃ b', b.append s = some b' ∧ b'.Wf ∧ b'.readable = b.readable ++ s := by
  obtain ⟨b1, e1, w1, r1, room⟩ := makeRoom_spec h s.length
  obtain ⟨b2, e2, w2, r2⟩ := fill_spec w1 room
  refine ⟨b2, ?_, w2, by rw [r2, r1]⟩
  simp [append, e1, e2, totalSize, w2.write_le]

/-- Bytes for which there is room are stored behind the others. -/
theorem append_of_room {b : Buffer N} (h : b.Wf) {s : List Byte}
    (hroom : s.length ≤ b.writableBytes) :
    ∃ vec, b.append s = some ⟨vec, b.readIndex, b.writeIndex + s.length⟩ ∧
      vec.length = b.vec.length := by
  have h2 := h.write_le
  have hmake : b.makeRoom s.length = some b := if_neg (Nat.not_lt.mpr hroom)
  simp only [writableBytes] at hroom
  obtain ⟨vec, hvec⟩ : ∃ vec, memcpy b.vec b.writeIndex s = some vec := ⟨_, memcpy_eq (by omega)⟩
  have hlen := length_memcpy hvec
  refine ⟨vec, ?_, hlen⟩
  unfold append fill
  simp only [hmake, Option.bind_eq_bind, Option.bind_some, hvec]
  exact if_pos (by simp only [totalSize]; omega)

theorem retrieve_spec {b : Buffer N} (h : b.Wf) {len : ℕ} (hl : len ≤ b.readableBytes) :
    ∃ b' p, b.retrieve len = some (b', p) ∧ b'.Wf ∧ b'.readable = b.readable.drop len := by
  have h1 := h.read_le
  have h2 := h.write_le
  have hle : ¬ b.writeIndex < b.readIndex + len := by simp only [readableBytes] at hl; omega
  refine ⟨⟨b.vec, b.readIndex + len, b.writeIndex⟩, some b.readIndex, ?_, ⟨?_, h2⟩, ?_⟩
  · simp [retrieve, hl, hle]
  · simp only
    omega
  · simp only [readable, readableBytes, List.drop_take, List.drop_drop]
    congr 1
    omega

theorem retrieve_isNone {b : Buffer N} {len : ℕ} (hl : b.readableBytes < len) :
    b.retrieve len = none := if_neg (by omega)

theorem writeToSocket_spec {b : Buffer N} (h : b.Wf) {maxBytes : ℕ} {n : ℤ} (h0 : 0 ≤ n)
    (hn : n ≤ min b.readableBytes maxBytes) :
    ∃ b', b.writeToSocket maxBytes n = some (b', n) ∧ b'.Wf ∧
      b'.readable = b.readable.drop n.toNat := by
  have h1 := h.read_le
  have hr : n.toNat ≤ b.readableBytes := by omega
  refine ⟨⟨b.vec, b.readIndex + n.toNat, b.writeIndex⟩, ?_, ⟨?_, h.write_le⟩, ?_⟩
  · have : n ≤ maxBytes := by omega
    simp [writeToSocket, h0, this]
  · simp only [readableBytes] at hr ⊢
    omega
  · simp only [readable, readableBytes, List.drop_take, List.drop_drop]
    congr 1
    omega

/-! ### `readFromSocket` -/

/-- The bytes one call of `readFromSocket` receives. -/
def received : ℕ → List ReadResult → List Byte
  | maxBytes, .data bs :: script =>
      bs ++ if bs.length = maxBytes then received (maxBytes * 2) script else []
  | _, _ => []

/-- No read delivers more than it was asked for. -/
def Deliverable : ℕ → List ReadResult → Prop
  | maxBytes, .data bs :: script =>
      bs.length ≤ maxBytes ∧ (bs.length = maxBytes → Deliverable (maxBytes * 2) script)
  | _, _ => True

instance Deliverable.decidable :
    ∀ (maxBytes : ℕ) (script : List ReadResult), Decidable (Deliverable maxBytes script)
  | maxBytes, .data _ :: script =>
      have := decidable (maxBytes * 2) script
      inferInstanceAs (Decidable (_ ∧ (_ → _)))
  | _, .error _ :: _ => isTrue trivial
  | _, [] => isTrue trivial

/-- What `readFromSocket` returns: it depends on the first read only. -/
def readReturn : List ReadResult → ℤ
  | .data bs :: _ => bs.length
  | .error e :: _ => readError e
  | [] => readError .EAGAIN

theorem readFromSocket_spec : ∀ (script : List ReadResult) (maxBytes : ℕ) {b : Buffer N}, b.Wf →
    Deliverable maxBytes script →
    ∃ b', b.readFromSocket script maxBytes = some (b', readReturn script) ∧ b'.Wf ∧
      b'.readable = b.readable ++ received maxBytes script
  | [], maxBytes, b, h, _ => by
      obtain ⟨b1, e1, w1, r1, room⟩ := makeRoom_spec h maxBytes
      refine ⟨b1, ?_, w1, by simp [received, r1]⟩
      simp [readFromSocket, e1, Nat.not_lt.mpr room, readReturn]
  | .error e :: script, maxBytes, b, h, _ => by
      obtain ⟨b1, e1, w1, r1, room⟩ := makeRoom_spec h maxBytes
      refine ⟨b1, ?_, w1, by simp [received, r1]⟩
      simp [readFromSocket, e1, Nat.not_lt.mpr room, readReturn]
  | .data bs :: script, maxBytes, b, h, ⟨hlen, hrest⟩ => by
      obtain ⟨b1, e1, w1, r1, room⟩ := makeRoom_spec h maxBytes
      obtain ⟨b2, e2, w2, r2⟩ := fill_spec w1 (Nat.le_trans hlen room)
      by_cases hfull : bs.length = maxBytes
      · obtain ⟨b3, e3, w3, r3⟩ := readFromSocket_spec script (maxBytes * 2) w2 (hrest hfull)
        refine ⟨b3, ?_, w3, by simp [received, r3, r2, r1, hfull]⟩
        rw [readFromSocket]
        simp [e1, Nat.not_lt.mpr room, e2, hfull, e3, readReturn]
      · refine ⟨b2, ?_, w2, by simp [received, r2, r1, hfull]⟩
        rw [readFromSocket]
        simp [e1, Nat.not_lt.mpr room, e2, hfull, readReturn]

/-! ### Buffers as queues -/

/-- The operations of a run. -/
inductive Op where
  | append (s : List Byte)
  | retrieve (len : ℕ)
  | retrieveAll
  | readFromSocket (maxBytes : ℕ) (script : List ReadResult)
  | writeToSocket (maxBytes : ℕ) (n : ℤ)

/-- Performs an operation and hands out the bytes retrieved or written. -/
def step (b : Buffer N) : Op → Option (List Byte × Buffer N)
  | .append s => (b.append s).map (fun b' => ([], b'))
  | .retrieve len => (b.retrieve len).map (fun r => (b.readable.take len, r.1))
  | .retrieveAll => b.retrieveAll.map (fun r => (b.readable, r.1))
  | .readFromSocket maxBytes script =>
      (b.readFromSocket script maxBytes).map (fun r => ([], r.1))
  | .writeToSocket maxBytes n =>
      (b.writeToSocket maxBytes n).map (fun r => (b.readable.take n.toNat, r.1))

/-- The callers' preconditions, and what the kernel may answer. -/
def Op.Legal (b : Buffer N) : Op → Prop
  | .retrieve len => len ≤ b.readableBytes
  | .readFromSocket maxBytes script => Deliverable maxBytes script
  | .writeToSocket maxBytes n => 0 ≤ n ∧ n ≤ min b.readableBytes maxBytes
  | _ => True

instance Op.Legal.decidable (b : Buffer N) : ∀ o : Op, Decidable (o.Legal b)
  | .append _ => isTrue trivial
  | .retrieve len => inferInstanceAs (Decidable (len ≤ b.readableBytes))
  | .retrieveAll => isTrue trivial
  | .readFromSocket maxBytes script => Deliverable.decidable maxBytes script
  | .writeToSocket _ _ => inferInstanceAs (Decidable (_ ∧ _))

def Op.spec : Op → Fifo.Op Byte
  | .append s => .put s
  | .retrieve len => .take len
  | .retrieveAll => .drain
  | .readFromSocket maxBytes script => .put (received maxBytes script)
  | .writeToSocket _ n => .take n.toNat

theorem step_spec (b : Buffer N) (o : Op) (h : b.Wf) (hl : o.Legal b) :
    ∃ out b', b.step o = some (out, b') ∧ b'.Wf ∧ o.spec.run b.readable = (out, b'.readable) := by
  cases o with
  | append s =>
      obtain ⟨b', e, w, r⟩ := append_spec h s
      exact ⟨[], b', by simp [step, e], w, by simp [Op.spec, Fifo.Op.run, r]⟩
  | retrieve len =>
      obtain ⟨b', p, e, w, r⟩ := retrieve_spec h hl
      exact ⟨b.readable.take len, b', by simp [step, e], w, by simp [Op.spec, Fifo.Op.run, r]⟩
  | retrieveAll =>
      obtain ⟨b', p, e, w, r⟩ := retrieve_spec h (le_refl b.readableBytes)
      refine ⟨b.readable, b', by simp [step, retrieveAll, e], w, ?_⟩
      simp [Op.spec, Fifo.Op.run, r, ← length_readable h]
  | readFromSocket maxBytes script =>
      obtain ⟨b', e, w, r⟩ := readFromSocket_spec script maxBytes h hl
      exact ⟨[], b', by simp [step, e], w, by simp [Op.spec, Fifo.Op.run, r]⟩
  | writeToSocket maxBytes n =>
      obtain ⟨b', e, w, r⟩ := writeToSocket_spec h hl.1 hl.2
      exact ⟨b.readable.take n.toNat, b', by simp [step, e], w, by simp [Op.spec, Fifo.Op.run, r]⟩

/-- `Buffer<N>` implements the FIFO queue of bytes. -/
def fifo (N : ℕ) : Fifo.Impl (Buffer N) Op Byte where
  step := step
  Legal b o := o.Legal b
  Inv := Wf
  contents := readable
  spec := Op.spec
  step_spec := step_spec

instance (N : ℕ) (b : Buffer N) (o : Op) : Decidable ((fifo N).Legal b o) :=
  Op.Legal.decidable b o

/-- **Refinement**: in every run from the empty buffer no assertion fails, the indices stay
in order, and what was handed out followed by the readable bytes is everything appended or
received, in order. -/
theorem fifo_run (ops : List Op) (h : (fifo N).LegalRun (make N) ops) :
    ∃ out b, (fifo N).run (make N) ops = some (out, b) ∧ b.readIndex ≤ b.writeIndex ∧
      b.writeIndex ≤ b.vec.length ∧ out ++ b.readable = (fifo N).added ops := by
  obtain ⟨out, b, hrun, hw, hc⟩ := (fifo N).run_spec ops (make N) (wf_make N) h
  exact ⟨out, b, hrun, hw.read_le, hw.write_le, by simpa [fifo] using hc⟩

/-- A run with a full read, its recursive read, a partial write and a retrieval. -/
theorem fifo_run_mixed : ∃ out b, (fifo 4).run (make 4)
      [.append [1, 2, 3], .retrieve 2, .readFromSocket 2 [.data [4, 5], .data [6]],
        .writeToSocket 4096 1, .retrieveAll] = some (out, b) ∧
      b.readIndex ≤ b.writeIndex ∧ b.writeIndex ≤ b.vec.length ∧
      out ++ b.readable = (fifo 4).added
        [.append [1, 2, 3], .retrieve 2, .readFromSocket 2 [.data [4, 5], .data [6]],
          .writeToSocket 4096 1, .retrieveAll] :=
  fifo_run _ (by decide)

/-! ### Every result keeps the invariant -/

theorem fill_wf {b b' : Buffer N} (h : b.Wf) {s : List Byte} (hb : b.fill s = some b') : b'.Wf := by
  unfold fill at hb
  cases hw : memcpy b.vec b.writeIndex s with
  | none => simp [hw] at hb
  | some w =>
      simp only [hw, Option.bind_eq_bind, Option.bind_some, Option.some.injEq] at hb
      subst hb
      have h1 := h.read_le
      have hl := length_memcpy hw
      have hle : b.writeIndex + s.length ≤ b.vec.length := by
        by_contra hlt
        rw [memcpy, if_neg hlt] at hw
        cases hw
      refine ⟨?_, ?_⟩
      · simp only
        omega
      · simp only
        omega

theorem readFromSocket_wf : ∀ (script : List ReadResult) (maxBytes : ℕ) {b : Buffer N}
    {r : Buffer N × ℤ}, b.Wf → b.readFromSocket script maxBytes = some r → r.1.Wf := by
  intro script
  induction script with
  | nil =>
      intro maxBytes b r h hr
      obtain ⟨b1, e1, w1, -, room⟩ := makeRoom_spec h maxBytes
      simp only [readFromSocket, e1, Option.bind_eq_bind, Option.bind_some,
        if_neg (Nat.not_lt.mpr room), Option.some.injEq] at hr
      rw [← hr]
      exact w1
  | cons res script ih =>
      intro maxBytes b r h hr
      obtain ⟨b1, e1, w1, -, room⟩ := makeRoom_spec h maxBytes
      rw [readFromSocket] at hr
      simp only [e1, Option.bind_eq_bind, Option.bind_some, if_neg (Nat.not_lt.mpr room)] at hr
      cases res with
      | error e =>
          simp only [Option.some.injEq] at hr
          rw [← hr]
          exact w1
      | data bs =>
          simp only [Option.bind_eq_some_iff] at hr
          obtain ⟨b2, e2, hr⟩ := hr
          have w2 := fill_wf w1 e2
          split_ifs at hr with hfull
          · simp only [Option.bind_eq_some_iff] at hr
            obtain ⟨r3, e3, hr⟩ := hr
            have w3 : r3.1.Wf := ih _ w2 e3
            rw [← Option.some.inj hr]
            exact w3
          · rw [← Option.some.inj hr]
            exact w2

theorem retrieve_wf (len : ℕ) {b : Buffer N} {r : Buffer N × Option ℕ} (h : b.Wf)
    (hr : b.retrieve len = some r) : r.1.Wf := by
  by_cases hl : len ≤ b.readableBytes
  · obtain ⟨b', p, e, w, -⟩ := retrieve_spec h hl
    rw [e] at hr
    rw [← Option.some.inj hr]
    exact w
  · rw [retrieve, if_neg hl] at hr
    cases hr

end Buffer

/-! ### The buffers that occur -/

/-- A buffer that meets the invariant. -/
structure ValidBuffer (N : ℕ) where
  raw : Buffer N
  wf : raw.Wf

namespace ValidBuffer

variable {N : ℕ} {β : Type}

def make (N : ℕ) : ValidBuffer N := ⟨Buffer.make N, Buffer.wf_make N⟩

/-- The readable bytes. -/
def bytes (b : ValidBuffer N) : List Byte := b.raw.readable

def readableBytes (b : ValidBuffer N) : ℕ := b.raw.readableBytes

theorem append_isSome (b : ValidBuffer N) (s : List Byte) : (b.raw.append s).isSome := by
  obtain ⟨b', e, -⟩ := Buffer.append_spec b.wf s
  rw [e]
  rfl

theorem append_wf (b : ValidBuffer N) (s : List Byte) :
    ((b.raw.append s).get (b.append_isSome s)).Wf := by
  obtain ⟨b', e, w, -⟩ := Buffer.append_spec b.wf s
  simpa [e] using w

def append (b : ValidBuffer N) (s : List Byte) : ValidBuffer N :=
  ⟨(b.raw.append s).get (b.append_isSome s), b.append_wf s⟩

/-- A result that keeps the invariant. -/
def lift : (o : Option (Buffer N × β)) → (∀ r, o = some r → r.1.Wf) → Option (ValidBuffer N × β)
  | none, _ => none
  | some r, h => some (⟨r.1, h r rfl⟩, r.2)

def retrieve (b : ValidBuffer N) (len : ℕ) : Option (ValidBuffer N × Option ℕ) :=
  lift (b.raw.retrieve len) (fun _ => Buffer.retrieve_wf len b.wf)

def readFromSocket (script : List ReadResult) (maxBytes : ℕ) (b : ValidBuffer N) :
    Option (ValidBuffer N × ℤ) :=
  lift (b.raw.readFromSocket script maxBytes)
    (fun _ => Buffer.readFromSocket_wf script maxBytes b.wf)

theorem lift_some {o : Option (Buffer N × β)} {ho : ∀ r, o = some r → r.1.Wf}
    {r : Buffer N × β} (h : o = some r) : lift o ho = some (⟨r.1, ho r h⟩, r.2) := by
  subst h
  rfl

theorem lift_none {o : Option (Buffer N × β)} {ho : ∀ r, o = some r → r.1.Wf} (h : o = none) :
    lift o ho = none := by
  subst h
  rfl

@[simp] theorem bytes_make (N : ℕ) : (make N).bytes = [] := rfl

@[simp] theorem readableBytes_eq (b : ValidBuffer N) : b.readableBytes = b.bytes.length :=
  (Buffer.length_readable b.wf).symm

@[simp] theorem bytes_append (b : ValidBuffer N) (s : List Byte) :
    (b.append s).bytes = b.bytes ++ s := by
  obtain ⟨b', e, -, r⟩ := Buffer.append_spec b.wf s
  simpa [append, bytes, e] using r

theorem retrieve_of_le {b : ValidBuffer N} {len : ℕ} (h : len ≤ b.bytes.length) :
    ∃ b' p, b.retrieve len = some (b', p) ∧ b'.bytes = b.bytes.drop len := by
  obtain ⟨b', p, e, w, r⟩ := Buffer.retrieve_spec b.wf (h.trans b.readableBytes_eq.ge)
  exact ⟨⟨b', w⟩, p, lift_some e, r⟩

theorem retrieve_of_lt {b : ValidBuffer N} {len : ℕ} (h : b.bytes.length < len) :
    b.retrieve len = none :=
  lift_none (Buffer.retrieve_isNone (b.readableBytes_eq.trans_lt h))

theorem readFromSocket_of_deliverable {b : ValidBuffer N} {script : List ReadResult} {maxBytes : ℕ}
    (h : Buffer.Deliverable maxBytes script) :
    ∃ b', b.readFromSocket script maxBytes = some (b', Buffer.readReturn script) ∧
      b'.bytes = b.bytes ++ Buffer.received maxBytes script := by
  obtain ⟨b', e, w, r⟩ := Buffer.readFromSocket_spec script maxBytes b.wf h
  exact ⟨⟨b', w⟩, lift_some e, r⟩

end ValidBuffer

end Dagger

import Dagger.BufferSpec
import Dagger.UnsignedNumeral

/-! # Codecs

A codec looks at a connection's read buffer and says whether a message is ready; it may
rewrite the buffer (`src/Codec.h`). -/

namespace Dagger

def CR : Byte := 13
def LF : Byte := 10
def SP : Byte := 32
def COLON : Byte := 58
def NUL : Byte := 0

/-- The largest `unsigned long long`. -/
abbrev ULLONG_MAX : ℕ := 18446744073709551615

/-- `std::stoull` on a string made of `str`, which it reads up to a NUL at most: a NUL ends the
numeral as any other byte does that is not a digit. -/
def stoull (str : List Byte) : Except UnsignedNumeral.Exception (ℕ × ℕ) :=
  UnsignedNumeral.convert ULLONG_MAX str

namespace Codec

variable {N : ℕ}

inductive Model where
  | HTTP_MODEL
  | LENGTH_DATA_MODEL
  | FIXED_LENGTH_MODEL
  | UNLIMITED_MODEL
deriving DecidableEq, Repr

/-- `data_len` after the `try` block, for the string of the first `lengthSize` bytes; a line is
logged when not all of them were used, and when an exception is caught. -/
def dataLen (lengthStr : List Byte) : ℕ :=
  match stoull lengthStr with
  | .ok (v, _handleSize) => v
  | .error _ => 0

def lengthDataDefaultCallback (lengthSize : ℕ) (b : Buffer N) : Bool × Buffer N :=
  if b.readableBytes < lengthSize then (false, b)
  else if b.readableBytes - lengthSize < dataLen (b.readable.take lengthSize) then (false, b)
  else (true, b)

def fixedLengthDefaultCallback (requiredBytes : ℕ) (b : Buffer N) : Bool × Buffer N :=
  (decide (requiredBytes < b.readableBytes), b)

/-- A complete request is there when `CR LF CR LF` occurs; the last of the four bytes of its
first occurrence is overwritten by `'\0'`. -/
def httpRequestDefaultCallback (b : Buffer N) : Bool × Buffer N :=
  match b.findStr [CR, LF, CR, LF] with
  | none => (false, b)
  | some pc => (true, { b with vec := b.vec.set (b.readIndex + pc + 3) NUL })

/-- `Codec(model, data).check`. -/
def check (model : Model) (data : ℕ) (b : Buffer N) : Bool × Buffer N :=
  match model with
  | .HTTP_MODEL => httpRequestDefaultCallback b
  | .LENGTH_DATA_MODEL => lengthDataDefaultCallback data b
  | .FIXED_LENGTH_MODEL => fixedLengthDefaultCallback data b
  | .UNLIMITED_MODEL => (true, b)

end Codec

/-! ### `memmem` -/

/-- An occurrence found lies inside the list. -/
theorem memmem_le {str : List Byte} : ∀ {l : List Byte} {n : ℕ}, memmem str l = some n →
    n + str.length ≤ l.length
  | [], n, h => by
      unfold memmem at h
      split_ifs at h with hs
      obtain rfl := Option.some.inj h
      simp [hs]
  | b :: bs, n, h => by
      unfold memmem at h
      split_ifs at h with hp
      · obtain rfl := Option.some.inj h
        simpa using (List.isPrefixOf_iff_prefix.mp hp).length_le
      · obtain ⟨k, hk, rfl⟩ := Option.map_eq_some_iff.mp h
        have := memmem_le hk
        simp only [List.length_cons]
        omega

namespace Codec

variable {N : ℕ} {b b' : Buffer N}

/-- The codec keeps the invariant and changes one readable byte. -/
theorem httpRequestDefaultCallback_spec (h : b.Wf)
    (hc : httpRequestDefaultCallback b = (true, b')) :
    b'.Wf ∧ ∃ pc, b.findStr [CR, LF, CR, LF] = some pc ∧ pc + 4 ≤ b.readableBytes ∧
      b'.readable = b.readable.set (pc + 3) NUL := by
  unfold httpRequestDefaultCallback at hc
  cases hf : b.findStr [CR, LF, CR, LF] with
  | none =>
      rw [hf] at hc
      cases hc
  | some pc =>
      rw [hf] at hc
      obtain rfl := (Prod.mk.inj hc).2
      have hle := memmem_le hf
      rw [Buffer.length_readable h] at hle
      refine ⟨⟨h.read_le, by simpa using h.write_le⟩, pc, rfl, hle, ?_⟩
      have hd : b.vec.set (b.readIndex + pc + 3) NUL = b.vec.set (b.readIndex + (pc + 3)) NUL := by
        rw [Nat.add_assoc]
      simp only [Buffer.readable, Buffer.readableBytes, hd]
      rw [List.drop_set, if_neg (by omega), Nat.add_sub_cancel_left, List.take_set]

theorem httpRequestDefaultCallback_wf (h : b.Wf) : (httpRequestDefaultCallback b).2.Wf := by
  unfold httpRequestDefaultCallback
  split
  · exact h
  · exact ⟨h.read_le, by simpa using h.write_le⟩

@[simp] theorem lengthDataDefaultCallback_snd (lengthSize : ℕ) (b : Buffer N) :
    (lengthDataDefaultCallback lengthSize b).2 = b := by
  unfold lengthDataDefaultCallback
  split_ifs <;> rfl

theorem check_wf (model : Model) (data : ℕ) (h : b.Wf) : (check model data b).2.Wf := by
  cases model with
  | HTTP_MODEL => exact httpRequestDefaultCallback_wf h
  | LENGTH_DATA_MODEL => exact (lengthDataDefaultCallback_snd data b).symm ▸ h
  | FIXED_LENGTH_MODEL | UNLIMITED_MODEL => exact h

/-- When a message is ready: a matter of the readable bytes. -/
def ready (model : Model) (data : ℕ) (bytes : List Byte) : Bool :=
  match model with
  | .HTTP_MODEL => (memmem [CR, LF, CR, LF] bytes).isSome
  | .LENGTH_DATA_MODEL =>
      decide (data ≤ bytes.length ∧ dataLen (bytes.take data) ≤ bytes.length - data)
  | .FIXED_LENGTH_MODEL => decide (data < bytes.length)
  | .UNLIMITED_MODEL => true

theorem check_fst (model : Model) (data : ℕ) (h : b.Wf) :
    (check model data b).1 = ready model data b.readable := by
  cases model with
  | HTTP_MODEL =>
      simp only [check, httpRequestDefaultCallback, ready, Buffer.findStr]
      cases memmem [CR, LF, CR, LF] b.readable <;> rfl
  | LENGTH_DATA_MODEL =>
      simp only [check, lengthDataDefaultCallback, ready, Buffer.length_readable h]
      split_ifs with hshort hdata
      · simp [Nat.not_le.mpr hshort]
      · simp [Nat.not_le.mpr hdata]
      · simp [Nat.not_lt.mp hshort, Nat.not_lt.mp hdata]
  | FIXED_LENGTH_MODEL =>
      simp only [check, fixedLengthDefaultCallback, ready, Buffer.length_readable h]
  | UNLIMITED_MODEL => rfl

end Codec

namespace ValidBuffer

variable {N : ℕ}

/-- `Codec(model, data).check`, on buffers that meet the invariant. -/
def check (model : Codec.Model) (data : ℕ) (b : ValidBuffer N) : Bool × ValidBuffer N :=
  ((Codec.check model data b.raw).1,
    ⟨(Codec.check model data b.raw).2, Codec.check_wf model data b.wf⟩)

@[simp] theorem check_fst (model : Codec.Model) (data : ℕ) (b : ValidBuffer N) :
    (b.check model data).1 = Codec.ready model data b.bytes := Codec.check_fst model data b.wf

end ValidBuffer

end Dagger

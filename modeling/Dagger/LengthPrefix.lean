import Dagger.Codec

/-! # Length-prefixed messages

What `length_data_default_callback` is for: by its comment it returns true when the length field
and the data are there, and retrieves the field.  It retrieves nothing, and a field that is no
numeral counts as the length 0. -/

namespace Dagger

open UnsignedNumeral

/-- The bytes begin with a length field of `lengthSize` digits and the data it announces. -/
structure LengthPrefixed (lengthSize : ℕ) (bytes : List Byte) : Prop where
  le : lengthSize ≤ bytes.length
  digits : ∀ c ∈ bytes.take lengthSize, isDigit c = true
  range : value (bytes.take lengthSize) ≤ ULLONG_MAX
  complete : lengthSize + value (bytes.take lengthSize) ≤ bytes.length

/-- The length field reads as a number, and fewer bytes follow it. -/
def AwaitsData (lengthSize : ℕ) (bytes : List Byte) : Prop :=
  ∃ spaces sign ds rest, Splits (bytes.take lengthSize) spaces sign ds rest ∧
    value ds ≤ ULLONG_MAX ∧
    bytes.length - lengthSize < inType ULLONG_MAX (decide (sign = [45])) (value ds)

namespace Codec

/-- A caught exception leaves `data_len` at 0. -/
theorem lt_dataLen_iff {str : List Byte} {n : ℕ} : n < dataLen str ↔
    ∃ spaces sign ds rest, Splits str spaces sign ds rest ∧ value ds ≤ ULLONG_MAX ∧
      n < inType ULLONG_MAX (decide (sign = [45])) (value ds) := by
  unfold dataLen stoull
  constructor
  · intro h
    cases hconv : convert ULLONG_MAX str with
    | error e =>
        rw [hconv] at h
        exact absurd h (Nat.not_lt_zero n)
    | ok r =>
        rw [hconv] at h
        obtain ⟨spaces, sign, ds, rest, hsplit, hmax, hv, -⟩ := convert_eq_ok_iff.mp hconv
        exact ⟨spaces, sign, ds, rest, hsplit, hmax, hv ▸ h⟩
  · rintro ⟨spaces, sign, ds, rest, hsplit, hmax, h⟩
    rw [hsplit.convert, if_neg (Nat.not_lt.mpr hmax)]
    exact h

/-- A field of digits is read to its end. -/
theorem dataLen_of_digits {str : List Byte} (hdigits : ∀ c ∈ str, isDigit c = true)
    (hne : str ≠ []) (hmax : value str ≤ ULLONG_MAX) : dataLen str = value str := by
  have hconv := (splits_of_digits hdigits hne).convert ULLONG_MAX
  rw [if_neg (Nat.not_lt.mpr hmax)] at hconv
  unfold dataLen stoull
  rw [hconv]
  rfl

end Codec

namespace ValidBuffer

open Codec

variable {N : ℕ} {b : ValidBuffer N} {lengthSize : ℕ}

/-- The codec tells messages from what is not one, and retrieves the length field. -/
structure FramesExactly (lengthSize : ℕ) (b : ValidBuffer N) : Prop where
  accepts : LengthPrefixed lengthSize b.bytes →
    (b.check .LENGTH_DATA_MODEL lengthSize).1 = true ∧
      (b.check .LENGTH_DATA_MODEL lengthSize).2.bytes = b.bytes.drop lengthSize
  rejects : ¬ LengthPrefixed lengthSize b.bytes →
    b.check .LENGTH_DATA_MODEL lengthSize = (false, b)

/-- The buffer is left as it is. -/
theorem check_lengthData_snd (b : ValidBuffer N) (lengthSize : ℕ) :
    (b.check .LENGTH_DATA_MODEL lengthSize).2 = b := by
  obtain ⟨raw, wf⟩ := b
  simp [check, Codec.check]

theorem check_lengthData_eq_false_iff : (b.check .LENGTH_DATA_MODEL lengthSize).1 = false ↔
    b.bytes.length < lengthSize ∨ AwaitsData lengthSize b.bytes := by
  have hawaits : b.bytes.length - lengthSize < dataLen (b.bytes.take lengthSize) ↔
      AwaitsData lengthSize b.bytes := lt_dataLen_iff
  rw [← hawaits, check_fst, ready, decide_eq_false_iff_not]
  omega

/-- A message that is there is accepted. -/
theorem not_awaits_of_lengthPrefixed {bytes : List Byte} (h : 1 ≤ lengthSize)
    (hp : LengthPrefixed lengthSize bytes) : ¬ AwaitsData lengthSize bytes := by
  intro hawaits
  have hne : bytes.take lengthSize ≠ [] := by
    have := hp.le
    rw [Ne, List.take_eq_nil_iff, ← List.length_eq_zero_iff]
    omega
  have hlt := lt_dataLen_iff.mpr hawaits
  rw [dataLen_of_digits hp.digits hne hp.range] at hlt
  have := hp.complete
  omega

/-- **Framing is exact** only where the codec returns false: on a field that has not arrived, and
on one that reads as a larger number than there are bytes behind it. -/
theorem framesExactly_iff (h : 1 ≤ lengthSize) : b.FramesExactly lengthSize ↔
    b.bytes.length < lengthSize ∨ AwaitsData lengthSize b.bytes := by
  rw [← check_lengthData_eq_false_iff]
  constructor
  · intro hexact
    by_cases hp : LengthPrefixed lengthSize b.bytes
    · -- the field is still there
      have hdrop := (hexact.accepts hp).2
      rw [check_lengthData_snd] at hdrop
      have hlen := congrArg List.length hdrop
      rw [List.length_drop] at hlen
      have := hp.le
      omega
    · rw [hexact.rejects hp]
  · intro hfalse
    refine ⟨fun hp => ?_, fun _ => Prod.ext hfalse (check_lengthData_snd b lengthSize)⟩
    rcases check_lengthData_eq_false_iff.mp hfalse with hshort | hawaits
    · have := hp.le
      omega
    · exact absurd hawaits (not_awaits_of_lengthPrefixed h hp)

/-- `"12"` announces twelve bytes, none of which has arrived. -/
theorem framesExactly_iff_awaiting :
    ((make 16).append [49, 50]).FramesExactly 2 := by
  refine (framesExactly_iff (by decide)).mpr (Or.inr ?_)
  rw [bytes_append, bytes_make]
  have hdigits : ∀ c ∈ [49, 50], isDigit c = true := List.all_eq_true.mp rfl
  refine ⟨[], [], [49, 50], [], splits_of_digits hdigits ?_, ?_, ?_⟩ <;> decide

/-- The field of the complete message `"2hi"` is not retrieved, and `"ab"` is taken for a length
field. -/
theorem field_kept_and_letters_accepted :
    (LengthPrefixed 1 ((make 16).append [50, 104, 105]).bytes ∧
      ((make 16).append [50, 104, 105]).check .LENGTH_DATA_MODEL 1 =
        (true, (make 16).append [50, 104, 105]) ∧
      ¬ ((make 16).append [50, 104, 105]).FramesExactly 1) ∧
    (¬ LengthPrefixed 2 ((make 16).append [97, 98]).bytes ∧
      (((make 16).append [97, 98]).check .LENGTH_DATA_MODEL 2).1 = true ∧
      ¬ ((make 16).append [97, 98]).FramesExactly 2) := by
  have hmessage : LengthPrefixed 1 ((make 16).append [50, 104, 105]).bytes := by
    rw [bytes_append, bytes_make]
    exact ⟨by decide, List.all_eq_true.mp rfl, by decide, by decide⟩
  have hletters : ¬ LengthPrefixed 2 ((make 16).append [97, 98]).bytes := by
    rw [bytes_append, bytes_make]
    intro hp
    exact absurd (hp.digits 97 (by decide)) (by decide)
  have haccepted : (((make 16).append [97, 98]).check .LENGTH_DATA_MODEL 2).1 = true := by
    rw [check_fst, bytes_append, bytes_make]
    decide
  refine ⟨⟨hmessage, Prod.ext ?_ (check_lengthData_snd _ 1), fun hexact => ?_⟩,
    hletters, haccepted, fun hexact => ?_⟩
  · rw [check_fst, bytes_append, bytes_make]
    decide
  · have hdrop := (hexact.accepts hmessage).2
    rw [check_lengthData_snd, bytes_append, bytes_make] at hdrop
    exact absurd hdrop (by decide)
  · rw [hexact.rejects hletters] at haccepted
    cases haccepted

end ValidBuffer

end Dagger

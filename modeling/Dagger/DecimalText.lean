import Dagger.UnsignedNumeral
import Mathlib.Data.Nat.Digits.Lemmas

/-! # Decimal text

`decimal` writes a natural number in base 10 without leading zeros, as `std::to_string` does for
the unsigned types.  It is inverted by `value`.

`strtol` reads a signed numeral in the manner of the C library: white space is skipped, an
optional sign and the longest run of digits are read, and a number outside the type is replaced by
the nearest one inside.  `Splits.strtol` gives its value on a string that can be cut, and
`strtol_of_not_splits` on one that cannot. -/

namespace UnsignedNumeral

/-! ### Writing a number -/

/-- The character of a digit. -/
def digitChar (d : ℕ) : UInt8 := UInt8.ofNat (48 + d)

def decimal (n : ℕ) : List UInt8 :=
  if n = 0 then [48] else (Nat.digits 10 n).reverse.map digitChar

variable {n d : ℕ}

theorem toNat_digitChar (h : d < 10) : (digitChar d).toNat = 48 + d := by
  unfold digitChar
  rw [UInt8.toNat_ofNat']
  omega

theorem isDigit_digitChar (h : d < 10) : isDigit (digitChar d) = true := by
  rw [isDigit_iff, toNat_digitChar h]
  omega

theorem decimal_ne_nil (n : ℕ) : decimal n ≠ [] := by
  unfold decimal
  split_ifs with h
  · exact List.cons_ne_nil _ _
  · intro hnil
    rw [List.map_eq_nil_iff, List.reverse_eq_nil_iff] at hnil
    exact Nat.digits_ne_nil_iff_ne_zero.mpr h hnil

theorem isDigit_of_mem_decimal {c : UInt8} (h : c ∈ decimal n) : isDigit c = true := by
  unfold decimal at h
  split_ifs at h
  · obtain rfl := List.mem_singleton.mp h
    decide
  · obtain ⟨d, hd, rfl⟩ := List.mem_map.mp h
    exact isDigit_digitChar (Nat.digits_lt_base (by decide) (List.mem_reverse.mp hd))

/-- What is written reads as the number. -/
@[simp] theorem value_decimal (n : ℕ) : value (decimal n) = n := by
  unfold decimal
  split_ifs with h
  · rw [h]
    decide
  · unfold value
    rw [List.map_map, ← List.map_reverse, List.reverse_reverse]
    have hmap : (Nat.digits 10 n).map ((fun c => c.toNat - 48) ∘ digitChar) = Nat.digits 10 n := by
      refine (List.map_congr_left fun d hd => ?_).trans (List.map_id _)
      have hlt := Nat.digits_lt_base (by decide) hd
      rw [Function.comp_apply, toNat_digitChar hlt]
      exact Nat.add_sub_cancel_left 48 d
    rw [hmap, Nat.ofDigits_digits]

theorem length_decimal_le {k : ℕ} (h : n < 10 ^ (k + 1)) : (decimal n).length ≤ k + 1 := by
  unfold decimal
  split_ifs
  · exact Nat.succ_le_succ (Nat.zero_le k)
  · rw [List.length_map, List.length_reverse]
    exact (Nat.digits_length_le_iff (by decide) n).mpr h

/-- Only the numeral of 0 begins with a zero. -/
theorem head_decimal_ne_zero (h : n ≠ 0) : (decimal n).head? ≠ some 48 := by
  have hne : Nat.digits 10 n ≠ [] := Nat.digits_ne_nil_iff_ne_zero.mpr h
  have hlast := Nat.getLast_digit_ne_zero 10 h
  have hlt := Nat.digits_lt_base (by decide) (List.getLast_mem hne)
  unfold decimal
  rw [if_neg h, List.head?_map, List.head?_reverse, List.getLast?_eq_some_getLast hne]
  intro heq
  have hchar := congrArg UInt8.toNat (Option.some.inj heq)
  rw [toNat_digitChar hlt] at hchar
  have h48 : (48 : UInt8).toNat = 48 := by decide
  omega

theorem decimal_of_lt (h : n < 10) : decimal n = [digitChar n] := by
  unfold decimal
  split_ifs with h0
  · rw [h0]
    rfl
  · rw [Nat.digits_of_lt 10 n h0 h]
    rfl

theorem decimal_of_le (h : 10 ≤ n) : decimal n = decimal (n / 10) ++ [digitChar (n % 10)] := by
  have hn : n ≠ 0 := by omega
  have hdiv : n / 10 ≠ 0 := by omega
  unfold decimal
  rw [if_neg hn, if_neg hdiv, Nat.digits_def' (by decide) (Nat.pos_of_ne_zero hn),
    List.reverse_cons, List.map_append, List.map_singleton]

theorem utf8EncodeChar_digitChar :
    ∀ d < 10, String.utf8EncodeChar (Nat.digitChar d) = [digitChar d] := by decide

theorem flatMap_toDigits (n : ℕ) :
    (Nat.toDigits 10 n).flatMap String.utf8EncodeChar = decimal n := by
  induction n using Nat.strong_induction_on with
  | _ n ih =>
      by_cases h : n < 10
      · rw [Nat.toDigits_of_lt_base h, List.flatMap_singleton, utf8EncodeChar_digitChar n h,
          decimal_of_lt h]
      · have hle : 10 ≤ n := Nat.not_lt.mp h
        rw [Nat.toDigits_of_base_le (by decide) hle, List.flatMap_append, List.flatMap_singleton,
          ih (n / 10) (by omega), utf8EncodeChar_digitChar _ (Nat.mod_lt n (by decide)),
          decimal_of_le hle]

/-- The same text as a `String`. -/
theorem toUTF8_toString (n : ℕ) : (toString n).toUTF8.data.toList = decimal n := by
  have h : (toString n).toUTF8 =
      ((Nat.toDigits 10 n).flatMap String.utf8EncodeChar).toByteArray := rfl
  rw [h, flatMap_toDigits, List.data_toByteArray]

/-! ### Reading a signed numeral -/

/-- The result in a type with the numbers from `-(max + 1)` to `max`. -/
def strtol (max : ℕ) (str : List UInt8) : ℤ :=
  let (negative, s) := readSign (str.dropWhile isSpace)
  let v := value (s.takeWhile isDigit)
  if negative then -((min v (max + 1) : ℕ) : ℤ) else ((min v max : ℕ) : ℤ)

variable {str spaces sign ds rest : List UInt8}

theorem Splits.strtol (h : Splits str spaces sign ds rest) (max : ℕ) :
    strtol max str = if sign = [45] then -((min (value ds) (max + 1) : ℕ) : ℤ)
      else ((min (value ds) max : ℕ) : ℤ) := by
  unfold UnsignedNumeral.strtol
  simp only [h.dropWhile, h.readSign, h.takeWhile, decide_eq_true_eq]

/-- A string that cannot be cut has no digits where they are looked for. -/
theorem strtol_of_not_splits (h : ∀ spaces sign ds rest, ¬ Splits str spaces sign ds rest)
    (max : ℕ) : strtol max str = 0 := by
  have hnil : (readSign (str.dropWhile isSpace)).2.takeWhile isDigit = [] := by
    by_contra hne
    obtain ⟨spaces, sign, ds, rest, hsplit⟩ := exists_splits_of_scan hne
    exact h spaces sign ds rest hsplit
  have hzero : value ([] : List UInt8) = 0 := rfl
  unfold strtol
  simp only [hnil, hzero, Nat.zero_min, Nat.cast_zero, neg_zero, ite_self]

end UnsignedNumeral

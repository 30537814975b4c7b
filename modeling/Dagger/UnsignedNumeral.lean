import Mathlib.Data.List.Basic
import Mathlib.Data.List.TakeWhile
import Mathlib.Data.Nat.Digits.Defs

/-! # Unsigned decimal numerals

The conversion of a string to an unsigned integer type of the C library (`strtoul`, `strtoull`,
and `std::stoul`, `std::stoull` over them) in base 10.  White space is skipped, an optional sign
and the longest run of digits are read, and what follows is ignored; after a `-` the value is
negated in the type.

`convert` computes it; `Splits` says how a string is cut without mentioning scans, and
`convert_eq_ok_iff` connects the two. -/

namespace UnsignedNumeral

/-- `isspace` in the "C" locale. -/
def isSpace (c : UInt8) : Bool := c == 32 || (9 ≤ c && c ≤ 13)

def isDigit (c : UInt8) : Bool := 48 ≤ c && c ≤ 57

/-- The number that a string of digits stands for, the most significant digit first. -/
def value (ds : List UInt8) : ℕ := Nat.ofDigits 10 (ds.map fun c => c.toNat - 48).reverse

inductive Exception where
  | invalid_argument
  | out_of_range
deriving DecidableEq, Repr

/-- Whether a `-` comes first, and what follows the optional sign. -/
def readSign : List UInt8 → Bool × List UInt8
  | [] => (false, [])
  | c :: s => if c = 45 then (true, s) else if c = 43 then (false, s) else (false, c :: s)

/-- The value in a type whose largest number is `max`. -/
def inType (max : ℕ) (negative : Bool) (v : ℕ) : ℕ :=
  if negative then (max + 1 - v) % (max + 1) else v

/-- The number converted to, and how many characters of `str` were used. -/
def convert (max : ℕ) (str : List UInt8) : Except Exception (ℕ × ℕ) :=
  let (negative, s) := readSign (str.dropWhile isSpace)
  let ds := s.takeWhile isDigit
  if ds = [] then .error .invalid_argument
  else if max < value ds then .error .out_of_range
  else .ok (inType max negative (value ds), str.length - (s.length - ds.length))

/-! ### How a string is cut -/

/-- White space, an optional sign, at least one digit, and a rest that does not begin with
another. -/
structure Splits (str spaces sign ds rest : List UInt8) : Prop where
  eq : str = spaces ++ (sign ++ (ds ++ rest))
  spaces : ∀ c ∈ spaces, isSpace c = true
  sign : sign = [] ∨ sign = [43] ∨ sign = [45]
  digits : ∀ c ∈ ds, isDigit c = true
  ne_nil : ds ≠ []
  stop : ∀ c ∈ rest.head?, isDigit c = false

variable {str spaces sign ds rest : List UInt8} {c : UInt8} {max v pos : ℕ}

theorem isDigit_iff : isDigit c = true ↔ 48 ≤ c.toNat ∧ c.toNat ≤ 57 := by
  simp only [isDigit, Bool.and_eq_true, decide_eq_true_eq, UInt8.le_iff_toNat_le]
  rfl

theorem isSpace_of_isDigit (h : isDigit c = true) : isSpace c = false := by
  have hc := isDigit_iff.mp h
  have h32 : (c == 32) = false := by
    rw [beq_eq_false_iff_ne]
    rintro rfl
    exact absurd hc.1 (by decide)
  have h13 : ¬ c ≤ 13 := by
    rw [UInt8.le_iff_toNat_le, Nat.not_le]
    exact Nat.lt_of_lt_of_le (by decide) hc.1
  simp [isSpace, h32, h13]

theorem readSign_of_isDigit (h : isDigit c = true) (s : List UInt8) :
    readSign (c :: s) = (false, c :: s) := by
  have h45 : c ≠ 45 := by
    rintro rfl
    exact absurd h (by decide)
  have h43 : c ≠ 43 := by
    rintro rfl
    exact absurd h (by decide)
  rw [readSign, if_neg h45, if_neg h43]

/-- The scans stop where the parts of the string end. -/
theorem Splits.dropWhile (h : Splits str spaces sign ds rest) :
    str.dropWhile isSpace = sign ++ (ds ++ rest) := by
  rw [h.eq, List.dropWhile_append_of_pos h.spaces]
  rcases h.sign with rfl | rfl | rfl
  · obtain ⟨d, ds', rfl⟩ := List.exists_cons_of_ne_nil h.ne_nil
    have hd := isSpace_of_isDigit (h.digits d List.mem_cons_self)
    exact List.dropWhile_cons_of_neg (by simp [hd])
  · exact List.dropWhile_cons_of_neg (by decide)
  · exact List.dropWhile_cons_of_neg (by decide)

theorem Splits.readSign (h : Splits str spaces sign ds rest) :
    readSign (sign ++ (ds ++ rest)) = (decide (sign = [45]), ds ++ rest) := by
  rcases h.sign with rfl | rfl | rfl
  · obtain ⟨d, ds', rfl⟩ := List.exists_cons_of_ne_nil h.ne_nil
    exact readSign_of_isDigit (h.digits d List.mem_cons_self) _
  · rfl
  · rfl

theorem Splits.takeWhile (h : Splits str spaces sign ds rest) :
    (ds ++ rest).takeWhile isDigit = ds := by
  rw [List.takeWhile_append_of_pos h.digits]
  cases rest with
  | nil => simp
  | cons r rest =>
      have hr := h.stop r rfl
      rw [List.takeWhile_cons_of_neg (by simp [hr]), List.append_nil]

/-- A string that can be cut is converted unless the number is too large. -/
theorem Splits.convert (h : Splits str spaces sign ds rest) (max : ℕ) :
    convert max str = if max < value ds then .error .out_of_range
      else .ok (inType max (decide (sign = [45])) (value ds),
        spaces.length + sign.length + ds.length) := by
  have hpos : str.length - ((ds ++ rest).length - ds.length) =
      spaces.length + sign.length + ds.length := by
    rw [h.eq]
    simp only [List.length_append]
    omega
  unfold UnsignedNumeral.convert
  simp only [h.dropWhile, h.readSign, h.takeWhile, if_neg h.ne_nil, hpos]

/-- What precedes the digits. -/
theorem exists_readSign (s : List UInt8) : ∃ sign, s = sign ++ (readSign s).2 ∧
    (sign = [] ∨ sign = [43] ∨ sign = [45]) := by
  cases s with
  | nil => exact ⟨[], rfl, Or.inl rfl⟩
  | cons c s =>
      by_cases h45 : c = 45
      · subst h45
        exact ⟨[45], rfl, Or.inr (Or.inr rfl)⟩
      · by_cases h43 : c = 43
        · subst h43
          exact ⟨[43], rfl, Or.inr (Or.inl rfl)⟩
        · refine ⟨[], ?_, Or.inl rfl⟩
          rw [readSign, if_neg h45, if_neg h43]
          rfl

/-- The scans cut a string in which they find digits. -/
theorem exists_splits_of_scan
    (h : (readSign (str.dropWhile isSpace)).2.takeWhile isDigit ≠ []) :
    ∃ spaces sign ds rest, Splits str spaces sign ds rest := by
  obtain ⟨sign, hsign, hcases⟩ := exists_readSign (str.dropWhile isSpace)
  set s := (readSign (str.dropWhile isSpace)).2
  refine ⟨str.takeWhile isSpace, sign, s.takeWhile isDigit, s.dropWhile isDigit, ?_, ?_, hcases,
    ?_, h, ?_⟩
  · rw [List.takeWhile_append_dropWhile, ← hsign, List.takeWhile_append_dropWhile]
  · exact fun c hc => List.mem_takeWhile_imp hc
  · exact fun c hc => List.mem_takeWhile_imp hc
  · intro c hc
    have hlast := List.head?_dropWhile_not isDigit s
    rw [Option.mem_def.mp hc] at hlast
    simpa using hlast

/-- A string that is converted can be cut. -/
theorem exists_splits {r : ℕ × ℕ} (h : convert max str = .ok r) :
    ∃ spaces sign ds rest, Splits str spaces sign ds rest := by
  refine exists_splits_of_scan fun hnil => ?_
  unfold UnsignedNumeral.convert at h
  simp only [if_pos hnil, reduceCtorEq] at h

/-- **The conversion** succeeds on the strings that can be cut and whose number fits. -/
theorem convert_eq_ok_iff : convert max str = .ok (v, pos) ↔
    ∃ spaces sign ds rest, Splits str spaces sign ds rest ∧ value ds ≤ max ∧
      v = inType max (decide (sign = [45])) (value ds) ∧
      pos = spaces.length + sign.length + ds.length := by
  constructor
  · intro h
    obtain ⟨spaces, sign, ds, rest, hsplit⟩ := exists_splits h
    rw [hsplit.convert] at h
    by_cases hmax : max < value ds
    · rw [if_pos hmax] at h
      cases h
    · rw [if_neg hmax] at h
      obtain ⟨rfl, rfl⟩ := Prod.mk.inj (Except.ok.inj h)
      exact ⟨spaces, sign, ds, rest, hsplit, Nat.not_lt.mp hmax, rfl, rfl⟩
  · rintro ⟨spaces, sign, ds, rest, hsplit, hmax, rfl, rfl⟩
    rw [hsplit.convert, if_neg (Nat.not_lt.mpr hmax)]

/-- A string of digits is a numeral of its own. -/
theorem splits_of_digits (h : ∀ c ∈ str, isDigit c = true) (hne : str ≠ []) :
    Splits str [] [] str [] :=
  ⟨by simp, nofun, Or.inl rfl, h, hne, nofun⟩

end UnsignedNumeral

import Mathlib.Data.Int.CardIntervalMod

/-! # Round robin with a counter that wraps around

The pick number `k` goes to `k % W % n`: a counter that wraps around at `W` is taken modulo the
number `n` of the parties.  Every time around, one party may get one pick more than another, and
one more in the round that has begun (`picks_le`). -/

namespace RoundRobin

variable {W n i j : ℕ}

/-- How many of the first `K` picks go to `i`. -/
def picks (W n i K : ℕ) : ℕ := K.count fun k => k % W % n = i

@[simp] theorem picks_zero (W n i : ℕ) : picks W n i 0 = 0 := Nat.count_zero _

theorem picks_succ (W n i K : ℕ) :
    picks W n i (K + 1) = picks W n i K + if K % W % n = i then 1 else 0 :=
  Nat.count_succ _ K

/-- Before the counter wraps around. -/
theorem picks_of_le (hi : i < n) {K : ℕ} (hK : K ≤ W) :
    picks W n i K = K / n + if i < K % n then 1 else 0 := by
  have hn : 0 < n := Nat.zero_lt_of_lt hi
  have hcount : picks W n i K = K.count (· ≡ i [MOD n]) := by
    refine List.countP_congr fun k hk => ?_
    have hlt : k < W := (List.mem_range.mp hk).trans_le hK
    simp only [decide_eq_true_iff]
    rw [Nat.mod_eq_of_lt hlt]
    unfold Nat.ModEq
    rw [Nat.mod_eq_of_lt hi]
  rw [hcount, Nat.count_modEq_card K hn i, Nat.mod_eq_of_lt hi]

/-- Once around. -/
theorem picks_add (W n i K : ℕ) : picks W n i (W + K) = picks W n i W + picks W n i K := by
  unfold picks
  rw [Nat.count_add]
  simp only [Nat.add_mod_left]

theorem picks_le_of_le (hi : i < n) (hj : j < n) {K : ℕ} (hK : K ≤ W) :
    picks W n i K ≤ picks W n j K + 1 := by
  rw [picks_of_le hi hK, picks_of_le hj hK]
  split_ifs <;> omega

theorem picks_le (hW : 0 < W) (hi : i < n) (hj : j < n) (K : ℕ) :
    picks W n i K ≤ picks W n j K + K / W + 1 := by
  induction K using Nat.strong_induction_on with
  | _ K ih =>
      by_cases hK : K < W
      · exact (picks_le_of_le hi hj hK.le).trans (Nat.add_le_add_right (Nat.le_add_right _ _) 1)
      · obtain ⟨k, rfl⟩ := Nat.exists_eq_add_of_le (Nat.not_lt.mp hK)
        have hround := picks_le_of_le hi hj (le_refl W)
        have hrest := ih k (by omega)
        rw [picks_add, picks_add, Nat.add_div_left k hW]
        omega

end RoundRobin

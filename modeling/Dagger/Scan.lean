import Mathlib.Data.List.Basic

/-! # Scanning a region with a cursor

Loops of the form `while (p(*ptr)) ++ptr;` over a region of memory.  The region is a list
and the cursor an offset into it; `skipWhile` and `store` are `none` as soon as a cell
outside the region would be read or written.

`Stops p l pre rest` describes where such a loop comes to a halt, without mentioning
offsets: `l` is `pre` followed by `rest`, everything in `pre` satisfies `p` and `rest`
starts with an element that does not.  A loop stays inside its region exactly when there is
such a split of the cells from the cursor on (`skipWhile_eq_some_iff`). -/

namespace Scan

universe u

variable {α : Type u} {p : α → Bool} {l pre rest mem : List α} {ptr q : ℕ}

/-- The number of iterations of the loop. -/
def steps (p : α → Bool) : List α → Option ℕ
  | [] => none
  | x :: xs => if p x then (steps p xs).map (· + 1) else some 0

/-- `while (p(*ptr)) ++ptr;`: the cursor after the loop. -/
def skipWhile (p : α → Bool) (mem : List α) (ptr : ℕ) : Option ℕ :=
  (steps p (mem.drop ptr)).map (ptr + ·)

/-- `*ptr = x;` -/
def store (mem : List α) (ptr : ℕ) (x : α) : Option (List α) :=
  if ptr < mem.length then some (mem.set ptr x) else none

/-- The loop over `l` passes `pre` and halts in front of `rest`. -/
structure Stops (p : α → Bool) (l pre rest : List α) : Prop where
  eq : l = pre ++ rest
  all : ∀ x ∈ pre, p x = true
  head : ∃ c cs, rest = c :: cs ∧ p c = false

theorem Stops.ne_nil (h : Stops p l pre rest) : rest ≠ [] := by
  obtain ⟨c, cs, rfl, -⟩ := h.head
  exact List.cons_ne_nil c cs

theorem Stops.cons {x : α} (hx : p x = true) (h : Stops p l pre rest) :
    Stops p (x :: l) (x :: pre) rest := by
  refine ⟨by rw [h.eq, List.cons_append], ?_, h.head⟩
  intro y hy
  rcases List.mem_cons.mp hy with rfl | hy
  · exact hx
  · exact h.all y hy

theorem stops_nil {x : α} (hx : p x = false) : Stops p (x :: l) [] (x :: l) :=
  ⟨rfl, fun _ h => (List.not_mem_nil h).elim, x, l, rfl, hx⟩

theorem steps_eq_some_iff : ∀ {l : List α} {n : ℕ},
    steps p l = some n ↔ ∃ pre rest, Stops p l pre rest ∧ pre.length = n
  | [], n => by
      constructor
      · intro h
        cases h
      · rintro ⟨pre, rest, h, -⟩
        exact absurd (List.append_eq_nil_iff.mp h.eq.symm).2 h.ne_nil
  | x :: xs, n => by
      unfold steps
      cases hx : p x with
      | true =>
          simp only [if_true, Option.map_eq_some_iff]
          constructor
          · rintro ⟨k, hk, rfl⟩
            obtain ⟨pre, rest, h, rfl⟩ := steps_eq_some_iff.mp hk
            exact ⟨x :: pre, rest, h.cons hx, rfl⟩
          · rintro ⟨pre, rest, h, rfl⟩
            cases pre with
            | nil =>
                obtain ⟨c, cs, hc, hf⟩ := h.head
                have heq := h.eq
                rw [hc, List.nil_append] at heq
                rw [(List.cons.inj heq).1, hf] at hx
                cases hx
            | cons y pre =>
                have heq := (List.cons.inj h.eq).2
                refine ⟨pre.length, steps_eq_some_iff.mpr ⟨pre, rest, ⟨heq, ?_, h.head⟩, rfl⟩, rfl⟩
                intro z hz
                exact h.all z (List.mem_cons_of_mem _ hz)
      | false =>
          simp only [Bool.false_eq_true, if_false, Option.some.injEq]
          constructor
          · rintro rfl
            exact ⟨[], x :: xs, stops_nil hx, rfl⟩
          · rintro ⟨pre, rest, h, rfl⟩
            cases pre with
            | nil => rfl
            | cons y pre =>
                have hy := h.all y (List.mem_cons_self ..)
                rw [← (List.cons.inj h.eq).1, hx] at hy
                cases hy

theorem skipWhile_eq_some_iff : skipWhile p mem ptr = some q ↔
    ∃ pre rest, Stops p (mem.drop ptr) pre rest ∧ q = ptr + pre.length := by
  simp only [skipWhile, Option.map_eq_some_iff, steps_eq_some_iff]
  constructor
  · rintro ⟨n, ⟨pre, rest, h, rfl⟩, rfl⟩
    exact ⟨pre, rest, h, rfl⟩
  · rintro ⟨pre, rest, h, rfl⟩
    exact ⟨pre.length, ⟨pre, rest, h, rfl⟩, rfl⟩

/-- The cells from the halting cursor on. -/
theorem Stops.drop (h : Stops p (mem.drop ptr) pre rest) : mem.drop (ptr + pre.length) = rest := by
  rw [← List.drop_drop, h.eq, List.drop_left]

theorem lt_length_of_drop {x : α} {xs : List α} (h : mem.drop ptr = x :: xs) :
    ptr < mem.length := by
  by_contra hge
  rw [List.drop_eq_nil_of_le (by omega)] at h
  cases h

theorem getElem?_of_drop {x : α} {xs : List α} (h : mem.drop ptr = x :: xs) :
    mem[ptr]? = some x := by
  have h0 := congrArg (fun l => l[0]?) h
  simpa [List.getElem?_drop] using h0

theorem drop_succ {x : α} {xs : List α} (h : mem.drop ptr = x :: xs) : mem.drop (ptr + 1) = xs := by
  rw [← List.drop_drop, h, List.drop_one, List.tail_cons]

theorem store_eq {x : α} (h : ptr < mem.length) : store mem ptr x = some (mem.set ptr x) := if_pos h

/-- A store behind the cursor is not seen from it. -/
theorem drop_set_succ {x y : α} {xs : List α} (h : mem.drop ptr = x :: xs) :
    (mem.set ptr y).drop (ptr + 1) = xs := by
  rw [List.drop_set, if_pos (Nat.lt_succ_self ptr), drop_succ h]

/-- A scan, a store at its end and a second scan behind that. -/
theorem Stops.scan_store_scan {q : α → Bool} {d : α} {text tail seps after : List α} (x : α)
    (h : Stops p (mem.drop ptr) text (d :: tail)) (h' : Stops q tail seps after) :
    skipWhile p mem ptr = some (ptr + text.length) ∧
      store mem (ptr + text.length) x = some (mem.set (ptr + text.length) x) ∧
      skipWhile q (mem.set (ptr + text.length) x) (ptr + text.length + 1) =
        some (ptr + text.length + 1 + seps.length) ∧
      (mem.set (ptr + text.length) x).drop (ptr + text.length + 1 + seps.length) = after := by
  rw [← drop_set_succ h.drop] at h'
  exact ⟨skipWhile_eq_some_iff.mpr ⟨text, _, h, rfl⟩, store_eq (lt_length_of_drop h.drop),
    skipWhile_eq_some_iff.mpr ⟨seps, _, h', rfl⟩, h'.drop⟩

/-- Where both scans have halted. -/
theorem exists_stops_of_scan {q : α → Bool} {x : α} {n m : ℕ} {mem' : List α}
    (h1 : skipWhile p mem ptr = some n) (h2 : store mem n x = some mem')
    (h3 : skipWhile q mem' (n + 1) = some m) :
    ∃ text d tail seps, Stops p (mem.drop ptr) text (d :: tail) ∧
      Stops q tail seps (mem'.drop m) ∧ n = ptr + text.length ∧ mem' = mem.set n x ∧
      m = n + 1 + seps.length := by
  obtain ⟨text, after, s1, rfl⟩ := skipWhile_eq_some_iff.mp h1
  obtain ⟨d, tail, rfl, -⟩ := s1.head
  rw [store_eq (lt_length_of_drop s1.drop)] at h2
  obtain rfl := Option.some.inj h2
  obtain ⟨seps, rest, s2, rfl⟩ := skipWhile_eq_some_iff.mp h3
  have hrest := s2.drop
  rw [drop_set_succ s1.drop] at s2
  exact ⟨text, d, tail, seps, s1, hrest ▸ s2, rfl, rfl, rfl⟩

/-- What follows a cell that fails `p` does not matter. -/
theorem takeWhile_append_cons {x : α} (hx : p x = false) (rest : List α) :
    ∀ text : List α, (text ++ x :: rest).takeWhile p = text.takeWhile p
  | [] => List.takeWhile_cons_of_neg (by rw [hx]; exact Bool.false_ne_true)
  | y :: text => by
      have ih := takeWhile_append_cons hx rest text
      rw [List.cons_append, List.takeWhile_cons, List.takeWhile_cons, ih]

/-! ### Strings in the region -/

/-- The cells from `off` on hold `text`, then `x`, all in front of cell `n`. -/
def TextAt (x : α) (mem : List α) (off : ℕ) (text : List α) (n : ℕ) : Prop :=
  ∃ rest, (mem.take n).drop off = text ++ x :: rest

variable {x : α} {mem' : List α} {off m n : ℕ} {text : List α}

theorem take_of_take (hmn : m ≤ n) (h : mem'.take n = mem.take n) : mem'.take m = mem.take m := by
  have ht := congrArg (List.take m) h
  rwa [List.take_take, List.take_take, Nat.min_eq_left hmn] at ht

theorem TextAt.mono (h : TextAt x mem off text n) (hnm : n ≤ m) : TextAt x mem off text m := by
  obtain ⟨rest, h⟩ := h
  refine ⟨rest ++ (mem.take m).drop ((mem.take n).length), ?_⟩
  have hsplit : mem.take m = mem.take n ++ (mem.take m).drop (mem.take n).length := by
    have hp : mem.take n <+: mem.take m := List.take_prefix_take_left hnm
    obtain ⟨u, hu⟩ := hp
    rw [← hu, List.drop_left]
  have hoff : off ≤ (mem.take n).length := by
    by_contra hlt
    rw [List.drop_eq_nil_of_le (by omega)] at h
    exact absurd h.symm (by simp)
  rw [hsplit, List.drop_append_of_le_length hoff, h]
  simp

/-- A text is not changed by what happens behind it. -/
theorem TextAt.of_take (h : TextAt x mem off text n) (ht : mem'.take n = mem.take n) :
    TextAt x mem' off text n := by
  obtain ⟨rest, h⟩ := h
  exact ⟨rest, by rw [ht]; exact h⟩

theorem TextAt.drop (h : TextAt x mem off text n) : ∃ rest, mem.drop off = text ++ x :: rest := by
  obtain ⟨rest, h⟩ := h.mono (Nat.le_add_right n mem.length)
  rw [List.take_of_length_le (by omega)] at h
  exact ⟨rest, h⟩

/-- The text in front of a cursor that has just stored `x` behind it. -/
theorem textAt_set {y : α} {tail : List α} (h : mem.drop ptr = text ++ y :: tail)
    (hn : ptr + text.length < n) : TextAt x (mem.set (ptr + text.length) x) ptr text n := by
  refine ⟨tail.take (n - (ptr + text.length + 1)), ?_⟩
  obtain ⟨k, rfl⟩ : ∃ k, n = ptr + text.length + 1 + k := ⟨n - (ptr + text.length + 1), by omega⟩
  have hset : (mem.set (ptr + text.length) x).drop ptr = text ++ x :: tail := by
    rw [List.drop_set, if_neg (by omega), h, Nat.add_sub_cancel_left,
      List.set_append_right _ _ (Nat.le_refl _), Nat.sub_self, List.set_cons_zero]
  rw [List.drop_take, hset, List.take_append]
  have hk : ptr + text.length + 1 + k - ptr - text.length = k + 1 := by omega
  rw [List.take_of_length_le (by omega), hk, List.take_succ_cons, Nat.add_sub_cancel_left]

end Scan

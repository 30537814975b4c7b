import Mathlib.Data.List.Perm.Basic
import Mathlib.Data.List.Nodup
import Mathlib.Data.List.Count

/-! # Tokens that are held once and given back once

A resource that is given out, held by someone and given back, as the list of the tokens given
out so far, of those held now and of those given back.  The books are balanced when each token
given out stands exactly once among the other two; the lemmas are the entries that keep them so,
and `count_entry` says how far an entry is off that gives a token to any other number of holders
than one. -/

namespace Ownership

variable {τ : Type*} {given held held' returned : List τ} {d : τ}

/-- Every token given out is held by one holder, or was given back once. -/
structure Balanced (given held returned : List τ) : Prop where
  nodup : given.Nodup
  perm : (held ++ returned).Perm given

namespace Balanced

theorem nil : Balanced ([] : List τ) [] [] := ⟨List.nodup_nil, .refl _⟩

/-- What changes hands without being given back. -/
theorem of_perm (h : Balanced given held returned) (hp : held'.Perm held) :
    Balanced given held' returned :=
  ⟨h.nodup, (hp.append_right returned).trans h.perm⟩

/-- A new token gets one holder. -/
theorem give (h : Balanced given held returned) (hd : d ∉ given) (hp : held'.Perm (d :: held)) :
    Balanced (given ++ [d]) held' returned := by
  refine ⟨?_, ?_⟩
  · rw [List.nodup_append]
    refine ⟨h.nodup, List.nodup_singleton d, ?_⟩
    intro a ha b hb
    rw [List.mem_singleton] at hb
    exact fun he => hd (hb ▸ he ▸ ha)
  · calc (held' ++ returned).Perm ((d :: held) ++ returned) := hp.append_right returned
      List.Perm _ (d :: given) := h.perm.cons d
      List.Perm _ (given ++ [d]) := (List.perm_append_singleton d given).symm

/-- Holders give their tokens back. -/
theorem giveBack {gone : List τ} (h : Balanced given held returned)
    (hp : held.Perm (gone ++ held')) : Balanced given held' (returned ++ gone) := by
  refine ⟨h.nodup, List.Perm.trans ?_ h.perm⟩
  calc (held' ++ (returned ++ gone)).Perm ((returned ++ gone) ++ held') := List.perm_append_comm
    List.Perm _ (returned ++ held) := by
      rw [List.append_assoc]
      exact hp.symm.append_left returned
    List.Perm _ (held ++ returned) := List.perm_append_comm

/-- No token has two holders. -/
theorem held_nodup (h : Balanced given held returned) : held.Nodup :=
  (List.nodup_append.mp (h.perm.nodup_iff.mpr h.nodup)).1

section Count

variable [DecidableEq τ]

theorem count (h : Balanced given held returned) (d : τ) :
    held.count d + returned.count d = given.count d := by
  rw [← List.count_append]
  exact h.perm.count_eq d

/-- A token given out is held by one holder or was given back once. -/
theorem count_of_mem (h : Balanced given held returned) (hd : d ∈ given) :
    held.count d + returned.count d = 1 := by
  rw [h.count, List.count_eq_one_of_mem h.nodup hd]

/-- A new token with `n` holders. -/
theorem count_entry (h : Balanced given held returned) (hd : d ∉ given) {n : ℕ}
    (hp : held'.Perm (List.replicate n d ++ held)) : held'.count d + returned.count d = n := by
  have hold := h.count d
  rw [List.count_eq_zero_of_not_mem hd] at hold
  rw [hp.count_eq d, List.count_append, List.count_replicate_self]
  omega

end Count

end Balanced

end Ownership

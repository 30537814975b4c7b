import Dagger.Transition
import Mathlib.Logic.Function.Basic

/-! # Mutual exclusion

`Exclusive holds holder` says that the parties which hold something are exactly `holder`: nobody,
or one.  It is kept when nobody's part changes, when a party takes what is free, and when the
holder gives it back; the second group of lemmas is for parties that have a position each, one of
which moves.

`lock` is the lock that such a holder stands for. -/

namespace MutualExclusion

open Transition

universe u v

variable {ι : Type u} {holds holds' : ι → Prop} {holder : Option ι} {i j k : ι}

def Exclusive (holds : ι → Prop) (holder : Option ι) : Prop := ∀ i, holds i ↔ holder = some i

theorem Exclusive.eq (h : Exclusive holds holder) (hi : holds i) (hj : holds j) : i = j :=
  Option.some.inj (((h i).mp hi).symm.trans ((h j).mp hj))

theorem Exclusive.exists_iff (h : Exclusive holds holder) :
    (∃ i, holds i) ↔ holder.isSome = true := by
  rw [Option.isSome_iff_exists]
  exact exists_congr h

theorem Exclusive.not_holds (h : Exclusive holds none) : ¬ holds i := by
  rw [h i]
  nofun

theorem exclusive_none (h : ∀ i, ¬ holds i) : Exclusive holds none :=
  fun i => iff_of_false (h i) nofun

theorem Exclusive.silent (h : Exclusive holds holder) (hs : ∀ i, holds' i ↔ holds i) :
    Exclusive holds' holder :=
  fun i => (hs i).trans (h i)

theorem Exclusive.acquire (h : Exclusive holds none) (hk : holds' k)
    (hne : ∀ j, j ≠ k → (holds' j ↔ holds j)) : Exclusive holds' (some k) := by
  intro j
  by_cases hj : j = k
  · subst hj
    exact iff_of_true hk rfl
  · rw [hne j hj, h j]
    exact iff_of_false nofun fun he => hj (Option.some.inj he).symm

theorem Exclusive.release (h : Exclusive holds holder) (hk : holds k) (hk' : ¬ holds' k)
    (hne : ∀ j, j ≠ k → (holds' j ↔ holds j)) : Exclusive holds' none := by
  refine exclusive_none fun j hj => ?_
  by_cases he : j = k
  · exact hk' (he ▸ hj)
  · exact he (h.eq ((hne j he).mp hj) hk)

/-! ### Parties with a position -/

section positions

variable {π : Type v} {Holds : π → Prop} {pos : ι → π} {p : π} [DecidableEq ι]

theorem holds_update_of_ne (hj : j ≠ i) : Holds (Function.update pos i p j) ↔ Holds (pos j) := by
  rw [Function.update_of_ne hj]

theorem Exclusive.move (h : Exclusive (fun j => Holds (pos j)) holder)
    (hp : Holds p ↔ Holds (pos i)) :
    Exclusive (fun j => Holds (Function.update pos i p j)) holder := by
  refine h.silent fun j => ?_
  by_cases hj : j = i
  · rw [hj, Function.update_self]
    exact hp
  · exact holds_update_of_ne hj

theorem Exclusive.moveIn (h : Exclusive (fun j => Holds (pos j)) none) (hp : Holds p) :
    Exclusive (fun j => Holds (Function.update pos i p j)) (some i) := by
  refine h.acquire ?_ fun j hj => holds_update_of_ne hj
  rwa [Function.update_self]

theorem Exclusive.moveOut (h : Exclusive (fun j => Holds (pos j)) holder) (hi : Holds (pos i))
    (hp : ¬ Holds p) : Exclusive (fun j => Holds (Function.update pos i p j)) none := by
  refine h.release hi ?_ fun j hj => holds_update_of_ne hj
  rwa [Function.update_self]

end positions

/-! ### The lock -/

inductive LockAct (ι : Type u) where
  | acquire (i : ι)
  | release (i : ι)

/-- Only a free lock can be taken, and only its holder gives it back. -/
def LockStep : Option ι → LockAct ι → Option ι → Prop
  | holder, .acquire i, holder' => holder = none ∧ holder' = some i
  | holder, .release i, holder' => holder = some i ∧ holder' = none

def lock (ι : Type u) : System (Option ι) (LockAct ι) where
  Init holder := holder = none
  Step := LockStep

theorem path_acquire (i : ι) : Path (lock ι) none [.acquire i] (some i) :=
  .cons ⟨rfl, rfl⟩ (.nil _)

theorem path_release (i : ι) : Path (lock ι) (some i) [.release i] none :=
  .cons ⟨rfl, rfl⟩ (.nil _)

end MutualExclusion

import Mathlib.Algebra.BigOperators.Group.Finset.Basic
import Mathlib.Algebra.BigOperators.Ring.Finset
import Mathlib.Algebra.Order.BigOperators.Group.Finset
import Mathlib.Combinatorics.Enumerative.DoubleCounting
import Mathlib.Data.Fintype.Basic

/-! # Holders of objects

Finitely many variables hold at most one object each. The number of variables that hold an
object is what its reference count should be. Setting a variable takes a holder from one
object and gives one to another (`References.holders_update`).
-/

namespace References

variable {V O : Type} [Fintype V] [DecidableEq O]

/-- How many variables hold an object. -/
def holders (held : V → Option O) (object : O) : ℕ := ∑ v, if held v = some object then 1 else 0

theorem holders_pos_iff {held : V → Option O} {object : O} :
    0 < holders held object ↔ ∃ v, held v = some object := by
  unfold holders
  rw [Finset.sum_pos_iff]
  constructor
  · rintro ⟨v, _, counted⟩
    refine ⟨v, ?_⟩
    by_contra other
    rw [if_neg other] at counted
    exact lt_irrefl 0 counted
  · rintro ⟨v, holds⟩
    exact ⟨v, Finset.mem_univ v, by rw [if_pos holds]; exact Nat.one_pos⟩

variable [DecidableEq V]

theorem holders_update (held : V → Option O) (v : V) (new : Option O) (object : O) :
    holders (Function.update held v new) object + (if held v = some object then 1 else 0) =
      holders held object + if new = some object then 1 else 0 := by
  unfold holders
  rw [← Finset.add_sum_erase _ _ (Finset.mem_univ v),
    ← Finset.add_sum_erase _ _ (Finset.mem_univ v), Function.update_self]
  have others : ∀ other ∈ Finset.univ.erase v,
      (if Function.update held v new other = some object then 1 else 0) =
        if held other = some object then 1 else 0 := by
    intro other different
    rw [Function.update_of_ne (Finset.ne_of_mem_erase different)]
  rw [Finset.sum_congr rfl others]
  omega

omit [Fintype V] [DecidableEq V] [DecidableEq O] in
/-- There are no more objects with a holder than variables that hold one. -/
theorem card_le_of_held {held : V → Option O} (objects : Finset O) (places : Finset V)
    (held_by : ∀ object ∈ objects, ∃ v ∈ places, held v = some object) :
    objects.card ≤ places.card := by
  refine Finset.card_le_card_of_forall_subsingleton (fun object v => held v = some object)
    held_by fun v _ => ?_
  rintro object ⟨_, holds⟩ other ⟨_, also⟩
  exact Option.some.inj (holds.symm.trans also)

end References

import Mathlib

/-!
# How many workers are in a kind of place

Workers that move one at a time between a few places.

* `census p place` — how many workers are in a place with `p`.
* `census_update` — **one move changes it by the place left and the place entered.**
-/

namespace Census

variable {ι σ : Type*} [Fintype ι] [DecidableEq ι] {p q : σ → Prop} [DecidablePred p]
  [DecidablePred q]

/-- How many workers are in a place with `p`. -/
def census (p : σ → Prop) [DecidablePred p] (place : ι → σ) : ℕ :=
  (Finset.univ.filter fun i => p (place i)).card

omit [DecidableEq ι] in
theorem census_eq_zero {place : ι → σ} : census p place = 0 ↔ ∀ i, ¬ p (place i) := by
  simp [census, Finset.filter_eq_empty_iff]

/-- Places that exclude each other share the workers. -/
theorem census_add_le (hpq : ∀ x, p x → ¬ q x) (place : ι → σ) :
    census p place + census q place ≤ Fintype.card ι := by
  have hdisj : Disjoint (Finset.univ.filter fun i => p (place i))
      (Finset.univ.filter fun i => q (place i)) :=
    Finset.disjoint_filter.2 fun i _ hp => hpq _ hp
  rw [census, census, ← Finset.card_union_of_disjoint hdisj]
  exact Finset.card_le_univ _

/-- **One move changes the census by the place left and the place entered.** -/
theorem census_update (place : ι → σ) (i : ι) (x : σ) :
    census p (Function.update place i x) + (if p (place i) then 1 else 0) =
      census p place + if p x then 1 else 0 := by
  have hsum : ∀ f : ι → σ, census p f =
      (if p (f i) then 1 else 0) + ∑ j ∈ Finset.univ.erase i, if p (f j) then 1 else 0 := by
    intro f
    rw [census, Finset.card_filter]
    exact (Finset.add_sum_erase _ _ (Finset.mem_univ i)).symm
  have hrest : ∑ j ∈ Finset.univ.erase i, (if p (Function.update place i x j) then 1 else 0) =
      ∑ j ∈ Finset.univ.erase i, if p (place j) then 1 else 0 :=
    Finset.sum_congr rfl fun j hj => by rw [Function.update_of_ne (Finset.ne_of_mem_erase hj)]
  rw [hsum, hsum place, hrest, Function.update_self]
  omega

end Census

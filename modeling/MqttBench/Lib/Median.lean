import MqttBench.Lib.Grouping

/-!
# The median of a list

* `median` — the middle of the values in order, or the mean of the two in the middle.
* `isMedian_of_median` — **half of the values are not above it, and half are not below it.**
-/

namespace Medians

variable {α : Type*} [Field α] [LinearOrder α]

/-- The middle of the values in order: of an even number, the mean of the two in the middle. -/
def median (xs : List α) : Option α :=
  let ys := xs.mergeSort (· ≤ ·)
  if ys.length % 2 = 1 then ys[ys.length / 2]?
  else do
    let a ← ys[ys.length / 2 - 1]?
    let b ← ys[ys.length / 2]?
    pure ((a + b) / 2)

/-- At least half of the values are not above `m`, and at least half are not below it. -/
structure IsMedian (xs : List α) (m : α) : Prop where
  below : xs.length ≤ 2 * xs.countP (· ≤ m)
  above : xs.length ≤ 2 * xs.countP (m ≤ ·)

omit [Field α] in
theorem sorted (xs : List α) : (xs.mergeSort (· ≤ ·)).Pairwise (· ≤ ·) :=
  Grouping.sorted_mergeSort id xs

theorem median_eq_none_iff {xs : List α} : median xs = none ↔ xs = [] := by
  have hlength : (xs.mergeSort (· ≤ ·)).length = xs.length := List.length_mergeSort _
  constructor
  · intro h
    by_contra hne
    have hpos := List.length_pos_iff.2 hne
    rw [median] at h
    split at h
    · rw [List.getElem?_eq_none_iff] at h
      omega
    · rw [List.getElem?_eq_getElem (by omega), List.getElem?_eq_getElem (by omega)] at h
      cases h
  · rintro rfl
    simp [median]

section Sorted

variable {ys : List α} (h : ys.Pairwise (· ≤ ·)) {i : ℕ} {y : α} (hy : ys[i]? = some y)
include h hy

omit [Field α] in
/-- What stands at an index and before it is not above what is not below it. -/
theorem lt_countP_le {m : α} (hm : y ≤ m) : i < ys.countP (· ≤ m) := by
  obtain ⟨hi, rfl⟩ := List.getElem?_eq_some_iff.1 hy
  have htake : (ys.take (i + 1)).countP (· ≤ m) = i + 1 := by
    rw [List.countP_eq_length.2, List.length_take_of_le (by omega)]
    intro x hx
    obtain ⟨j, hj, rfl⟩ := List.mem_take_iff_getElem.1 hx
    refine decide_eq_true (le_trans ?_ hm)
    rcases Nat.lt_or_ge j i with hlt | hge
    · exact List.pairwise_iff_getElem.1 h j i (by omega) hi hlt
    · have heq : j = i := by omega
      subst heq
      exact le_rfl
  have hle := (List.take_sublist (i + 1) ys).countP_le (p := fun x => decide (x ≤ m))
  omega

omit [Field α] in
theorem length_sub_le_countP {m : α} (hm : m ≤ y) : ys.length - i ≤ ys.countP (m ≤ ·) := by
  obtain ⟨hi, rfl⟩ := List.getElem?_eq_some_iff.1 hy
  have hdrop : (ys.drop i).countP (m ≤ ·) = ys.length - i := by
    rw [List.countP_eq_length.2, List.length_drop]
    intro x hx
    obtain ⟨j, hj, rfl⟩ := List.mem_drop_iff_getElem.1 hx
    refine decide_eq_true (hm.trans ?_)
    rcases Nat.eq_zero_or_pos j with rfl | hpos
    · simp
    · exact List.pairwise_iff_getElem.1 h i (i + j) hi (by omega) (by omega)
  have hle := (List.drop_sublist i ys).countP_le (p := fun x => decide (m ≤ x))
  omega

end Sorted

variable [IsStrictOrderedRing α]

/-- **Half of the values are not above the median, and half are not below it.** -/
theorem isMedian_of_median {xs : List α} {m : α} (h : median xs = some m) : IsMedian xs m := by
  have hperm : (xs.mergeSort (· ≤ ·)).Perm xs := List.mergeSort_perm _ _
  have hsorted := sorted xs
  have hlength := hperm.length_eq
  have hbelow := hperm.countP_eq (p := fun x => decide (x ≤ m))
  have habove := hperm.countP_eq (p := fun x => decide (m ≤ x))
  rw [median] at h
  split at h
  · next hodd =>
    have hlow := lt_countP_le hsorted h le_rfl
    have hhigh := length_sub_le_countP hsorted h le_rfl
    exact ⟨by omega, by omega⟩
  · next heven =>
    simp only [Option.bind_eq_bind, Option.bind_eq_some_iff, Option.pure_def,
      Option.some.injEq] at h
    obtain ⟨a, ha, b, hb, rfl⟩ := h
    have hab : a ≤ b := by
      obtain ⟨hi, rfl⟩ := List.getElem?_eq_some_iff.1 ha
      obtain ⟨hj, rfl⟩ := List.getElem?_eq_some_iff.1 hb
      exact List.pairwise_iff_getElem.1 hsorted _ _ hi hj (by omega)
    have hlow := lt_countP_le hsorted ha (show a ≤ (a + b) / 2 by linarith)
    have hhigh := length_sub_le_countP hsorted hb (show (a + b) / 2 ≤ b by linarith)
    exact ⟨by omega, by omega⟩

end Medians

import Mathlib

/-!
# Grouping and counting

A list is cut into groups by a key of its elements, and each group is sorted and loses its last
element.

* `flatMap_filter_perm` — **over distinct keys that cover the list, the groups are the list.**
* `distinct` — the elements of a list, each once.
* `LastMax`, `lastMax_of_mergeSort` — the last element of a stable sort is the last of the
  greatest.
* `sum_eq_iff`, `length_eq_iff` — when a sum of parts, or a number of indices, is full.
-/

namespace Grouping

variable {α κ : Type*} [DecidableEq κ]

/-- **Over distinct keys that cover the list, the groups are the list.** -/
theorem flatMap_filter_perm {keys : List κ} (hkeys : keys.Nodup) {key : α → κ} {xs : List α}
    (hcover : ∀ x ∈ xs, key x ∈ keys) :
    (keys.flatMap fun k => xs.filter fun x => key x = k).Perm xs := by
  induction keys generalizing xs with
  | nil =>
    have hnil : xs = [] := List.eq_nil_iff_forall_not_mem.2 fun x hx => nomatch hcover x hx
    rw [hnil]
    exact .nil
  | cons k keys ih =>
    obtain ⟨hk, hrest⟩ := List.nodup_cons.1 hkeys
    have hothers : ∀ x ∈ xs.filter (fun x => ¬ key x = k), key x ∈ keys := by
      intro x hx
      obtain ⟨hx, hne⟩ := List.mem_filter.1 hx
      exact (List.mem_cons.1 (hcover x hx)).resolve_left (of_decide_eq_true hne)
    -- The groups of the other keys do not see the elements of this one.
    have hgroups : (keys.flatMap fun k' => xs.filter fun x => key x = k') =
        keys.flatMap fun k' =>
          (xs.filter fun x => ¬ key x = k).filter fun x => key x = k' := by
      refine List.flatMap_congr fun k' hk' => ?_
      rw [List.filter_filter]
      refine List.filter_congr fun x _ => ?_
      by_cases hx : key x = k'
      · have hne : k' ≠ k := fun heq => hk (heq ▸ hk')
        simp [hx, hne]
      · simp [hx]
    rw [List.flatMap_cons, hgroups]
    have hsplit := List.filter_append_perm (fun x => decide (key x = k)) xs
    refine (List.Perm.append_left _ (ih hrest hothers)).trans ?_
    simpa using hsplit

/-! ## Distinct elements -/

/-- `seen.add(x)`, in the order of insertion. -/
def addNew (seen : List κ) (x : κ) : List κ := if x ∈ seen then seen else seen ++ [x]

/-- `set(xs)`. -/
def distinct (xs : List κ) : List κ := xs.foldl addNew []

theorem foldl_addNew {seen : List κ} (h : seen.Nodup) (xs : List κ) :
    (xs.foldl addNew seen).Nodup ∧ ∀ x, x ∈ xs.foldl addNew seen ↔ x ∈ seen ∨ x ∈ xs := by
  induction xs generalizing seen with
  | nil => exact ⟨h, fun x => by simp⟩
  | cons x xs ih =>
    rw [List.foldl_cons, addNew]
    split
    · next hx =>
      refine ⟨(ih h).1, fun y => ((ih h).2 y).trans ?_⟩
      have hself : y = x → y ∈ seen := fun heq => heq ▸ hx
      rw [List.mem_cons]
      tauto
    · next hx =>
      have hnew : (seen ++ [x]).Nodup := by
        rw [← List.concat_eq_append]
        exact List.Nodup.concat hx h
      refine ⟨(ih hnew).1, fun y => ((ih hnew).2 y).trans ?_⟩
      rw [List.mem_append, List.mem_singleton, List.mem_cons, or_assoc]

theorem mem_distinct {xs : List κ} {x : κ} : x ∈ distinct xs ↔ x ∈ xs := by
  rw [distinct, (foldl_addNew List.nodup_nil xs).2 x]
  simp

theorem foldl_addNew_of_nodup {seen xs : List κ} (h : (seen ++ xs).Nodup) :
    xs.foldl addNew seen = seen ++ xs := by
  induction xs generalizing seen with
  | nil => rw [List.append_nil, List.foldl_nil]
  | cons x xs ih =>
    have hnew : x ∉ seen := fun hx => (List.nodup_append.1 h).2.2 x hx x List.mem_cons_self rfl
    rw [List.foldl_cons, addNew, if_neg hnew, ih (by simpa using h)]
    simp

theorem distinct_of_nodup {xs : List κ} (h : xs.Nodup) : distinct xs = xs :=
  foldl_addNew_of_nodup h

/-- There are two when two elements differ. -/
theorem one_lt_length_distinct {xs : List κ} :
    1 < (distinct xs).length ↔ ∃ x ∈ xs, ∃ y ∈ xs, x ≠ y := by
  have hnodup : (distinct xs).Nodup := (foldl_addNew List.nodup_nil xs).1
  have hmem : ∀ x, x ∈ xs ↔ x ∈ distinct xs := fun x => mem_distinct.symm
  simp only [hmem]
  generalize distinct xs = seen at hnodup
  cases seen with
  | nil => simp
  | cons x seen =>
    cases seen with
    | nil => simp
    | cons y seen =>
      have hne : x ≠ y := fun heq => (List.nodup_cons.1 hnodup).1 (heq ▸ List.mem_cons_self)
      exact iff_of_true (by simp) ⟨x, by simp, y, by simp, hne⟩

/-! ## The last of the greatest -/

/-- No element has a greater key, and none after it has the same. -/
def LastMax [LinearOrder κ] (key : α → κ) (xs : List α) (r : α) : Prop :=
  ∃ before after, xs = before ++ r :: after ∧ (∀ x ∈ before, key x ≤ key r) ∧
    ∀ x ∈ after, key x < key r

omit [DecidableEq κ] in
theorem LastMax.unique [LinearOrder κ] {key : α → κ} {xs : List α} {r r' : α}
    (h : LastMax key xs r) (h' : LastMax key xs r') : r = r' := by
  obtain ⟨before, after, rfl, hbefore, hafter⟩ := h
  obtain ⟨before', after', heq, hbefore', hafter'⟩ := h'
  rcases List.append_eq_append_iff.1 heq with ⟨gap, hfront, hback⟩ | ⟨gap, hfront, hback⟩
  · cases gap with
    | nil => exact (List.cons.inj hback).1
    | cons x gap =>
      obtain ⟨rfl, rfl⟩ := List.cons.inj hback
      exact absurd (hafter r' (by simp)) (not_lt.2 (hbefore' r (by simp [hfront])))
  · cases gap with
    | nil => exact (List.cons.inj hback).1.symm
    | cons x gap =>
      obtain ⟨rfl, rfl⟩ := List.cons.inj hback
      exact absurd (hafter' r (by simp)) (not_lt.2 (hbefore r' (by simp [hfront])))

section Sorting

variable [LinearOrder κ] (key : α → κ)

omit [DecidableEq κ] in
theorem sorted_mergeSort (xs : List α) :
    (xs.mergeSort fun a b => key a ≤ key b).Pairwise fun a b => key a ≤ key b := by
  have h : (xs.mergeSort fun a b => decide (key a ≤ key b)).Pairwise
      fun a b => decide (key a ≤ key b) = true :=
    List.pairwise_mergeSort (fun a b c => by simpa using le_trans)
      (fun a b => by simpa using le_total (key a) (key b)) xs
  simpa using h

/-- Elements with the same key keep their order. -/
theorem filter_mergeSort (xs : List α) (k : κ) :
    (xs.mergeSort fun a b => key a ≤ key b).filter (fun x => key x = k) =
      xs.filter fun x => key x = k := by
  have htrans : ∀ a b c : α, decide (key a ≤ key b) = true → decide (key b ≤ key c) = true →
      decide (key a ≤ key c) = true := fun a b c => by simpa using le_trans
  have htotal : ∀ a b : α, (decide (key a ≤ key b) || decide (key b ≤ key a)) = true :=
    fun a b => by simpa using le_total (key a) (key b)
  have hequal : (xs.filter fun x => key x = k).Pairwise fun a b => decide (key a ≤ key b) = true := by
    refine List.pairwise_of_forall_mem_list ?_
    intro a ha b hb
    have hka : key a = k := of_decide_eq_true (List.mem_filter.1 ha).2
    have hkb : key b = k := of_decide_eq_true (List.mem_filter.1 hb).2
    simp [hka, hkb]
  have hsub : (xs.filter fun x => key x = k).Sublist (xs.mergeSort fun a b => key a ≤ key b) :=
    List.sublist_mergeSort htrans htotal hequal List.filter_sublist
  have hfiltered := hsub.filter fun x => key x = k
  rw [List.filter_filter] at hfiltered
  simp only [Bool.and_self] at hfiltered
  refine (hfiltered.eq_of_length ?_).symm
  exact ((List.mergeSort_perm xs _).filter _).length_eq.symm

/-- **The last element of a stable sort is the last of the greatest.** -/
theorem lastMax_of_mergeSort {xs : List α} {r : α}
    (hr : (xs.mergeSort fun a b => key a ≤ key b).getLast? = some r) : LastMax key xs r := by
  have hsorted := sorted_mergeSort key xs
  obtain ⟨sorted, hsplit⟩ := List.getLast?_eq_some_iff.1 hr
  have hmax : ∀ x ∈ xs, key x ≤ key r := by
    intro x hx
    have hx : x ∈ xs.mergeSort fun a b => key a ≤ key b := List.mem_mergeSort.2 hx
    rw [hsplit] at hx
    rw [hsplit, List.pairwise_append] at hsorted
    rcases List.mem_append.1 hx with hx | hx
    · exact hsorted.2.2 x hx r (List.mem_singleton_self r)
    · exact (List.mem_singleton.1 hx) ▸ le_rfl
  -- The elements with the greatest key are in the order of the list, and `r` is the last.
  have hgreatest : xs.filter (fun x => key x = key r) =
      sorted.filter (fun x => key x = key r) ++ [r] := by
    rw [← filter_mergeSort key, hsplit, List.filter_append]
    simp
  obtain ⟨front, back, rfl, -, hback⟩ := List.filter_eq_append_iff.1 hgreatest
  obtain ⟨before, after, rfl, -, -, hafter⟩ := List.filter_eq_cons_iff.1 hback
  refine ⟨front ++ before, after, by simp, fun x hx => hmax x ?_, fun x hx => ?_⟩
  · rw [← List.append_assoc]
    exact List.mem_append_left _ hx
  · refine lt_of_le_of_ne (hmax x (by simp [hx])) fun heq => ?_
    simpa [heq] using List.filter_eq_nil_iff.1 hafter x hx

end Sorting

/-! ## What is full -/

/-- A sum of parts that are bounded is full when each part is. -/
theorem sum_eq_iff {keys : List α} {f g : α → ℕ} (h : ∀ k ∈ keys, f k ≤ g k) :
    (keys.map f).sum ≤ (keys.map g).sum ∧
      ((keys.map f).sum = (keys.map g).sum ↔ ∀ k ∈ keys, f k = g k) := by
  induction keys with
  | nil => simp
  | cons k keys ih =>
    obtain ⟨hk, hkeys⟩ := List.forall_mem_cons.1 h
    obtain ⟨hle, hiff⟩ := ih hkeys
    rw [List.map_cons, List.map_cons, List.sum_cons, List.sum_cons, List.forall_mem_cons, ← hiff]
    constructor <;> omega

/-- Parts that are either full or empty. -/
theorem sum_pairs {β : Type*} (xs : List α) (ys : List β) (p : α → β → Bool) (n : ℕ) :
    ((xs.flatMap fun x => ys.map fun y => (x, y)).map fun k => if p k.1 k.2 then n else 0).sum =
      (xs.map fun x => ys.countP fun y => p x y).sum * n := by
  have hrow : ∀ x, ((ys.map fun y => (x, y)).map fun k => if p k.1 k.2 then n else 0).sum =
      (ys.countP fun y => p x y) * n := by
    intro x
    induction ys with
    | nil => simp
    | cons y ys ih =>
      rw [List.map_cons, List.map_cons, List.sum_cons, ih, List.countP_cons]
      split <;> ring
  induction xs with
  | nil => simp
  | cons x xs ih =>
    rw [List.flatMap_cons, List.map_append, List.sum_append, hrow, ih, List.map_cons, List.sum_cons,
      Nat.add_mul]

/-- Distinct indices below a bound are as many as the bound when each is there. -/
theorem length_eq_iff {indices : List ℤ} (hnodup : indices.Nodup) {n : ℤ}
    (h : ∀ i ∈ indices, 0 ≤ i ∧ i < n) :
    indices.length ≤ n.toNat ∧
      (indices.length = n.toNat ↔ ∀ i, 0 ≤ i → i < n → i ∈ indices) := by
  have hsub : indices.toFinset ⊆ Finset.Ico 0 n := by
    intro i hi
    exact Finset.mem_Ico.2 (h i (List.mem_toFinset.1 hi))
  have hcard : (Finset.Ico 0 n).card = n.toNat := by simp
  have hlen : indices.toFinset.card = indices.length := List.toFinset_card_of_nodup hnodup
  rw [← hlen, ← hcard]
  refine ⟨Finset.card_le_card hsub, fun heq i hlow hhigh => ?_, fun hall => ?_⟩
  · rw [← List.mem_toFinset, Finset.eq_of_subset_of_card_le hsub heq.ge]
    exact Finset.mem_Ico.2 ⟨hlow, hhigh⟩
  · refine congrArg Finset.card (hsub.antisymm fun i hi => ?_)
    obtain ⟨hlow, hhigh⟩ := Finset.mem_Ico.1 hi
    exact List.mem_toFinset.2 (hall i hlow hhigh)

end Grouping

import MqttBench.Bench.Campaign

/-!
# Final attempts

`_final_attempts` of `report/data.py`: of the records of one point and client, those that
the report keeps and those that it files as retried.

* `finalAttempts` — the program.
* `finalAttempts_of_numbered` — **where the attempts of each run are numbered in file
  order, the last of them is kept and the others are retried.**
-/

namespace Report

open Bench

variable {V : Type}

/-! ## The program -/

/-- `by_index[index]`. -/
def byIndex (runs : List (Record V)) (index : ℕ) : List (Record V) :=
  runs.filter fun r => r.runIndex = index

/-- `sorted(by_index)`. -/
def indices (runs : List (Record V)) : List ℕ :=
  (runs.map Record.runIndex).eraseDups.mergeSort (· ≤ ·)

/-- The attempts at one index, in the order of their numbers. -/
def sortedAttempts (runs : List (Record V)) (index : ℕ) : List (Record V) :=
  (byIndex runs index).mergeSort fun a b => a.attempt ≤ b.attempt

/-- `_final_attempts`: the final records and the retried ones. -/
def finalAttempts (runs : List (Record V)) : List (Record V) × List (Record V) :=
  ((indices runs).flatMap fun index => (sortedAttempts runs index).getLast?.toList,
    (indices runs).flatMap fun index => (sortedAttempts runs index).dropLast)

/-! ## One index -/

theorem mem_indices {runs : List (Record V)} {index : ℕ} :
    index ∈ indices runs ↔ byIndex runs index ≠ [] := by
  rw [indices, List.mem_mergeSort, List.mem_eraseDups, List.mem_map, byIndex, Ne,
    List.filter_eq_nil_iff]
  simp

theorem indices_nodup (runs : List (Record V)) : (indices runs).Nodup :=
  (List.mergeSort_perm _ _).nodup_iff.2 (nodup_eraseDups _)

/-- Of a family of lists with distinct marks, a filter for one mark finds one list. -/
theorem filter_flatMap {α : Type*} {marks : List ℕ} (hmarks : marks.Nodup) {f : ℕ → List α}
    {mark : α → ℕ} (hf : ∀ i, ∀ a ∈ f i, mark a = i) (i : ℕ) (hi : i ∉ marks → f i = []) :
    (marks.flatMap f).filter (fun a => mark a = i) = f i := by
  induction marks with
  | nil => exact (hi List.not_mem_nil).symm
  | cons m marks ih =>
    obtain ⟨hm, hrest⟩ := List.nodup_cons.1 hmarks
    rw [List.flatMap_cons, List.filter_append]
    by_cases him : i = m
    · subst him
      have hself : (f i).filter (fun a => mark a = i) = f i :=
        List.filter_eq_self.2 fun a ha => by simpa using hf i a ha
      have hnone : (marks.flatMap f).filter (fun a => mark a = i) = [] := by
        rw [List.filter_eq_nil_iff]
        intro a ha
        obtain ⟨j, hj, ha⟩ := List.mem_flatMap.1 ha
        have hji : mark a ≠ i := fun h => hm (h ▸ (hf j a ha).symm ▸ hj)
        simpa using hji
      rw [hself, hnone, List.append_nil]
    · have hnone : (f m).filter (fun a => mark a = i) = [] := by
        rw [List.filter_eq_nil_iff]
        intro a ha
        have hmi : mark a ≠ i := fun h => him (h.symm.trans (hf m a ha))
        simpa using hmi
      rw [hnone, List.nil_append]
      exact ih hrest fun h => hi (by simp [him, h])

theorem runIndex_of_mem_byIndex {runs : List (Record V)} {index : ℕ} {r : Record V}
    (h : r ∈ byIndex runs index) : r.runIndex = index := by
  simpa using (List.mem_filter.1 h).2

/-- Attempts numbered in file order are sorted. -/
theorem sortedAttempts_of_numbered {runs : List (Record V)} {index : ℕ}
    (h : (byIndex runs index).map Record.attempt = List.range (byIndex runs index).length) :
    sortedAttempts runs index = byIndex runs index := by
  refine List.mergeSort_of_pairwise ?_
  have hle : ((byIndex runs index).map Record.attempt).Pairwise (· ≤ ·) :=
    h ▸ List.pairwise_le_range
  simpa using List.pairwise_map.1 hle

/-- **Of numbered attempts the last is kept and the others are retried.** -/
theorem finalAttempts_of_numbered {runs : List (Record V)}
    (h : ∀ index, (byIndex runs index).map Record.attempt =
      List.range (byIndex runs index).length) (index : ℕ) :
    byIndex (finalAttempts runs).1 index = (byIndex runs index).getLast?.toList ∧
      byIndex (finalAttempts runs).2 index = (byIndex runs index).dropLast := by
  have hsorted := fun i => sortedAttempts_of_numbered (h i)
  have hnil : index ∉ indices runs → byIndex runs index = [] := fun hi =>
    not_not.1 (mt mem_indices.2 hi)
  simp only [finalAttempts, hsorted]
  constructor
  · refine filter_flatMap (indices_nodup runs) (f := fun i => (byIndex runs i).getLast?.toList)
      (fun i r hr => ?_) index fun hi => by rw [hnil hi]; rfl
    exact runIndex_of_mem_byIndex (List.mem_of_getLast? (Option.mem_toList.1 hr))
  · refine filter_flatMap (indices_nodup runs) (f := fun i => (byIndex runs i).dropLast)
      (fun i r hr => ?_) index fun hi => by rw [hnil hi]; rfl
    exact runIndex_of_mem_byIndex (List.mem_of_mem_dropLast hr)

end Report

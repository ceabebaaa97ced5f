import Mathlib

/-!
# Dictionaries in the order of insertion

A dictionary is the list of its items, in the order in which their keys first came in.  To set a
key that is there keeps its place.

* `set`, `get` — `d[k] = v` and `d.get(k)`.
* `ofItems` — items that are set one after another.
* `gather` — `d.setdefault(key(x), empty)`, and then `x` is added, for each `x`.
* `get_gather` — **under a key lie the elements that have it, in their order.**
* `sum_gather` — sums by key add up to the sum of all.
-/

namespace Dicts

variable {α β κ : Type*} [DecidableEq κ]

/-- `d[k] = v`. -/
def set : List (κ × β) → κ → β → List (κ × β)
  | [], k, v => [(k, v)]
  | e :: d, k, v => if e.1 = k then (k, v) :: d else e :: set d k v

/-- `d.get(k)`. -/
def get (d : List (κ × β)) (k : κ) : Option β := (d.find? fun e => e.1 = k).map Prod.snd

/-- Items that are set one after another. -/
def ofItems (items : List (κ × β)) : List (κ × β) := items.foldl (fun d e => set d e.1 e.2) []

/-- For each element, what lies under its key is added to. -/
def gather (add : β → α → β) (empty : β) (key : α → κ) (xs : List α) : List (κ × β) :=
  xs.foldl (fun d x => set d (key x) (add ((get d (key x)).getD empty) x)) []

/-! ## One item -/

@[simp] theorem get_nil (k : κ) : get ([] : List (κ × β)) k = none := rfl

theorem get_cons (e : κ × β) (d : List (κ × β)) (k : κ) :
    get (e :: d) k = if e.1 = k then some e.2 else get d k := by
  unfold get
  by_cases h : e.1 = k <;> simp [h]

theorem get_set (d : List (κ × β)) (k k' : κ) (v : β) :
    get (set d k v) k' = if k = k' then some v else get d k' := by
  induction d with
  | nil => rw [set, get_cons]
  | cons e d ih =>
    rw [set]
    by_cases h : e.1 = k
    · rw [if_pos h, get_cons, get_cons, h]
      by_cases hk : k = k' <;> simp [hk]
    · rw [if_neg h, get_cons, get_cons, ih]
      by_cases he : e.1 = k'
      · rw [if_pos he, if_neg fun hk => h (he.trans hk.symm), if_pos he]
      · rw [if_neg he, if_neg he]

theorem get_eq_none_iff {d : List (κ × β)} {k : κ} : get d k = none ↔ k ∉ d.map Prod.fst := by
  induction d with
  | nil => simp
  | cons e d ih =>
    rw [get_cons, List.map_cons, List.mem_cons, not_or, ← ih]
    by_cases h : e.1 = k
    · simp [h]
    · simp [h, Ne.symm h]

/-- What lies under a key is in the dictionary. -/
theorem mem_of_get {d : List (κ × β)} {k : κ} {v : β} (h : get d k = some v) : (k, v) ∈ d := by
  induction d with
  | nil => cases h
  | cons e d ih =>
    rw [get_cons] at h
    split at h
    · next hk =>
      have hitem : e = (k, v) := Prod.ext hk (Option.some.inj h)
      exact hitem ▸ List.mem_cons_self
    · exact List.mem_cons_of_mem _ (ih h)

/-- Where no key comes twice, every item is found under its key. -/
theorem get_of_mem {d : List (κ × β)} (hd : (d.map Prod.fst).Nodup) {k : κ} {v : β}
    (h : (k, v) ∈ d) : get d k = some v := by
  induction d with
  | nil => cases h
  | cons e d ih =>
    obtain ⟨hnot, hrest⟩ := List.nodup_cons.1 (show (e.1 :: d.map Prod.fst).Nodup from hd)
    rw [get_cons]
    rcases List.mem_cons.1 h with rfl | h
    · rw [if_pos rfl]
    · have hne : e.1 ≠ k := fun heq => hnot (heq.symm ▸ List.mem_map_of_mem (f := Prod.fst) h)
      rw [if_neg hne, ih hrest h]

/-- Where no key comes twice, the items of a key are the one that is found. -/
theorem filter_key {d : List (κ × β)} (hd : (d.map Prod.fst).Nodup) (k : κ) :
    (d.filter fun e => e.1 = k) = (get d k).toList.map fun v => (k, v) := by
  induction d with
  | nil => rfl
  | cons e d ih =>
    obtain ⟨hnot, hrest⟩ := List.nodup_cons.1 (show (e.1 :: d.map Prod.fst).Nodup from hd)
    rw [get_cons]
    by_cases h : e.1 = k
    · have hnone : d.filter (fun f => f.1 = k) = [] := by
        rw [ih hrest, get_eq_none_iff.2 (h ▸ hnot)]
        rfl
      rw [List.filter_cons_of_pos (by simpa using h), hnone, if_pos h]
      exact List.cons_eq_cons.2 ⟨Prod.ext h rfl, rfl⟩
    · rw [List.filter_cons_of_neg (by simpa using h), ih hrest, if_neg h]

/-! ## The keys -/

/-- A key that is there keeps its place. -/
theorem map_fst_set (d : List (κ × β)) (k : κ) (v : β) :
    (set d k v).map Prod.fst =
      if k ∈ d.map Prod.fst then d.map Prod.fst else d.map Prod.fst ++ [k] := by
  induction d with
  | nil => rfl
  | cons e d ih =>
    rw [set]
    by_cases h : e.1 = k
    · simp [h]
    · rw [if_neg h, List.map_cons, ih, List.map_cons]
      by_cases hk : k ∈ d.map Prod.fst
      · rw [if_pos hk, if_pos (List.mem_cons_of_mem _ hk)]
      · rw [if_neg hk, if_neg fun hmem => (List.mem_cons.1 hmem).elim (Ne.symm h) hk]
        rfl

theorem mem_keys_set {d : List (κ × β)} {k k' : κ} {v : β} :
    k' ∈ (set d k v).map Prod.fst ↔ k' = k ∨ k' ∈ d.map Prod.fst := by
  rw [map_fst_set]
  split
  · next h => exact ⟨.inr, fun hk => hk.elim (fun heq => heq ▸ h) id⟩
  · rw [List.mem_append, List.mem_singleton, or_comm]

theorem nodup_keys_set {d : List (κ × β)} (h : (d.map Prod.fst).Nodup) (k : κ) (v : β) :
    ((set d k v).map Prod.fst).Nodup := by
  rw [map_fst_set]
  split
  · exact h
  · next hk =>
    rw [← List.concat_eq_append]
    exact List.Nodup.concat hk h

/-- An item comes from the dictionary, or is the one that is set. -/
theorem mem_set {d : List (κ × β)} {k : κ} {v : β} {e : κ × β} (h : e ∈ set d k v) :
    e = (k, v) ∨ e ∈ d := by
  induction d with
  | nil => exact .inl (List.mem_singleton.1 h)
  | cons f d ih =>
    rw [set] at h
    split at h
    · exact (List.mem_cons.1 h).imp_right (List.mem_cons_of_mem _)
    · rcases List.mem_cons.1 h with rfl | h
      · exact .inr List.mem_cons_self
      · exact (ih h).imp_right (List.mem_cons_of_mem _)

/-- A new key comes last. -/
theorem set_of_not_mem {d : List (κ × β)} {k : κ} (h : k ∉ d.map Prod.fst) (v : β) :
    set d k v = d ++ [(k, v)] := by
  induction d with
  | nil => rfl
  | cons e d ih =>
    obtain ⟨hne, hrest⟩ := not_or.1 (mt List.mem_cons.2 (show k ∉ e.1 :: d.map Prod.fst from h))
    rw [set, if_neg (Ne.symm hne), ih hrest, List.cons_append]

/-! ## Items one after another -/

theorem foldl_set_keys {d : List (κ × β)} (hd : (d.map Prod.fst).Nodup) (items : List (κ × β)) :
    (((items.foldl (fun d e => set d e.1 e.2) d).map Prod.fst).Nodup) ∧
      ∀ k, k ∈ (items.foldl (fun d e => set d e.1 e.2) d).map Prod.fst ↔
        k ∈ d.map Prod.fst ∨ k ∈ items.map Prod.fst := by
  induction items generalizing d with
  | nil => exact ⟨hd, fun k => by simp⟩
  | cons e items ih =>
    obtain ⟨hnodup, hmem⟩ := ih (nodup_keys_set hd e.1 e.2)
    refine ⟨hnodup, fun k => (hmem k).trans ?_⟩
    rw [mem_keys_set, List.map_cons, List.mem_cons, or_comm (a := k = e.1), or_assoc]

theorem nodup_keys_ofItems (items : List (κ × β)) : ((ofItems items).map Prod.fst).Nodup :=
  (foldl_set_keys (d := []) List.nodup_nil items).1

theorem mem_keys_ofItems {items : List (κ × β)} {k : κ} :
    k ∈ (ofItems items).map Prod.fst ↔ k ∈ items.map Prod.fst := by
  rw [ofItems, (foldl_set_keys (d := []) List.nodup_nil items).2 k]
  simp

theorem mem_foldl_set {d items : List (κ × β)} {e : κ × β}
    (h : e ∈ items.foldl (fun d e => set d e.1 e.2) d) : e ∈ d ∨ e ∈ items := by
  induction items generalizing d with
  | nil => exact .inl h
  | cons f items ih =>
    rcases ih h with h | h
    · rcases mem_set h with rfl | h
      · exact .inr List.mem_cons_self
      · exact .inl h
    · exact .inr (List.mem_cons_of_mem _ h)

theorem mem_of_mem_ofItems {items : List (κ × β)} {e : κ × β} (h : e ∈ ofItems items) :
    e ∈ items := (mem_foldl_set h).resolve_left List.not_mem_nil

/-- A dictionary of values under themselves has each of them once. -/
theorem values_ofItems_self (xs : List κ) :
    ((ofItems (xs.map fun x => (x, x))).map Prod.snd).Nodup ∧
      ∀ x, x ∈ (ofItems (xs.map fun x => (x, x))).map Prod.snd ↔ x ∈ xs := by
  have hvalues : (ofItems (xs.map fun x => (x, x))).map Prod.snd =
      (ofItems (xs.map fun x => (x, x))).map Prod.fst := by
    refine List.map_congr_left fun e he => ?_
    obtain ⟨x, -, rfl⟩ := List.mem_map.1 (mem_of_mem_ofItems he)
    rfl
  rw [hvalues]
  refine ⟨nodup_keys_ofItems _, fun x => ?_⟩
  rw [mem_keys_ofItems, List.map_map, Function.comp_def, List.map_id']

/-- Items with distinct keys are their own dictionary. -/
theorem foldl_set_of_nodup {d items : List (κ × β)} (h : ((d ++ items).map Prod.fst).Nodup) :
    items.foldl (fun d e => set d e.1 e.2) d = d ++ items := by
  induction items generalizing d with
  | nil => simp
  | cons e items ih =>
    have hnot : e.1 ∉ d.map Prod.fst := by
      rw [List.map_append, List.map_cons] at h
      exact fun hmem => (List.nodup_append.1 h).2.2 e.1 hmem e.1 List.mem_cons_self rfl
    have hshift : (d ++ [e]) ++ items = d ++ e :: items := by simp
    rw [List.foldl_cons, set_of_not_mem hnot, ih (by rwa [hshift]), hshift]

theorem ofItems_of_nodup {items : List (κ × β)} (h : (items.map Prod.fst).Nodup) :
    ofItems items = items := foldl_set_of_nodup (d := []) h

/-! ## Gathering -/

theorem get_foldl_gather (add : β → α → β) (empty : β) (key : α → κ) (xs : List α)
    (d : List (κ × β)) (k : κ) :
    get (xs.foldl (fun d x => set d (key x) (add ((get d (key x)).getD empty) x)) d) k =
      if ∃ x ∈ xs, key x = k then
        some ((xs.filter fun x => key x = k).foldl add ((get d k).getD empty))
      else get d k := by
  induction xs generalizing d with
  | nil => simp
  | cons x xs ih =>
    rw [List.foldl_cons, ih, get_set]
    by_cases hx : key x = k
    · subst hx
      by_cases hrest : ∃ y ∈ xs, key y = key x
      · simp [hrest]
      · have hnone : xs.filter (fun y => key y = key x) = [] := by
          rw [List.filter_eq_nil_iff]
          exact fun y hy => by simpa using fun heq => hrest ⟨y, hy, heq⟩
        simp [hrest, hnone]
    · simp [hx]

/-- **Under a key lie the elements that have it**, in their order. -/
theorem get_gather (add : β → α → β) (empty : β) (key : α → κ) (xs : List α) (k : κ) :
    get (gather add empty key xs) k =
      if ∃ x ∈ xs, key x = k then some ((xs.filter fun x => key x = k).foldl add empty)
      else none := get_foldl_gather add empty key xs [] k

theorem nodup_keys_gather (add : β → α → β) (empty : β) (key : α → κ) (xs : List α) :
    ((gather add empty key xs).map Prod.fst).Nodup := by
  have hkeep : ∀ d : List (κ × β), (d.map Prod.fst).Nodup →
      ((xs.foldl (fun d x => set d (key x) (add ((get d (key x)).getD empty) x)) d).map
        Prod.fst).Nodup := by
    induction xs with
    | nil => exact fun _ => id
    | cons x xs ih => exact fun d hd => ih _ (nodup_keys_set hd _ _)
  exact hkeep [] List.nodup_nil

theorem mem_keys_gather {add : β → α → β} {empty : β} {key : α → κ} {xs : List α} {k : κ} :
    k ∈ (gather add empty key xs).map Prod.fst ↔ ∃ x ∈ xs, key x = k := by
  rw [← not_iff_not, ← get_eq_none_iff, get_gather]
  split
  · next h => simpa using h
  · next h => simpa using h

/-! ## Sums -/

variable {M : Type*} [AddCommMonoid M]

theorem sum_set (d : List (κ × M)) (k : κ) (v : M) :
    ((set d k ((get d k).getD 0 + v)).map Prod.snd).sum = (d.map Prod.snd).sum + v := by
  induction d with
  | nil => simp [set]
  | cons e d ih =>
    rw [set, get_cons]
    by_cases h : e.1 = k
    · rw [if_pos h, if_pos h, Option.getD_some, List.map_cons, List.sum_cons, List.map_cons,
        List.sum_cons, add_right_comm]
    · rw [if_neg h, if_neg h, List.map_cons, List.sum_cons, ih, List.map_cons, List.sum_cons,
        add_assoc]

/-- **Gathering loses nothing.** -/
theorem sum_gather (key : α → κ) (f : α → M) (xs : List α) :
    ((gather (fun t x => t + f x) 0 key xs).map Prod.snd).sum = (xs.map f).sum := by
  have hrun : ∀ d : List (κ × M),
      ((xs.foldl (fun d x => set d (key x) ((get d (key x)).getD 0 + f x)) d).map Prod.snd).sum =
        (d.map Prod.snd).sum + (xs.map f).sum := by
    induction xs with
    | nil => exact fun d => (add_zero _).symm
    | cons x xs ih =>
      intro d
      rw [List.foldl_cons, ih, sum_set, List.map_cons, List.sum_cons, add_assoc]
  rw [gather, hrun, List.map_nil, List.sum_nil, zero_add]

end Dicts

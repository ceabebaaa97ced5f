import MqttBench.Lib.Dicts

/-!
# Counting by key

Two ways to count how often each key occurs: an insertion-ordered table that is sorted
when it is read out, and a dense array whose zero entries are left out.  Both are the
*tally* of one counting function, and a tally is determined by that function.

* `IsTally f l` — `l` lists the keys that `f` does not send to zero, ascending, each
  with its count.
* `IsTally.unique` — there is only one such list.
* `isTally_sorted`, `isTally_dense` — each way of counting produces it.
* `get_foldl_add` — adding up a tally adds what it counts.
* `expand`, `kth` — a tally written out, and the key at a given place in it.
* `IsTally.expand_eq` — **a tally written out is the sorted list that it counts**, so that
  `kth` finds its order statistics.
-/

namespace Tally

/-! ## Tallies -/

/-- `l` lists the non-zero values of `f`, with their arguments ascending. -/
structure IsTally {α : Type*} [LinearOrder α] (f : α → ℕ) (l : List (α × ℕ)) : Prop where
  /-- The keys strictly ascend. -/
  ascending : l.Pairwise fun a b => a.1 < b.1
  /-- What is listed is what `f` counts. -/
  mem_iff : ∀ k n, (k, n) ∈ l ↔ f k = n ∧ n ≠ 0

theorem IsTally.nodup {α : Type*} [LinearOrder α] {f : α → ℕ} {l : List (α × ℕ)}
    (h : IsTally f l) : l.Nodup :=
  h.ascending.imp fun {a b} hab heq => by rw [heq] at hab; exact lt_irrefl _ hab

/-- **A tally is determined by what it counts.** -/
theorem IsTally.unique {α : Type*} [LinearOrder α] {f : α → ℕ} {l l' : List (α × ℕ)}
    (h : IsTally f l) (h' : IsTally f l') : l = l' := by
  have hperm : l.Perm l' := by
    rw [List.perm_ext_iff_of_nodup h.nodup h'.nodup]
    rintro ⟨k, n⟩
    rw [h.mem_iff, h'.mem_iff]
  refine hperm.eq_of_pairwise ?_ h.ascending h'.ascending
  intro a b _ _ hab hba
  exact absurd (hab.trans hba) (lt_irrefl _)

/-! ## The table -/

section Table

variable {α : Type*} [DecidableEq α]

/-- `d[k] = d.get(k, 0) + n` on an insertion-ordered table. -/
def add (d : List (α × ℕ)) (k : α) (n : ℕ) : List (α × ℕ) :=
  match d with
  | [] => [(k, n)]
  | (j, m) :: d => if j = k then (j, m + n) :: d else (j, m) :: add d k n

/-- `d.get(k, 0)`. -/
def get (d : List (α × ℕ)) (k : α) : ℕ :=
  match d with
  | [] => 0
  | (j, m) :: d => if j = k then m else get d k

theorem get_eq_getD (d : List (α × ℕ)) (k : α) : get d k = (Dicts.get d k).getD 0 := by
  induction d with
  | nil => rfl
  | cons e d ih =>
    rw [get, Dicts.get_cons, ih]
    split <;> rfl

theorem add_eq_set (d : List (α × ℕ)) (k : α) (n : ℕ) :
    add d k n = Dicts.set d k (get d k + n) := by
  induction d with
  | nil => rw [add, get, Nat.zero_add, Dicts.set]
  | cons e d ih =>
    rw [add, get, Dicts.set]
    by_cases h : e.1 = k
    · rw [if_pos h, if_pos h, if_pos h, h]
    · rw [if_neg h, if_neg h, if_neg h, ih]

theorem get_add (d : List (α × ℕ)) (k : α) (n : ℕ) (j : α) :
    get (add d k n) j = if k = j then get d j + n else get d j := by
  rw [get_eq_getD, add_eq_set, Dicts.get_set]
  split
  · next hkj => rw [hkj, Option.getD_some]
  · rw [get_eq_getD d j]

theorem nodup_keys_add {d : List (α × ℕ)} (h : (d.map Prod.fst).Nodup) (k : α) (n : ℕ) :
    ((add d k n).map Prod.fst).Nodup := by
  rw [add_eq_set]
  exact Dicts.nodup_keys_set h _ _

/-- A table whose keys are distinct lists exactly what it returns. -/
theorem mem_iff_get {d : List (α × ℕ)} (h : (d.map Prod.fst).Nodup) {k : α} {n : ℕ}
    (hn : n ≠ 0) : (k, n) ∈ d ↔ get d k = n := by
  rw [get_eq_getD]
  constructor
  · intro hmem
    rw [Dicts.get_of_mem h hmem, Option.getD_some]
  · intro hget
    cases hd : Dicts.get d k with
    | none => exact absurd (hd ▸ hget).symm hn
    | some m =>
      have hm : m = n := by rwa [hd] at hget
      exact hm ▸ Dicts.mem_of_get hd

/-- No entry of the table is zero. -/
def Positive (d : List (α × ℕ)) : Prop := ∀ e ∈ d, e.2 ≠ 0

theorem positive_add {d : List (α × ℕ)} (h : Positive d) (k : α) {n : ℕ} (hn : n ≠ 0) :
    Positive (add d k n) := by
  induction d with
  | nil => simpa [add, Positive] using hn
  | cons e d ih =>
    obtain ⟨i, m⟩ := e
    obtain ⟨hm, hd⟩ := List.forall_mem_cons.1 h
    rw [add]
    split
    · exact List.forall_mem_cons.2 ⟨by simp only at hm ⊢; omega, hd⟩
    · exact List.forall_mem_cons.2 ⟨hm, ih hd⟩

end Table

/-! ## Adding tallies up -/

section AddUp

variable {α : Type*} [LinearOrder α] {f : α → ℕ} {l : List (α × ℕ)}

theorem IsTally.nodup_keys (h : IsTally f l) : (l.map Prod.fst).Nodup :=
  (List.pairwise_map.2 h.ascending).imp fun hlt => hlt.ne

theorem IsTally.positive (h : IsTally f l) : Positive l := fun e he => ((h.mem_iff e.1 e.2).1 he).2

/-- A tally, read as a table, is what it counts. -/
theorem IsTally.get_eq (h : IsTally f l) (k : α) : get l k = f k := by
  by_cases hk : f k = 0
  · by_contra hne
    rw [hk] at hne
    have hmem := (mem_iff_get h.nodup_keys hne).2 rfl
    exact hne (((h.mem_iff _ _).1 hmem).1.symm.trans hk)
  · exact (mem_iff_get h.nodup_keys hk).1 ((h.mem_iff _ _).2 ⟨rfl, hk⟩)

theorem get_eq_zero {d : List (α × ℕ)} {k : α} (hk : k ∉ d.map Prod.fst) : get d k = 0 := by
  rw [get_eq_getD, Dicts.get_eq_none_iff.2 hk, Option.getD_none]

/-- **Adding a table up, entry by entry, adds what it counts.** -/
theorem get_foldl_add {l : List (α × ℕ)} (hl : (l.map Prod.fst).Nodup) (d : List (α × ℕ)) (k : α) :
    get (l.foldl (fun d e => add d e.1 e.2) d) k = get d k + get l k := by
  induction l generalizing d with
  | nil => rfl
  | cons e l ih =>
    obtain ⟨j, m⟩ := e
    obtain ⟨hj, hl⟩ := List.nodup_cons.1 hl
    rw [List.foldl_cons, ih hl, get_add, get]
    by_cases hjk : j = k
    · subst hjk
      rw [if_pos rfl, if_pos rfl, get_eq_zero hj, Nat.add_zero]
    · rw [if_neg hjk, if_neg hjk]

theorem nodup_keys_foldl_add (l : List (α × ℕ)) {d : List (α × ℕ)} (hd : (d.map Prod.fst).Nodup) :
    ((l.foldl (fun d e => add d e.1 e.2) d).map Prod.fst).Nodup := by
  induction l generalizing d with
  | nil => exact hd
  | cons e l ih => exact ih (nodup_keys_add hd _ _)

theorem positive_foldl_add {l : List (α × ℕ)} (hl : Positive l) {d : List (α × ℕ)}
    (hd : Positive d) : Positive (l.foldl (fun d e => add d e.1 e.2) d) := by
  induction l generalizing d with
  | nil => exact hd
  | cons e l ih =>
    obtain ⟨he, hl⟩ := List.forall_mem_cons.1 hl
    exact ih hl (positive_add hd _ he)

end AddUp

/-! ## Order statistics -/

section Ranks

variable {α : Type*}

/-- A tally written out: each key as often as it was counted. -/
def expand (l : List (α × ℕ)) : List α := l.flatMap fun e => List.replicate e.2 e.1

/-- The key at place `k`, counted from 1, of a tally written out. -/
def kth : List (α × ℕ) → ℕ → Option α
  | [], _ => none
  | (a, n) :: l, k => if k ≤ n then some a else kth l (k - n)

/-- The scan finds what stands at its place. -/
theorem kth_eq (l : List (α × ℕ)) {k : ℕ} (hk : 0 < k) : kth l k = (expand l)[k - 1]? := by
  induction l generalizing k with
  | nil => rfl
  | cons e l ih =>
    obtain ⟨a, n⟩ := e
    have hexpand : expand ((a, n) :: l) = List.replicate n a ++ expand l := rfl
    rw [kth, hexpand]
    by_cases hkn : k ≤ n
    · rw [if_pos hkn, List.getElem?_append_left (by rw [List.length_replicate]; omega),
        List.getElem?_replicate_of_lt (by omega)]
    · rw [if_neg hkn, ih (by omega),
        List.getElem?_append_right (by rw [List.length_replicate]; omega), List.length_replicate]
      congr 1
      omega

variable [LinearOrder α]

theorem count_expand {l : List (α × ℕ)} (hl : (l.map Prod.fst).Nodup) (k : α) :
    (expand l).count k = get l k := by
  induction l with
  | nil => rfl
  | cons e l ih =>
    obtain ⟨a, n⟩ := e
    obtain ⟨ha, hl⟩ := List.nodup_cons.1 hl
    have hexpand : expand ((a, n) :: l) = List.replicate n a ++ expand l := rfl
    rw [hexpand, List.count_append, ih hl, get, List.count_replicate]
    by_cases hak : a = k
    · subst hak
      simp [get_eq_zero ha]
    · simp [hak]

theorem pairwise_expand {l : List (α × ℕ)} (hl : l.Pairwise fun a b => a.1 < b.1) :
    (expand l).Pairwise (· ≤ ·) := by
  induction l with
  | nil => exact List.Pairwise.nil
  | cons e l ih =>
    obtain ⟨a, n⟩ := e
    obtain ⟨ha, hl⟩ := List.pairwise_cons.1 hl
    refine List.pairwise_append.2 ⟨List.pairwise_replicate.2 (.inr le_rfl), ih hl, ?_⟩
    intro b hb c hc
    obtain ⟨e, he, hc⟩ := List.mem_flatMap.1 hc
    rw [List.eq_of_mem_replicate hb, List.eq_of_mem_replicate hc]
    exact (ha e he).le

/-- **A tally written out is the sorted list that it counts.** -/
theorem IsTally.expand_eq {xs : List α} (hxs : xs.Pairwise (· ≤ ·)) {l : List (α × ℕ)}
    (h : IsTally (fun a => xs.count a) l) : expand l = xs := by
  have hperm : (expand l).Perm xs := by
    rw [List.perm_iff_count]
    intro a
    rw [count_expand h.nodup_keys, h.get_eq]
  exact hperm.eq_of_pairwise (fun a b _ _ hab hba => le_antisymm hab hba)
    (pairwise_expand h.ascending) hxs

end Ranks

/-! ## Reading a table out in order -/

section Sorted

variable {α : Type*} [LinearOrder α]

/-- The order of pairs that `sorted` uses: the key first, then the count. -/
def PairLE (a b : α × ℕ) : Prop := a.1 < b.1 ∨ a.1 = b.1 ∧ a.2 ≤ b.2

instance : DecidableRel (PairLE (α := α)) := fun a b =>
  inferInstanceAs (Decidable (a.1 < b.1 ∨ a.1 = b.1 ∧ a.2 ≤ b.2))

instance : Std.Total (PairLE (α := α)) where
  total a b := by
    rcases lt_trichotomy a.1 b.1 with h | h | h
    · exact .inl (.inl h)
    · rcases le_total a.2 b.2 with h' | h'
      · exact .inl (.inr ⟨h, h'⟩)
      · exact .inr (.inr ⟨h.symm, h'⟩)
    · exact .inr (.inl h)

instance : IsTrans (α × ℕ) PairLE where
  trans a b c hab hbc := by
    rcases hab with h | ⟨h, h'⟩ <;> rcases hbc with g | ⟨g, g'⟩
    · exact .inl (h.trans g)
    · exact .inl (g ▸ h)
    · exact .inl (h ▸ g)
    · exact .inr ⟨h.trans g, h'.trans g'⟩

/-- `sorted(d.items())`. -/
def sorted (d : List (α × ℕ)) : List (α × ℕ) := d.insertionSort PairLE

/-- **A table read out in order is the tally of what it returns.** -/
theorem isTally_sorted {d : List (α × ℕ)} (hk : (d.map Prod.fst).Nodup) (hp : Positive d) :
    IsTally (get d) (sorted d) where
  ascending := by
    have hperm : (sorted d).Perm d := List.perm_insertionSort _ _
    have hkeys : ((sorted d).map Prod.fst).Nodup := (hperm.map Prod.fst).nodup_iff.2 hk
    have hne : (sorted d).Pairwise fun a b => a.1 ≠ b.1 := List.pairwise_map.1 hkeys
    have hle : (sorted d).Pairwise PairLE := List.pairwise_insertionSort _ _
    refine (hle.and hne).imp ?_
    rintro a b ⟨hab | ⟨hab, -⟩, hne⟩
    · exact hab
    · exact absurd hab hne
  mem_iff k n := by
    have hperm : (sorted d).Perm d := List.perm_insertionSort _ _
    rw [hperm.mem_iff]
    constructor
    · intro hmem
      have hn : n ≠ 0 := hp _ hmem
      exact ⟨(mem_iff_get hk hn).1 hmem, hn⟩
    · rintro ⟨hget, hn⟩
      exact (mem_iff_get hk hn).2 hget

end Sorted

/-! ## Reading a dense array out -/

/-- `for i in range(n): if f(i): yield i, f(i)`. -/
def dense (n : ℕ) (f : ℕ → ℕ) : List (ℕ × ℕ) :=
  (List.range n).filterMap fun i => if f i = 0 then none else some (i, f i)

/-- **A dense array, its zeros left out, is the tally of its entries.** -/
theorem isTally_dense {n : ℕ} {f : ℕ → ℕ} (h : ∀ k, n ≤ k → f k = 0) :
    IsTally f (dense n f) where
  ascending := by
    rw [dense, List.pairwise_filterMap]
    refine List.pairwise_lt_range.imp ?_
    intro i j hij a ha b hb
    split at ha <;> split at hb <;> simp_all
    obtain rfl := ha
    obtain rfl := hb
    exact hij
  mem_iff k m := by
    simp only [dense, List.mem_filterMap, List.mem_range]
    constructor
    · rintro ⟨i, -, hi⟩
      split at hi
      · cases hi
      · next hne =>
        obtain ⟨rfl, rfl⟩ := Prod.mk.inj (Option.some.inj hi)
        exact ⟨rfl, hne⟩
    · rintro ⟨rfl, hne⟩
      refine ⟨k, ?_, by rw [if_neg hne]⟩
      by_contra hk
      exact hne (h k (not_lt.1 hk))

end Tally

import MqttBench.Bench.Histogram

/-!
# Merging histograms

`merge` of `bench/histogram.py` adds up the histograms of several runs and processes.  What
a scan holds depends on the samples it has seen and not on where they came from, so the
samples are a multiset here.

* `Scan.Pools` — the invariant: the local variables describe a pool of samples.
* `Scan.Pools.hist` — **merging a histogram in is scanning its samples.**
* `merge_pools` — **merging is pooling**, and what follows from it.
* `merged_map_fromValues` — what a cell of the report shows.
-/

namespace Bench.Histogram

open Tally

/-- The samples that are binned. -/
def samples (pool : Multiset ℤ) : Multiset ℕ := (pool.filter (0 ≤ ·)).map Int.toNat

theorem samples_add (p p' : Multiset ℤ) : samples (p + p') = samples p + samples p' := by
  rw [samples, Multiset.filter_add, Multiset.map_add]
  rfl

theorem samples_neg {v : ℤ} (hv : v < 0) : samples {v} = 0 := by
  rw [samples, Multiset.filter_singleton, if_neg (not_le.2 hv)]
  rfl

theorem samples_nonneg {v : ℤ} (hv : 0 ≤ v) : samples {v} = {v.toNat} := by
  rw [samples, Multiset.filter_singleton, if_pos hv]
  rfl

theorem countP_singleton (v : ℤ) :
    Multiset.countP (· < 0) {v} = if v < 0 then 1 else 0 := by
  rw [Multiset.countP_eq_card_filter, Multiset.filter_singleton]
  split <;> rfl

/-- The local variables of a scan describe the samples of `pool`. -/
structure Scan.Pools (s : Scan) (pool : Multiset ℤ) : Prop extends s.Distinct where
  buckets : ∀ i, get s.buckets i = ((samples pool).map bucketOf).count i
  count : s.count = (samples pool).card
  total : s.total = (samples pool).sum
  negative : s.negative = pool.countP (· < 0)
  lo : s.lo.elim (⊤ : WithTop ℕ) (↑) = ((samples pool).map ((↑) : ℕ → WithTop ℕ)).inf
  hi : s.hi = (samples pool).sup

theorem Scan.pools_init : Scan.init.Pools 0 where
  toDistinct := distinct_init
  buckets _ := rfl
  count := rfl
  total := rfl
  negative := rfl
  lo := rfl
  hi := rfl

/-- **One value more is one sample more**, or one negative value more. -/
theorem Scan.Pools.value {s : Scan} {pool : Multiset ℤ} (h : s.Pools pool) (v : ℤ) :
    (s.value v).Pools (pool + {v}) := by
  have hdistinct := h.toDistinct.value v
  revert hdistinct
  unfold Scan.value
  by_cases hv : v < 0
  · have hsame : samples (pool + {v}) = samples pool := by
      rw [samples_add, samples_neg hv, add_zero]
    rw [if_pos hv]
    intro hdistinct
    exact
      { toDistinct := hdistinct
        buckets := by rw [hsame]; exact h.buckets
        count := by rw [hsame]; exact h.count
        total := by rw [hsame]; exact h.total
        negative := by rw [Multiset.countP_add, countP_singleton, if_pos hv, h.negative]
        lo := by rw [hsame]; exact h.lo
        hi := by rw [hsame]; exact h.hi }
  · have hmore : samples (pool + {v}) = samples pool + {v.toNat} := by
      rw [samples_add, samples_nonneg (not_lt.1 hv)]
    rw [if_neg hv]
    intro hdistinct
    exact
      { toDistinct := hdistinct
        buckets := by
          intro i
          rw [hmore, get_add, h.buckets, Multiset.map_add, Multiset.count_add,
            Multiset.map_singleton, Multiset.count_singleton]
          by_cases hi : bucketOf v.toNat = i
          · rw [if_pos hi, if_pos hi.symm]
          · rw [if_neg hi, if_neg (Ne.symm hi), Nat.add_zero]
        count := by simp [hmore, h.count]
        total := by simp [hmore, h.total]
        negative := by rw [Multiset.countP_add, countP_singleton, if_neg hv, h.negative, add_zero]
        lo := by
          rw [hmore, Multiset.map_add, Multiset.inf_add, ← h.lo, Multiset.map_singleton,
            Multiset.inf_singleton]
          cases s.lo with
          | none => simp
          | some lo =>
            simp only [Option.elim_some]
            split
            · next hlt => exact (min_eq_right (WithTop.coe_le_coe.2 hlt.le)).symm
            · next hlt => exact (min_eq_left (WithTop.coe_le_coe.2 (not_lt.1 hlt))).symm
        hi := by
          rw [hmore, Multiset.sup_add, ← h.hi, Multiset.sup_singleton]
          simp only
          split
          · next hlt => exact (max_eq_right hlt.le).symm
          · next hlt => exact (max_eq_left (not_lt.1 hlt)).symm }

theorem Scan.Pools.foldl_value {s : Scan} {pool : Multiset ℤ} (h : s.Pools pool)
    (values : List ℤ) : (values.foldl Scan.value s).Pools (pool + values) := by
  induction values generalizing s pool with
  | nil => simpa using h
  | cons v values ih =>
    have hrest := ih (h.value v)
    rwa [add_assoc, ← Multiset.cons_coe, ← Multiset.singleton_add] at *

/-- The bucket list of the result is the tally of the samples' buckets. -/
theorem Scan.Pools.isTally {s : Scan} {pool : Multiset ℤ} (h : s.Pools pool) :
    IsTally (fun i => ((samples pool).map bucketOf).count i) s.result.buckets := by
  have hsorted := h.isTally_result
  rwa [show get s.buckets = _ from funext h.buckets] at hsorted

/-- **The result depends on the samples only.** -/
theorem Scan.Pools.result_eq {s t : Scan} {pool : Multiset ℤ} (hs : s.Pools pool)
    (ht : t.Pools pool) : s.result = t.result := by
  have hlo : s.lo = t.lo := by
    have := hs.lo.trans ht.lo.symm
    cases hslo : s.lo <;> cases htlo : t.lo <;> simp_all
  have hbuckets := hs.isTally.unique ht.isTally
  have hcount := hs.count.trans ht.count.symm
  have htotal := hs.total.trans ht.total.symm
  have hnegative := hs.negative.trans ht.negative.symm
  have hhi := hs.hi.trans ht.hi.symm
  simp only [Scan.result] at hbuckets ⊢
  rw [hlo, hbuckets, hcount, htotal, hnegative, hhi]

/-- **Merging a histogram in is scanning its samples.** -/
theorem Scan.Pools.hist {s t : Scan} {pool pool' : Multiset ℤ} (hs : s.Pools pool)
    (ht : t.Pools pool') : (s.hist (some t.result)).Pools (pool + pool') := by
  unfold Scan.hist
  have hcount : t.result.count = (samples pool').card := ht.count
  by_cases h0 : t.result.count = 0
  · have hnone : samples pool' = 0 := Multiset.card_eq_zero.1 (hcount ▸ h0)
    have hsame : samples (pool + pool') = samples pool := by
      rw [samples_add, hnone, add_zero]
    simp only [if_pos h0]
    exact
      { keys := hs.keys
        positive := hs.positive
        buckets := by rw [hsame]; exact hs.buckets
        count := by rw [hsame]; exact hs.count
        total := by rw [hsame]; exact hs.total
        negative := by
          rw [Multiset.countP_add, ← hs.negative, ← ht.negative]
          rfl
        lo := by rw [hsame]; exact hs.lo
        hi := by rw [hsame]; exact hs.hi }
  · have htally := ht.isTally
    obtain ⟨lo, hlo⟩ : ∃ lo, t.lo = some lo := by
      rw [← Option.ne_none_iff_exists']
      intro hnone
      have hinf := ht.lo
      rw [hnone, Option.elim_none] at hinf
      obtain ⟨v, hv⟩ := Multiset.card_pos_iff_exists_mem.1 (Nat.pos_of_ne_zero (hcount ▸ h0))
      have hle := Multiset.inf_le (Multiset.mem_map_of_mem ((↑) : ℕ → WithTop ℕ) hv)
      rw [← hinf] at hle
      exact absurd (top_le_iff.1 hle) WithTop.coe_ne_top
    have hmin : t.result.minNs = lo := by
      change t.lo.getD 0 = lo
      rw [hlo]
      rfl
    simp only [if_neg h0]
    exact
      { keys := nodup_keys_foldl_add _ hs.keys
        positive := positive_foldl_add htally.positive hs.positive
        buckets := by
          intro i
          rw [get_foldl_add htally.nodup_keys, hs.buckets, htally.get_eq, samples_add,
            Multiset.map_add, Multiset.count_add]
        count := by rw [samples_add, Multiset.card_add, hs.count, hcount]
        total := by
          rw [samples_add, Multiset.sum_add, hs.total, ← ht.total]
          rfl
        negative := by
          rw [Multiset.countP_add, ← hs.negative, ← ht.negative]
          rfl
        lo := by
          have hlo' := ht.lo
          rw [hlo, Option.elim_some] at hlo'
          rw [samples_add, Multiset.map_add, Multiset.inf_add, ← hs.lo, ← hlo', hmin]
          cases s.lo with
          | none => simp
          | some lo' => exact WithTop.coe_min lo' lo
        hi := by
          rw [samples_add, Multiset.sup_add, ← hs.hi, ← ht.hi]
          rfl }

theorem pools_fromValues (values : List ℤ) :
    (values.foldl Scan.value Scan.init).Pools values := by
  simpa using Scan.pools_init.foldl_value values

theorem Scan.Pools.foldl_hist {s : Scan} {pool : Multiset ℤ} (h : s.Pools pool)
    (xss : List (List ℤ)) :
    ((xss.map fun xs => some (fromValues xs)).foldl Scan.hist s).Pools (pool + xss.flatten) := by
  induction xss generalizing s pool with
  | nil => simpa using h
  | cons xs xss ih =>
    have hrest := ih (h.hist (pools_fromValues xs))
    rwa [add_assoc, Multiset.coe_add] at hrest

/-- **Merging is pooling.** -/
theorem merge_map_fromValues (xss : List (List ℤ)) :
    merge (xss.map fun xs => some (fromValues xs)) = fromValues xss.flatten := by
  have hmerge := Scan.pools_init.foldl_hist xss
  rw [zero_add] at hmerge
  exact hmerge.result_eq (pools_fromValues xss.flatten)

/-- **A histogram does not depend on the order of its samples.** -/
theorem fromValues_perm {xs ys : List ℤ} (h : xs.Perm ys) : fromValues xs = fromValues ys := by
  have hxs := pools_fromValues xs
  rw [show (xs : Multiset ℤ) = ys from Multiset.coe_eq_coe.2 h] at hxs
  exact hxs.result_eq (pools_fromValues ys)

theorem fromValues_nil : fromValues [] = empty := rfl

/-- **Merging is pooling.**  So merging is associative and commutative, the empty histogram
is its identity, and how the samples are distributed over the histograms does not matter. -/
theorem merge_pools :
    (∀ xss : List (List ℤ),
        merge (xss.map fun xs => some (fromValues xs)) = fromValues xss.flatten) ∧
      (∀ xs ys zs : List ℤ,
        merge [some (merge [some (fromValues xs), some (fromValues ys)]), some (fromValues zs)] =
          merge [some (fromValues xs), some (merge [some (fromValues ys), some (fromValues zs)])]) ∧
      (∀ xs ys : List ℤ,
        merge [some (fromValues xs), some (fromValues ys)] =
          merge [some (fromValues ys), some (fromValues xs)]) ∧
      (∀ xs : List ℤ,
        merge [some (fromValues xs), some empty] = fromValues xs ∧
          merge [some empty, some (fromValues xs)] = fromValues xs) ∧
      merge [] = empty ∧
      ∀ xss yss : List (List ℤ), xss.flatten.Perm yss.flatten →
        merge (xss.map fun xs => some (fromValues xs)) =
          merge (yss.map fun ys => some (fromValues ys)) := by
  have hpair : ∀ xs ys : List ℤ,
      merge [some (fromValues xs), some (fromValues ys)] = fromValues (xs ++ ys) := by
    intro xs ys
    simpa using merge_map_fromValues [xs, ys]
  refine ⟨merge_map_fromValues, ?assoc, ?comm, ?identity, rfl, ?distribution⟩
  case assoc =>
    intro xs ys zs
    rw [hpair, hpair, hpair, hpair, List.append_assoc]
  case comm =>
    intro xs ys
    rw [hpair, hpair]
    exact fromValues_perm List.perm_append_comm
  case identity =>
    intro xs
    have hright := hpair xs []
    have hleft := hpair [] xs
    rw [fromValues_nil] at hright hleft
    rw [List.append_nil] at hright
    exact ⟨hright, hleft⟩
  case distribution =>
    intro xss yss h
    rw [merge_map_fromValues, merge_map_fromValues, fromValues_perm h]

/-- Six samples of two runs, cut in another place and in another order. -/
theorem merge_pools_two_runs :
    merge [some (fromValues [5, 0, -1]), some (fromValues [70, 3, 5])] =
      merge [some (fromValues [3, 5]), some (fromValues []), some (fromValues [70, 5, -1, 0])] :=
  merge_pools.2.2.2.2.2 [[5, 0, -1], [70, 3, 5]] [[3, 5], [], [70, 5, -1, 0]] (by decide)

/-! ## The histogram of a cell -/

/-- `Cell._merged`, over the histograms of the runs; `none` is a run without one. -/
def merged (runs : List (Option Hist)) : Option Hist :=
  let hists := runs.filter Option.isSome
  if hists.isEmpty then none
  else
    let merged := merge hists
    if merged.count = 0 then none else some merged

theorem merge_filter_isSome (hists : List (Option Hist)) :
    merge (hists.filter Option.isSome) = merge hists := by
  unfold merge
  generalize Scan.init = s
  induction hists generalizing s with
  | nil => rfl
  | cons h hists ih =>
    cases h with
    | none => exact ih s
    | some h => exact ih (s.hist (some h))

/-- **A cell reports the histogram of all the samples of its runs**, where there are any. -/
theorem merged_map_fromValues (runs : List (List ℤ)) :
    merged (runs.map fun xs => some (fromValues xs)) =
      if runs.flatten.countP (0 ≤ ·) = 0 then none else some (fromValues runs.flatten) := by
  simp only [merged, merge_filter_isSome, merge_map_fromValues, count_fromValues]
  split
  · next hnone =>
    rw [List.isEmpty_iff, List.filter_eq_nil_iff] at hnone
    cases runs with
    | nil => rfl
    | cons xs runs => exact absurd rfl (hnone _ List.mem_cons_self)
  · rfl

end Bench.Histogram

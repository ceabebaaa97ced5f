import MqttBench.Bench.Buckets
import MqttBench.Bench.Merging

/-!
# Percentiles

`percentile` of `bench/histogram.py` against the samples themselves, in exact arithmetic.

* `percentile_eq` — the loop over the buckets finds the bucket of an **order statistic**.
* `abs_clamp_sub_le` — moving a value between bounds moves it no further from what lies
  between them.
* `percentile_accurate` — percentiles are **close to the order statistic, and ordered**.
-/

namespace Bench.Histogram

open Tally

/-! ## Clamping -/

/-- `min(max(mid, lo), hi)`. -/
def clamp (lo hi mid : ℚ) : ℚ := min (max mid lo) hi

theorem le_clamp {lo hi : ℚ} (h : lo ≤ hi) (mid : ℚ) : lo ≤ clamp lo hi mid :=
  le_min (le_max_right _ _) h

theorem clamp_le (lo hi mid : ℚ) : clamp lo hi mid ≤ hi := min_le_right _ _

theorem clamp_mono (lo hi : ℚ) : Monotone (clamp lo hi) := by
  intro mid mid' h
  exact min_le_min_right _ (max_le_max_right _ h)

theorem clamp_of_mem {lo hi x : ℚ} (hlo : lo ≤ x) (hhi : x ≤ hi) : clamp lo hi x = x := by
  rw [clamp, max_eq_left hlo, min_eq_left hhi]

/-- **Clamping moves nothing away from what lies between the bounds.** -/
theorem abs_clamp_sub_le {lo hi x : ℚ} (hlo : lo ≤ x) (hhi : x ≤ hi) (mid : ℚ) :
    |clamp lo hi mid - x| ≤ |mid - x| := by
  calc |clamp lo hi mid - x|
      = |min (max mid lo) hi - min (max x lo) hi| := by
        rw [← clamp, ← clamp, clamp_of_mem hlo hhi]
    _ ≤ max |max mid lo - max x lo| |hi - hi| := abs_min_sub_min_le_max _ _ _ _
    _ = |max mid lo - max x lo| := by rw [sub_self, abs_zero, max_eq_left (abs_nonneg _)]
    _ ≤ |mid - x| := abs_max_sub_max_le_abs _ _ _

/-! ## The loop -/

/-- The midpoint of a bucket. -/
def midpoint (index : ℕ) : ℚ := (low index + (low index + width index) - 1) / 2

theorem midpoint_mono : Monotone midpoint := by
  refine monotone_nat_of_le_succ fun index => ?_
  have hlow : (low (index + 1) : ℚ) = low index + width index := by exact_mod_cast low_succ index
  have hwidth : (1 : ℚ) ≤ width (index + 1) := by exact_mod_cast width_pos (index + 1)
  have hwidth' : (1 : ℚ) ≤ width index := by exact_mod_cast width_pos index
  rw [midpoint, midpoint, hlow]
  linarith

/-- What the loop returns once it has found its bucket. -/
def midValue (h : Hist) (index : ℕ) : ℚ := clamp h.minNs h.maxNs (midpoint index)

/-- **The loop looks for the place `⌈rank⌉` of the tally.** -/
theorem percentileLoop_eq (h : Hist) (rank : ℚ) (buckets : List (ℕ × ℕ)) (seen : ℕ) :
    percentileLoop h rank buckets seen =
      ((kth buckets (⌈rank⌉₊ - seen)).map (midValue h)).getD h.maxNs := by
  induction buckets generalizing seen with
  | nil => rfl
  | cons e buckets ih =>
    obtain ⟨i, c⟩ := e
    have hiff : rank ≤ (seen + c : ℕ) ↔ ⌈rank⌉₊ - seen ≤ c := by
      rw [← Nat.ceil_le]
      omega
    rw [percentileLoop, kth]
    by_cases hc : rank ≤ (seen + c : ℕ)
    · rw [if_pos hc, if_pos (hiff.1 hc), bucketBounds_eq]
      simp only [Option.map_some, Option.getD_some, midValue, midpoint, clamp, Nat.cast_add]
    · rw [if_neg hc, if_neg (mt hiff.2 hc), ih, Nat.sub_add_eq]

/-! ## The histogram of a list -/

theorem samples_natCast (values : List ℕ) :
    samples ((values.map (↑) : List ℤ) : Multiset ℤ) = (values : Multiset ℕ) := by
  have hfilter : (values.map ((↑) : ℕ → ℤ)).filter (0 ≤ ·) = values.map (↑) := by
    rw [List.filter_eq_self]
    intro v hv
    obtain ⟨n, -, rfl⟩ := List.mem_map.1 hv
    simp
  rw [samples, Multiset.filter_coe, hfilter, Multiset.map_coe, List.map_map]
  simp [Function.comp_def]

section Samples

variable (values : List ℕ)

/-- `from_values` of a list of non-negative integers. -/
def histOf : Hist := fromValues (values.map (↑))

theorem pools_histOf : (((values.map ((↑) : ℕ → ℤ)).foldl Scan.value Scan.init)).Pools
    (values.map ((↑) : ℕ → ℤ)) :=
  pools_fromValues _

theorem count_histOf : (histOf values).count = values.length := by
  have hcount := (pools_histOf values).count
  rw [samples_natCast] at hcount
  exact hcount

theorem isLeast_minNs (h0 : values ≠ []) : IsLeast {v | v ∈ values} (histOf values).minNs := by
  obtain ⟨v, hv⟩ := List.exists_mem_of_ne_nil _ h0
  have hleast : IsLeast {v | v ∈ values} (sInf {v | v ∈ values}) := isLeast_csInf ⟨v, hv⟩
  generalize sInf {v | v ∈ values} = m at hleast
  have hinf : ((values : Multiset ℕ).map ((↑) : ℕ → WithTop ℕ)).inf = m := by
    apply le_antisymm
    · exact Multiset.inf_le (Multiset.mem_map_of_mem _ hleast.1)
    · rw [Multiset.le_inf]
      intro w hw
      obtain ⟨n, hn, rfl⟩ := Multiset.mem_map.1 hw
      exact WithTop.coe_le_coe.2 (hleast.2 hn)
  have hlo := (pools_histOf values).lo
  rw [samples_natCast, hinf] at hlo
  suffices hmin : (histOf values).minNs = m by rwa [hmin]
  change ((values.map ((↑) : ℕ → ℤ)).foldl Scan.value Scan.init).lo.getD 0 = m
  cases hcase : ((values.map ((↑) : ℕ → ℤ)).foldl Scan.value Scan.init).lo with
  | none => simp [hcase] at hlo
  | some lo =>
    rw [hcase] at hlo
    exact WithTop.coe_injective hlo

theorem isGreatest_maxNs (h0 : values ≠ []) :
    IsGreatest {v | v ∈ values} (histOf values).maxNs := by
  have hhi : (histOf values).maxNs = (values : Multiset ℕ).sup := by
    rw [← samples_natCast values]
    exact (pools_histOf values).hi
  have hnonempty : values.toFinset.Nonempty := by
    obtain ⟨v, hv⟩ := List.exists_mem_of_ne_nil _ h0
    exact ⟨v, List.mem_toFinset.2 hv⟩
  have hgreatest := values.toFinset.isGreatest_max' hnonempty
  rw [List.coe_toFinset] at hgreatest
  suffices hsup : (values : Multiset ℕ).sup = values.toFinset.max' hnonempty by
    rw [hhi, hsup]
    exact hgreatest
  apply le_antisymm
  · rw [Multiset.sup_le]
    intro v hv
    exact hgreatest.2 hv
  · exact Multiset.le_sup hgreatest.1

/-- The samples in ascending order. -/
def ascending : List ℕ := values.mergeSort (· ≤ ·)

theorem length_ascending : (ascending values).length = values.length := List.length_mergeSort _

theorem pairwise_ascending : (ascending values).Pairwise (· ≤ ·) := by
  have h : (ascending values).Pairwise fun a b => decide (a ≤ b) = true :=
    List.pairwise_mergeSort (by simpa using fun a b c => le_trans) (by simpa using le_total) values
  simp only [decide_eq_true_eq] at h
  exact h

/-- **The buckets written out are the buckets of the samples in order.** -/
theorem expand_buckets : expand (histOf values).buckets = (ascending values).map bucketOf := by
  have hsorted : ((ascending values).map bucketOf).Pairwise (· ≤ ·) :=
    (pairwise_ascending values).map _ fun a b hab => bucketOf_mono hab
  refine IsTally.expand_eq hsorted ?_
  have htally := (pools_histOf values).isTally
  rw [samples_natCast] at htally
  have hcount : ∀ i, (Multiset.map bucketOf (values : Multiset ℕ)).count i =
      ((ascending values).map bucketOf).count i := by
    intro i
    rw [Multiset.map_coe, Multiset.coe_count]
    exact ((List.mergeSort_perm values _).map bucketOf).symm.count_eq i
  simp only [hcount] at htally
  exact htally

/-- **A percentile is the middle of the bucket of an order statistic**, clamped. -/
theorem percentile_eq {q : ℚ} (h0 : 0 < q) (h1 : q < 1) (hne : values ≠ []) :
    ∃ x, (ascending values)[⌈q * values.length⌉₊ - 1]? = some x ∧
      percentile (histOf values) q = some (midValue (histOf values) (bucketOf x)) := by
  have hlength : (0 : ℚ) < values.length := by
    exact_mod_cast List.length_pos_iff.2 hne
  have hpos : 0 < ⌈q * values.length⌉₊ := Nat.ceil_pos.2 (mul_pos h0 hlength)
  have hle : ⌈q * values.length⌉₊ ≤ values.length := by
    rw [Nat.ceil_le]
    exact mul_le_of_le_one_left hlength.le h1.le
  have hlt : ⌈q * values.length⌉₊ - 1 < (ascending values).length := by
    rw [length_ascending]
    omega
  refine ⟨_, List.getElem?_eq_getElem hlt, ?_⟩
  have hcount : (histOf values).count ≠ 0 := by
    rw [count_histOf]
    exact (List.length_pos_iff.2 hne).ne'
  rw [percentile, if_neg hcount, if_neg (not_le.2 h0), if_neg (not_le.2 h1), percentileLoop_eq,
    Nat.sub_zero, count_histOf, kth_eq _ hpos, expand_buckets, List.getElem?_map,
    List.getElem?_eq_getElem hlt]
  rfl

end Samples

/-! ## Accuracy -/

/-- `p` is a good estimate of the sample `x`: it is off by at most half a bucket, so by at
most a thirty-second, and not at all below 32. -/
structure Close (p : ℚ) (x : ℕ) : Prop where
  half_bucket : |p - x| ≤ width (bucketOf x) / 2
  relative : |p - x| ≤ x / 32
  exact_below : x < 32 → p = x

theorem abs_midpoint_sub_le (x : ℕ) :
    |midpoint (bucketOf x) - x| ≤ (width (bucketOf x) - 1) / 2 := by
  obtain ⟨hle, hlt⟩ := low_bucketOf x
  have hle : (low (bucketOf x) : ℚ) ≤ x := by exact_mod_cast hle
  have hlt : (x : ℚ) + 1 ≤ low (bucketOf x) + width (bucketOf x) := by exact_mod_cast hlt
  rw [abs_le, midpoint]
  constructor <;> linarith

/-- **The middle of a sample's bucket, clamped around the sample, is close to it.** -/
theorem close_midValue {h : Hist} {x : ℕ} (hmin : h.minNs ≤ x) (hmax : x ≤ h.maxNs) :
    Close (midValue h (bucketOf x)) x := by
  have hdist : |midValue h (bucketOf x) - x| ≤ (width (bucketOf x) - 1) / 2 :=
    (abs_clamp_sub_le (by exact_mod_cast hmin) (by exact_mod_cast hmax) _).trans
      (abs_midpoint_sub_le x)
  have hbelow : x < 32 → midValue h (bucketOf x) = x := by
    intro hx
    have hself : bucketOf x = x := if_pos hx
    rw [hself, width_of_lt hx] at hdist
    rw [← sub_eq_zero, ← abs_nonpos_iff, hself]
    simpa using hdist
  refine ⟨hdist.trans (by linarith), ?_, hbelow⟩
  rcases lt_or_ge x 32 with hx | hx
  · rw [hbelow hx, sub_self, abs_zero]
    positivity
  · have hwidth : (16 : ℚ) * width (bucketOf x) ≤ low (bucketOf x) := by
      exact_mod_cast width_le (le_bucketOf hx)
    have hlow : (low (bucketOf x) : ℚ) ≤ x := by exact_mod_cast (low_bucketOf x).1
    linarith

/-! ## The order of percentiles -/

section Order

variable {values : List ℕ} (hne : values ≠ [])
include hne

omit hne in
theorem mem_of_getElem?_ascending {k x : ℕ} (h : (ascending values)[k]? = some x) : x ∈ values :=
  (List.mergeSort_perm values _).mem_iff.1 (List.mem_of_getElem? h)

theorem percentile_of_nonpos {q : ℚ} (hq : q ≤ 0) :
    percentile (histOf values) q = some ((histOf values).minNs : ℚ) := by
  have hcount : (histOf values).count ≠ 0 := by
    rw [count_histOf]
    exact (List.length_pos_iff.2 hne).ne'
  rw [percentile, if_neg hcount, if_pos hq]

theorem percentile_of_one_le {q : ℚ} (hq : 1 ≤ q) :
    percentile (histOf values) q = some ((histOf values).maxNs : ℚ) := by
  have hcount : (histOf values).count ≠ 0 := by
    rw [count_histOf]
    exact (List.length_pos_iff.2 hne).ne'
  rw [percentile, if_neg hcount, if_neg (by linarith), if_pos hq]

theorem minNs_le_maxNs : ((histOf values).minNs : ℚ) ≤ (histOf values).maxNs := by
  exact_mod_cast (isGreatest_maxNs values hne).2 (isLeast_minNs values hne).1

/-- A percentile lies between the minimum and the maximum. -/
theorem percentile_mem (q : ℚ) : ∃ p, percentile (histOf values) q = some p ∧
    (histOf values).minNs ≤ p ∧ p ≤ (histOf values).maxNs := by
  have hrange := minNs_le_maxNs hne
  rcases le_or_gt q 0 with h0 | h0
  · exact ⟨_, percentile_of_nonpos hne h0, le_rfl, hrange⟩
  rcases le_or_gt 1 q with h1 | h1
  · exact ⟨_, percentile_of_one_le hne h1, hrange, le_rfl⟩
  · obtain ⟨x, -, hx⟩ := percentile_eq values h0 h1 hne
    exact ⟨_, hx, le_clamp hrange _, clamp_le _ _ _⟩

/-- **A larger quantile gives no smaller percentile**: between the ends it is the middle of
the bucket of a later sample. -/
theorem percentile_mono {q q' : ℚ} (h : q ≤ q') :
    ∃ p p', percentile (histOf values) q = some p ∧ percentile (histOf values) q' = some p' ∧
      p ≤ p' := by
  obtain ⟨p, hp, hmin, hmax⟩ := percentile_mem hne q
  obtain ⟨p', hp', hmin', hmax'⟩ := percentile_mem hne q'
  refine ⟨p, p', hp, hp', ?_⟩
  rcases le_or_gt q 0 with h0 | h0
  · rw [percentile_of_nonpos hne h0, Option.some.injEq] at hp
    rwa [← hp]
  rcases le_or_gt 1 q' with h1 | h1
  · rw [percentile_of_one_le hne h1, Option.some.injEq] at hp'
    rwa [← hp']
  obtain ⟨x, hx, hpx⟩ := percentile_eq values h0 (h.trans_lt h1) hne
  obtain ⟨x', hx', hpx'⟩ := percentile_eq values (h0.trans_le h) h1 hne
  rw [hp, Option.some.injEq] at hpx
  rw [hp', Option.some.injEq] at hpx'
  have hrank : ⌈q * values.length⌉₊ - 1 ≤ ⌈q' * values.length⌉₊ - 1 :=
    Nat.sub_le_sub_right (Nat.ceil_mono (mul_le_mul_of_nonneg_right h (by positivity))) 1
  have hxx' : x ≤ x' := by
    obtain ⟨hk, rfl⟩ := List.getElem?_eq_some_iff.1 hx
    obtain ⟨hk', rfl⟩ := List.getElem?_eq_some_iff.1 hx'
    exact (pairwise_ascending values).rel_get_of_le (a := ⟨_, hk⟩) (b := ⟨_, hk'⟩) hrank
  rw [hpx, hpx']
  exact clamp_mono _ _ (midpoint_mono (bucketOf_mono hxx'))

end Order

theorem isLeast_ceil {a : ℚ} (h : 0 ≤ a) : IsLeast {j : ℤ | a ≤ j} (⌈a⌉₊ : ℕ) := by
  rw [Int.natCast_ceil_eq_ceil h]
  exact ⟨Int.le_ceil a, fun j hj => Int.ceil_le.2 hj⟩

/-- **Percentiles are accurate and ordered.** -/
theorem percentile_accurate (values : List ℕ) (hne : values ≠ []) :
    ∃ lo hi : ℕ, IsLeast {v | v ∈ values} lo ∧ IsGreatest {v | v ∈ values} hi ∧
      (∀ q : ℚ, 0 < q → q < 1 → ∃ (p : ℚ) (k x : ℕ),
        percentile (fromValues (values.map (↑))) q = some p ∧
        IsLeast {j : ℤ | q * values.length ≤ j} k ∧ 1 ≤ k ∧
        (values.mergeSort (· ≤ ·))[k - 1]? = some x ∧
        lo ≤ p ∧ p ≤ hi ∧
        |p - x| ≤ (((bucketBounds (bucketOf x)).2 : ℚ) - (bucketBounds (bucketOf x)).1) / 2 ∧
        |p - x| ≤ x / 32 ∧ (x < 32 → p = x)) ∧
      (∀ q : ℚ, q ≤ 0 → percentile (fromValues (values.map (↑))) q = some (lo : ℚ)) ∧
      (∀ q : ℚ, 1 ≤ q → percentile (fromValues (values.map (↑))) q = some (hi : ℚ)) ∧
      (∀ q q' : ℚ, q ≤ q' → ∃ p p' : ℚ,
        percentile (fromValues (values.map (↑))) q = some p ∧
        percentile (fromValues (values.map (↑))) q' = some p' ∧ p ≤ p') ∧
      ∃ p50 p90 p99 p999 : ℚ,
        percentile (fromValues (values.map (↑))) (1 / 2) = some p50 ∧
        percentile (fromValues (values.map (↑))) (9 / 10) = some p90 ∧
        percentile (fromValues (values.map (↑))) (99 / 100) = some p99 ∧
        percentile (fromValues (values.map (↑))) (999 / 1000) = some p999 ∧
        p50 ≤ p90 ∧ p90 ≤ p99 ∧ p99 ≤ p999 ∧ p999 ≤ hi := by
  have hleast := isLeast_minNs values hne
  have hgreatest := isGreatest_maxNs values hne
  refine ⟨(histOf values).minNs, (histOf values).maxNs, hleast, hgreatest, ?between, ?low, ?high,
    ?mono, ?named⟩
  case between =>
    intro q h0 h1
    obtain ⟨x, hx, hp⟩ := percentile_eq values h0 h1 hne
    have hmem := mem_of_getElem?_ascending hx
    have hclose := close_midValue (hleast.2 hmem) (hgreatest.2 hmem)
    have hrange := minNs_le_maxNs hne
    have hlength : (0 : ℚ) < values.length := by
      exact_mod_cast List.length_pos_iff.2 hne
    have hrank : 0 < q * values.length := mul_pos h0 hlength
    refine ⟨_, ⌈q * values.length⌉₊, x, hp, isLeast_ceil hrank.le, Nat.ceil_pos.2 hrank, hx,
      le_clamp hrange _, clamp_le _ _ _, ?_, hclose.relative, hclose.exact_below⟩
    rw [bucketBounds_eq]
    simpa using hclose.half_bucket
  case low => exact fun q hq => percentile_of_nonpos hne hq
  case high => exact fun q hq => percentile_of_one_le hne hq
  case mono => exact fun q q' h => percentile_mono hne h
  case named =>
    obtain ⟨p50, p90, h50, h90, hle⟩ := percentile_mono hne (show (1 / 2 : ℚ) ≤ 9 / 10 by norm_num)
    obtain ⟨p90', p99, h90', h99, hle'⟩ :=
      percentile_mono hne (show (9 / 10 : ℚ) ≤ 99 / 100 by norm_num)
    obtain ⟨p99', p999, h99', h999, hle''⟩ :=
      percentile_mono hne (show (99 / 100 : ℚ) ≤ 999 / 1000 by norm_num)
    obtain ⟨p999', h999', -, hmax⟩ := percentile_mem hne (999 / 1000)
    obtain rfl : p90 = p90' := by rw [h90, Option.some.injEq] at h90'; exact h90'
    obtain rfl : p99 = p99' := by rw [h99, Option.some.injEq] at h99'; exact h99'
    obtain rfl : p999 = p999' := by rw [h999, Option.some.injEq] at h999'; exact h999'
    exact ⟨p50, p90, p99, p999, h50, h90, h99, h999, hle, hle', hle'', hmax⟩

/-- Of three samples, the median is not above the ninth decile. -/
theorem percentile_accurate_three : ∃ p p' : ℚ,
    percentile (fromValues [3, 70, 1]) (1 / 2) = some p ∧
      percentile (fromValues [3, 70, 1]) (9 / 10) = some p' ∧ p ≤ p' := by
  obtain ⟨lo, hi, -, -, -, -, -, hmono, -⟩ := percentile_accurate [3, 70, 1] (by decide)
  exact hmono (1 / 2) (9 / 10) (by norm_num)

end Bench.Histogram

import MqttBench.Lib.Tally

/-!
# Latency histograms

`bench/histogram.py`: values below 32 ns are their own bucket, above that each power
of two is split into 16 equal buckets.  Counts and sums are Python integers, so they
are natural numbers here; the bucket map is an insertion-ordered table.

* `bucketOf_lt` — a value below `2 ^ 64` falls into one of `nBuckets` buckets.
* `Scan.WellFormed` — the bucket map of a scan has distinct keys and no zero entries.
* `Scan.isTally_result` — the bucket list is the tally of the samples.
-/

namespace Bench.Histogram

open Tally

/-- `SUB_BUCKETS`. -/
def subBuckets : ℕ := 16

/-- `N_BUCKETS`. -/
def nBuckets : ℕ := 976

/-! ## The indexing -/

/-- `value.bit_length()`. -/
def bitLength (value : ℕ) : ℕ := if value = 0 then 0 else Nat.log2 value + 1

/-- `bucket_of(value)`. -/
def bucketOf (value : ℕ) : ℕ :=
  if value < 32 then value
  else
    let e := bitLength value - 1
    (e - 3) * subBuckets + ((value >>> (e - 4)) &&& (subBuckets - 1))

/-- `bucket_bounds(index)`. -/
def bucketBounds (index : ℕ) : ℕ × ℕ :=
  if index < 32 then (index, index + 1)
  else
    let e := index / subBuckets + 3
    let sub := index % subBuckets
    let width := 1 <<< (e - 4)
    let low := (subBuckets + sub) <<< (e - 4)
    (low, low + width)

theorem bitLength_sub_one {value : ℕ} (h : value ≠ 0) : bitLength value - 1 = Nat.log2 value := by
  rw [bitLength, if_neg h, Nat.add_sub_cancel]

theorem and_15 (n : ℕ) : n &&& 15 = n % 16 := Nat.and_two_pow_sub_one_eq_mod n 4

/-- Above 32 the index is the exponent's row and the four bits below the leading one. -/
theorem bucketOf_of_le {value : ℕ} (h : 32 ≤ value) :
    bucketOf value
      = (Nat.log2 value - 3) * 16 + value / 2 ^ (Nat.log2 value - 4) % 16 := by
  rw [bucketOf, if_neg (not_lt.2 h), bitLength_sub_one (by omega), subBuckets]
  simp only [Nat.shiftRight_eq_div_pow]
  exact congrArg _ (and_15 _)

theorem log2_lt {value n : ℕ} (h : value ≠ 0) (hv : value < 2 ^ n) : Nat.log2 value < n :=
  (Nat.log2_lt h).2 hv

/-- **A 64-bit value has a bucket.** -/
theorem bucketOf_lt {value : ℕ} (h : value < 2 ^ 64) : bucketOf value < nBuckets := by
  rcases lt_or_ge value 32 with hv | hv
  · rw [bucketOf, if_pos hv, nBuckets]
    omega
  · have hlog := log2_lt (n := 64) (by omega) h
    rw [bucketOf_of_le hv, nBuckets]
    omega

/-! ## Histograms -/

/-- The dictionary a histogram is. -/
structure Hist where
  count : ℕ
  minNs : ℕ
  maxNs : ℕ
  sumNs : ℕ
  negative : ℕ
  buckets : List (ℕ × ℕ)
  deriving DecidableEq

/-- `empty()`. -/
def empty : Hist := ⟨0, 0, 0, 0, 0, []⟩

/-- The local variables of `from_values` and `merge`. -/
structure Scan where
  buckets : List (ℕ × ℕ)
  count : ℕ
  total : ℕ
  negative : ℕ
  lo : Option ℕ
  hi : ℕ

/-- Their initial values. -/
def Scan.init : Scan := ⟨[], 0, 0, 0, none, 0⟩

/-- The dictionary that `from_values` and `merge` return. -/
def Scan.result (s : Scan) : Hist where
  count := s.count
  minNs := s.lo.getD 0
  maxNs := s.hi
  sumNs := s.total
  negative := s.negative
  buckets := sorted s.buckets

/-- One round of the loop of `from_values`. -/
def Scan.value (s : Scan) (v : ℤ) : Scan :=
  if v < 0 then { s with negative := s.negative + 1 }
  else
    let v := v.toNat
    { buckets := add s.buckets (bucketOf v) 1
      count := s.count + 1
      total := s.total + v
      negative := s.negative
      lo := match s.lo with
        | none => some v
        | some lo => if v < lo then some v else some lo
      hi := if s.hi < v then v else s.hi }

/-- `from_values(values)`. -/
def fromValues (values : List ℤ) : Hist := (values.foldl Scan.value Scan.init).result

/-- One round of the loop of `merge`; `none` is a histogram that is missing. -/
def Scan.hist (s : Scan) : Option Hist → Scan
  | none => s
  | some h =>
    if h.count = 0 then { s with negative := s.negative + h.negative }
    else
      { buckets := h.buckets.foldl (fun d e => add d e.1 e.2) s.buckets
        count := s.count + h.count
        total := s.total + h.sumNs
        negative := s.negative + h.negative
        lo := match s.lo with
          | none => some h.minNs
          | some lo => some (min lo h.minNs)
        hi := max s.hi h.maxNs }

/-- `merge(histograms)`. -/
def merge (histograms : List (Option Hist)) : Hist :=
  (histograms.foldl Scan.hist Scan.init).result

/-! ## Percentiles -/

/-- The loop of `percentile` over the buckets. -/
def percentileLoop (h : Hist) (rank : ℚ) : List (ℕ × ℕ) → ℕ → ℚ
  | [], _ => h.maxNs
  | (i, c) :: buckets, seen =>
    if rank ≤ (seen + c : ℕ) then
      let (low, high) := bucketBounds i
      min (max ((low + high - 1 : ℚ) / 2) h.minNs) h.maxNs
    else percentileLoop h rank buckets (seen + c)

/-- `percentile(h, q)`, exact over the rationals. -/
def percentile (h : Hist) (q : ℚ) : Option ℚ :=
  if h.count = 0 then none
  else if q ≤ 0 then some h.minNs
  else if 1 ≤ q then some h.maxNs
  else some (percentileLoop h (q * h.count) h.buckets 0)

/-- `summary(h)`: the percentiles and the mean, in microseconds. -/
def summary (h : Hist) : List (String × ℚ) :=
  if h.count = 0 then [("count", 0)]
  else
    [("count", (h.count : ℚ)), ("mean_us", h.sumNs / h.count / 1000)]
      ++ ([("p50_us", (1 / 2 : ℚ)), ("p90_us", 9 / 10), ("p99_us", 99 / 100),
        ("p999_us", 999 / 1000)].filterMap fun e =>
          (percentile h e.2).map fun v => (e.1, v / 1000))
      ++ [("min_us", (h.minNs : ℚ) / 1000), ("max_us", (h.maxNs : ℚ) / 1000)]
      ++ if h.negative = 0 then [] else [("negative", (h.negative : ℚ))]

/-! ## What a scan adds up -/

theorem Scan.count_foldl_value (s : Scan) (values : List ℤ) :
    (values.foldl Scan.value s).count = s.count + values.countP (0 ≤ ·) := by
  induction values generalizing s with
  | nil => simp
  | cons v values ih =>
    rw [List.foldl_cons, ih, List.countP_cons, Scan.value]
    by_cases hv : v < 0
    · simp [hv]
    · simp [hv, not_lt.1 hv]
      omega

theorem count_fromValues (values : List ℤ) :
    (fromValues values).count = values.countP (0 ≤ ·) := by
  rw [fromValues, Scan.result, Scan.count_foldl_value]
  exact Nat.zero_add _

theorem Scan.negative_foldl_value (s : Scan) (values : List ℤ) :
    (values.foldl Scan.value s).negative = s.negative + values.countP (· < 0) := by
  induction values generalizing s with
  | nil => simp
  | cons v values ih =>
    rw [List.foldl_cons, ih, List.countP_cons, Scan.value]
    by_cases hv : v < 0
    · simp [hv]
      omega
    · simp [hv]

theorem Scan.total_foldl_value (s : Scan) (values : List ℤ) :
    ((values.foldl Scan.value s).total : ℤ) = s.total + (values.filter (0 ≤ ·)).sum := by
  induction values generalizing s with
  | nil => simp
  | cons v values ih =>
    rw [List.foldl_cons, ih, List.filter_cons, Scan.value]
    by_cases hv : v < 0
    · simp [hv, not_le.2 hv]
    · have hnonneg : 0 ≤ v := not_lt.1 hv
      simp [hv, hnonneg]
      ring

/-! ## The bucket list of a scan -/

/-- The bucket map of a scan has distinct keys and no zero entries. -/
structure Scan.Distinct (s : Scan) : Prop where
  keys : (s.buckets.map Prod.fst).Nodup
  positive : Positive s.buckets

theorem Scan.distinct_init : Scan.init.Distinct where
  keys := List.nodup_nil
  positive _ he := absurd he List.not_mem_nil

theorem Scan.Distinct.value {s : Scan} (h : s.Distinct) (v : ℤ) : (s.value v).Distinct := by
  rw [Scan.value]
  split
  · exact ⟨h.keys, h.positive⟩
  · exact ⟨nodup_keys_add h.keys _ _, positive_add h.positive _ one_ne_zero⟩

/-- **The bucket list is the tally of the bucket map.** -/
theorem Scan.Distinct.isTally_result {s : Scan} (h : s.Distinct) :
    IsTally (get s.buckets) s.result.buckets :=
  isTally_sorted h.keys h.positive

/-- No bucket holds more than the count, and there is a minimum once something was counted. -/
structure Scan.WellFormed (s : Scan) : Prop extends s.Distinct where
  get_le_count : ∀ i, get s.buckets i ≤ s.count
  lo_eq_none_iff : s.lo = none ↔ s.count = 0

theorem Scan.wellFormed_init : Scan.init.WellFormed where
  toDistinct := distinct_init
  get_le_count _ := le_refl _
  lo_eq_none_iff := ⟨fun _ => rfl, fun _ => rfl⟩

theorem Scan.WellFormed.value {s : Scan} (h : s.WellFormed) (v : ℤ) : (s.value v).WellFormed := by
  refine ⟨h.toDistinct.value v, ?_, ?_⟩ <;> rw [Scan.value] <;> split
  · exact h.get_le_count
  · intro i
    have hi := h.get_le_count i
    rw [get_add]
    split <;> simp only <;> omega
  · exact h.lo_eq_none_iff
  · refine ⟨fun hlo => ?_, fun h0 => absurd h0 (Nat.succ_ne_zero _)⟩
    cases hs : s.lo with
    | none => simp [hs] at hlo
    | some lo =>
      simp only [hs] at hlo
      split at hlo <;> cases hlo

theorem Scan.WellFormed.foldl_value {s : Scan} (h : s.WellFormed) (values : List ℤ) :
    (values.foldl Scan.value s).WellFormed := by
  induction values generalizing s with
  | nil => exact h
  | cons v values ih => exact ih (h.value v)

end Bench.Histogram

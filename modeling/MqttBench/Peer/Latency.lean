import MqttBench.Bench.Histogram

/-!
# The peer's latency histogram

`bucket_of`, `lat_record` and the latency object of `print_result` in `mqtt_peer.c`:
64-bit words that wrap, a leading-zero count, a dense array, and a minimum that starts
at the largest word.

* `bucketOf_eq` — the index is the one `histogram.bucket_of` computes.
* `Agrees` — the words hold what the Python scan holds, modulo `2 ^ 64`; every
  `lat_record` keeps it (`Agrees.record`).
* `latency_eq_fromValues` — **the peer prints `histogram.from_values` of the exact
  differences**, as long as no counter wraps.
-/

namespace Peer

open Bench Bench.Histogram Tally

/-- `HBUCKETS`. -/
def hbuckets : ℕ := 976

/-! ## The indexing -/

/-- `63 - __builtin_clzll(v)`. -/
def exponent (v : UInt64) : ℕ := 63 - (BitVec.clz v.toBitVec).toNat

/-- `bucket_of(v)`. -/
def bucketOf (v : UInt64) : ℕ :=
  if v < 32 then v.toNat
  else (exponent v - 3) * 16 + ((v >>> UInt64.ofNat (exponent v - 4)) &&& 15).toNat

theorem exponent_eq_log2 {v : UInt64} (h : v.toNat ≠ 0) : exponent v = Nat.log2 v.toNat := by
  have hne : v.toBitVec ≠ 0#64 := fun h0 => h (by
    rw [← UInt64.toNat_toBitVec, h0]
    rfl)
  have hle := BitVec.two_pow_sub_clz_le_toNat_of_ne_zero (x := v.toBitVec) (by decide) hne
  have hlt := BitVec.toNat_lt_two_pow_sub_clz (x := v.toBitVec)
  have hclz : (BitVec.clz v.toBitVec).toNat < 64 := by
    have := BitVec.clz_lt_iff_ne_zero.2 hne
    simpa [BitVec.lt_def] using this
  rw [UInt64.toNat_toBitVec] at hle hlt
  rw [exponent, eq_comm, Nat.log2_eq_iff h]
  refine ⟨?_, ?_⟩
  · rwa [show 63 - (BitVec.clz v.toBitVec).toNat = 64 - 1 - (BitVec.clz v.toBitVec).toNat from rfl]
  · rwa [show 63 - (BitVec.clz v.toBitVec).toNat + 1 = 64 - (BitVec.clz v.toBitVec).toNat by omega]

/-- **Both programs use the same bucket.** -/
theorem bucketOf_eq (v : UInt64) : bucketOf v = Histogram.bucketOf v.toNat := by
  have h32 : v < 32 ↔ v.toNat < 32 := UInt64.lt_iff_toNat_lt
  rcases lt_or_ge v.toNat 32 with hv | hv
  · rw [bucketOf, if_pos (h32.2 hv), Histogram.bucketOf, if_pos hv]
  · have hlog : Nat.log2 v.toNat < 64 := log2_lt (by omega) v.toNat_lt
    have hexp := exponent_eq_log2 (v := v) (by omega)
    have hshift : (UInt64.ofNat (exponent v - 4)).toNat % 64 = Nat.log2 v.toNat - 4 := by
      rw [UInt64.toNat_ofNat', hexp]
      omega
    rw [bucketOf, if_neg (fun h => absurd (h32.1 h) (not_lt.2 hv)), bucketOf_of_le hv,
      UInt64.toNat_and, UInt64.toNat_shiftRight, hshift, hexp, Nat.shiftRight_eq_div_pow]
    exact congrArg _ (and_15 _)

/-- No record writes outside the array. -/
theorem bucketOf_lt (v : UInt64) : bucketOf v < hbuckets := by
  rw [bucketOf_eq]
  exact Histogram.bucketOf_lt v.toNat_lt

/-! ## Recording -/

/-- `struct latency`. -/
structure Latency where
  buckets : Vector UInt64 hbuckets
  count : UInt64
  min : UInt64
  max : UInt64
  sum : UInt64
  negative : UInt64

/-- `{.min = UINT64_MAX}`. -/
def Latency.init : Latency where
  buckets := Vector.replicate hbuckets 0
  count := 0
  min := UInt64.ofNat (2 ^ 64 - 1)
  max := 0
  sum := 0
  negative := 0

/-- `lat_record(stamp, now)`. -/
def latRecord (lat : Latency) (stamp now : UInt64) : Latency :=
  if now < stamp then { lat with negative := lat.negative + 1 }
  else
    let v := now - stamp
    have hv := bucketOf_lt v
    { buckets := lat.buckets.set (bucketOf v) (lat.buckets[bucketOf v] + 1)
      count := lat.count + 1
      sum := lat.sum + v
      min := if v < lat.min then v else lat.min
      max := if lat.max < v then v else lat.max
      negative := lat.negative }

/-- The latency object of `print_result`. -/
def Latency.print (lat : Latency) : Hist where
  count := lat.count.toNat
  minNs := if lat.count = 0 then 0 else lat.min.toNat
  maxNs := lat.max.toNat
  sumNs := lat.sum.toNat
  negative := lat.negative.toNat
  buckets := dense hbuckets fun i => (lat.buckets[i]?.getD 0).toNat

/-- What the peer prints after it has recorded a list of (stamp, arrival) pairs. -/
def latency (pairs : List (UInt64 × UInt64)) : Hist :=
  (pairs.foldl (fun lat p => latRecord lat p.1 p.2) Latency.init).print

/-- The exact difference `arrival - stamp`. -/
def difference (p : UInt64 × UInt64) : ℤ := (p.2.toNat : ℤ) - p.1.toNat

/-! ## The words hold the Python scan -/

/-- The peer's words hold what a scan of the exact differences holds: the counters and
the sum modulo `2 ^ 64`, the two extremes exactly. -/
structure Agrees (lat : Latency) (s : Scan) : Prop where
  buckets : ∀ i (h : i < hbuckets), lat.buckets[i] = UInt64.ofNat (get s.buckets i)
  beyond : ∀ i, hbuckets ≤ i → get s.buckets i = 0
  count : lat.count = UInt64.ofNat s.count
  sum : lat.sum = UInt64.ofNat s.total
  negative : lat.negative = UInt64.ofNat s.negative
  min : lat.min.toNat = s.lo.getD (2 ^ 64 - 1)
  max : lat.max.toNat = s.hi

theorem agrees_init : Agrees Latency.init Scan.init where
  buckets _ h := Vector.getElem_replicate h
  beyond _ _ := rfl
  count := rfl
  sum := rfl
  negative := rfl
  min := rfl
  max := rfl

/-- A non-negative difference is the difference of the words. -/
theorem difference_of_le {p : UInt64 × UInt64} (h : ¬ p.2 < p.1) :
    difference p = (p.2 - p.1).toNat := by
  have hle : p.1 ≤ p.2 := UInt64.not_lt.1 h
  have hnat : p.1.toNat ≤ p.2.toNat := UInt64.le_iff_toNat_le.1 hle
  rw [difference, UInt64.toNat_sub_of_le _ _ hle]
  omega

theorem difference_neg_iff (p : UInt64 × UInt64) : difference p < 0 ↔ p.2 < p.1 := by
  rw [difference, UInt64.lt_iff_toNat_lt]
  omega

/-- **Every `lat_record` is a round of `from_values`.** -/
theorem Agrees.record {lat : Latency} {s : Scan} (h : Agrees lat s) (p : UInt64 × UInt64) :
    Agrees (latRecord lat p.1 p.2) (s.value (difference p)) := by
  by_cases hp : p.2 < p.1
  · rw [latRecord, if_pos hp, Scan.value, if_pos ((difference_neg_iff p).2 hp)]
    exact { h with negative := by rw [h.negative, UInt64.ofNat_add]; rfl }
  · rw [latRecord, if_neg hp, Scan.value, if_neg (by rwa [difference_neg_iff]),
      difference_of_le hp]
    simp only [Int.toNat_natCast]
    obtain ⟨v, hv⟩ : ∃ v, v = p.2 - p.1 := ⟨_, rfl⟩
    rw [← hv]
    have hlt := v.toNat_lt
    refine
      { buckets := fun i hi => ?_
        beyond := fun i hi => ?_
        count := by rw [h.count, UInt64.ofNat_add]; rfl
        sum := by rw [h.sum, UInt64.ofNat_add, UInt64.ofNat_toNat]
        negative := h.negative
        min := ?_
        max := ?_ }
    · rw [Vector.getElem_set, get_add, ← bucketOf_eq]
      split
      · next heq => subst heq; rw [h.buckets _ hi, UInt64.ofNat_add]; rfl
      · exact h.buckets i hi
    · have hb := bucketOf_lt v
      rw [get_add, ← bucketOf_eq, if_neg (by omega)]
      exact h.beyond i hi
    · have hmin := h.min
      cases hlo : s.lo with
      | none =>
        rw [hlo, Option.getD_none] at hmin
        simp only [Option.getD_some]
        split
        · rfl
        · next hge =>
          rw [UInt64.lt_iff_toNat_lt] at hge
          omega
      | some lo =>
        rw [hlo, Option.getD_some] at hmin
        simp only [UInt64.lt_iff_toNat_lt, hmin]
        split
        · rfl
        · exact hmin
    · simp only [UInt64.lt_iff_toNat_lt, h.max]
      split
      · rfl
      · exact h.max

/-- **A whole run of records is a whole run of `from_values`.** -/
theorem agrees_foldl {lat : Latency} {s : Scan} (h : Agrees lat s)
    (pairs : List (UInt64 × UInt64)) :
    Agrees (pairs.foldl (fun lat p => latRecord lat p.1 p.2) lat)
      ((pairs.map difference).foldl Scan.value s) := by
  induction pairs generalizing lat s with
  | nil => exact h
  | cons p pairs ih => exact ih (h.record p)

/-- While no counter wraps, the words print what the scan returns. -/
theorem Agrees.print {lat : Latency} {s : Scan} (h : Agrees lat s) (hs : s.WellFormed)
    (hsum : s.total < 2 ^ 64) (hcount : s.count < 2 ^ 64) (hneg : s.negative < 2 ^ 64) :
    lat.print = s.result := by
  have hget : ∀ i, (lat.buckets[i]?.getD 0).toNat = get s.buckets i := by
    intro i
    rcases lt_or_ge i hbuckets with hi | hi
    · have hle := hs.get_le_count i
      rw [Vector.getElem?_eq_getElem hi, Option.getD_some, h.buckets i hi,
        UInt64.toNat_ofNat_of_lt' (hle.trans_lt hcount)]
    · rw [Vector.getElem?_eq_none hi, Option.getD_none, h.beyond i hi]
      rfl
  have hzero : lat.count = 0 ↔ s.count = 0 := by
    rw [h.count, ← UInt64.toNat_inj, UInt64.toNat_ofNat_of_lt' hcount]
    rfl
  have hmin : (if lat.count = 0 then 0 else lat.min.toNat) = s.lo.getD 0 := by
    rw [h.min]
    by_cases h0 : s.count = 0
    · rw [if_pos (hzero.2 h0), hs.lo_eq_none_iff.2 h0, Option.getD_none]
    · obtain ⟨lo, hlo⟩ := Option.ne_none_iff_exists'.1 (mt hs.lo_eq_none_iff.1 h0)
      rw [if_neg (mt hzero.1 h0), hlo, Option.getD_some, Option.getD_some]
  have hbuckets : dense hbuckets (fun i => (lat.buckets[i]?.getD 0).toNat) = s.result.buckets := by
    simp only [hget]
    exact (isTally_dense h.beyond).unique hs.isTally_result
  rw [Latency.print, hmin, hbuckets, h.count, h.sum, h.negative, h.max,
    UInt64.toNat_ofNat_of_lt' hcount, UInt64.toNat_ofNat_of_lt' hsum,
    UInt64.toNat_ofNat_of_lt' hneg]
  rfl

/-! ## The two histograms -/

/-- **The peer and `histogram.py` build the same histogram.**  The printed latency
object is `from_values` of the exact differences whenever the non-negative ones sum
below `2 ^ 64` and neither kind is so numerous that its counter wraps; and the two
bucket functions agree on every word, inside the array. -/
theorem latency_eq_fromValues (pairs : List (UInt64 × UInt64))
    (hsum : ((pairs.map difference).filter (0 ≤ ·)).sum < 2 ^ 64)
    (hcount : (pairs.map difference).countP (0 ≤ ·) < 2 ^ 64)
    (hneg : (pairs.map difference).countP (· < 0) < 2 ^ 64) :
    latency pairs = fromValues (pairs.map difference) ∧
      (∀ v : UInt64, bucketOf v = Histogram.bucketOf v.toNat ∧ bucketOf v < hbuckets) ∧
      hbuckets = nBuckets := by
  have hagree := agrees_foldl agrees_init pairs
  have hwf := Scan.wellFormed_init.foldl_value (pairs.map difference)
  have htotal := Scan.total_foldl_value Scan.init (pairs.map difference)
  have hc := Scan.count_foldl_value Scan.init (pairs.map difference)
  have hn := Scan.negative_foldl_value Scan.init (pairs.map difference)
  refine ⟨hagree.print hwf ?_ ?_ ?_, fun v => ⟨bucketOf_eq v, bucketOf_lt v⟩, rfl⟩
  · simp only [Scan.init, Nat.cast_zero, zero_add] at htotal ⊢
    omega
  · rwa [hc, Scan.init, zero_add]
  · rwa [hn, Scan.init, zero_add]

/-- Three samples, one of them negative. -/
theorem latency_eq_fromValues_example :
    latency [(5, 5), (10, 1010), (9, 3)] = fromValues [0, 1000, -6] :=
  (latency_eq_fromValues [(5, 5), (10, 1010), (9, 3)] (by decide) (by decide) (by decide)).1

/-- What the peer counts is the number of samples modulo `2 ^ 64`. -/
theorem count_latency (pairs : List (UInt64 × UInt64)) :
    (latency pairs).count = (fromValues (pairs.map difference)).count % 2 ^ 64 := by
  have hagree := agrees_foldl agrees_init pairs
  rw [latency, Latency.print, hagree.count, UInt64.toNat_ofNat']
  rfl

theorem map_difference_replicate (n : ℕ) :
    (List.replicate n ((0 : UInt64), (0 : UInt64))).map difference = List.replicate n 0 := by
  rw [List.map_replicate]
  rfl

theorem sum_zero_differences (n : ℕ) :
    (((List.replicate n ((0 : UInt64), (0 : UInt64))).map difference).filter (0 ≤ ·)).sum = 0 := by
  rw [map_difference_replicate, List.filter_replicate_of_pos (by decide), List.sum_replicate,
    smul_zero]

theorem count_zero_differences (n : ℕ) :
    (fromValues ((List.replicate n ((0 : UInt64), (0 : UInt64))).map difference)).count = n := by
  rw [map_difference_replicate, count_fromValues, List.countP_replicate]
  rfl

/-- The counters are 64-bit words: `2 ^ 64` zero differences sum to zero, and the peer
prints a histogram without samples. -/
theorem latency_ne_fromValues_of_wrap :
    ((((List.replicate (2 ^ 64) (0, 0)).map difference).filter (0 ≤ ·)).sum < 2 ^ 64) ∧
      latency (List.replicate (2 ^ 64) (0, 0))
        ≠ fromValues ((List.replicate (2 ^ 64) (0, 0)).map difference) := by
  refine ⟨by rw [sum_zero_differences]; norm_num, fun heq => ?_⟩
  have hcount := count_latency (List.replicate (2 ^ 64) (0, 0))
  rw [heq, count_zero_differences] at hcount
  norm_num at hcount

end Peer

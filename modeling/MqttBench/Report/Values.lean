import MqttBench.Bench.Percentile
import MqttBench.Bench.RunOnce
import MqttBench.Lib.Median
import MqttBench.Report.Cells

/-!
# The values of a cell

`Cell` of `report/data.py` over runs as `run_once` returns them: its state, its metrics, and what
qualifies them.

* `Cell.state`, `Cell.median`, `Cell.value`, `Cell.flags`, `Cell.bounded` — the program.
* `Counted` — the records that a value may rest on.
* `merged_samples`, `percentile_naturals` — a merged histogram has the samples of all its runs, of
  which the negative ones do not count.
* `cell_values` — **a cell shows the medians and the percentiles of what its valid final runs
  measured.**
-/

namespace Report.Files

open Bench (Finished Status)
open Bench.Checks (Metric)
open PyData (FloatText)
open Bench.Histogram Grouping Medians

/-! ## The program -/

/-- A run as `run_once` returned it. -/
abbrev Run := RunDoc Finished

namespace RunDoc

/-- `r["metrics"].get(key)`. -/
def metric (r : Run) (key : String) : Option ℚ :=
  match Dicts.get r.rest.metrics key with
  | some (.num q) => some q
  | some (.int n) => some n
  | _ => none

/-- `r.get(key)` of a histogram. -/
def hist (r : Run) (key : String) : Option Hist :=
  match Dicts.get r.rest.histograms key with
  | some (.hist h) => some h
  | some (.lag h) => some h.toHist
  | _ => none

/-- `r.get("flags", [])`. -/
def flagList (r : Run) : List String := r.flags.getD []

end RunDoc

/-- `LATENCY_QUANTILES`, `LAG_QUANTILES` and `RX_QUANTILES`, with the histogram of each. -/
def quantileTables : List (String × List (String × ℚ)) :=
  [("latency", [("p50", 1 / 2), ("p90", 9 / 10), ("p99", 99 / 100), ("p999", 999 / 1000),
      ("max", 1)]),
    ("lag", [("lag_p50", 1 / 2), ("lag_p99", 99 / 100), ("lag_max", 1)]),
    ("latency_rx", [("rx_p50", 1 / 2), ("rx_p99", 99 / 100)])]

/-- The histogram and the quantile that a key of `value` stands for. -/
def quantileOf (key : String) : Option (String × ℚ) :=
  quantileTables.findSome? fun t => (Dicts.get t.2 key).map fun q => (t.1, q)

/-- `CAMPAIGN_FLAGS`. -/
def campaignFlags : List String := ["non_comparable", "host_noisy", "instrumented"]

/-- What `state` returns. -/
inductive CellState
  | unsupported
  | valid
  | notSustained
  | invalid
  | missing
  deriving DecidableEq

/-- What `bounded` returns. -/
inductive Bound
  | offer
  | broker
  deriving DecidableEq

namespace Cell

variable (x : Cell Finished)

def valid : List Run := x.runs.filter fun r => r.rest.status = .valid

def count (status : Status) : ℕ := x.runs.countP fun r => r.rest.status = status

def state : CellState :=
  if x.unsupported.isSome then .unsupported
  else if x.valid ≠ [] then .valid
  else if x.count .notSustained ≠ 0 then .notSustained
  else if x.runs ≠ [] then .invalid
  else .missing

def median (key : String) : Option ℚ := Medians.median (x.valid.filterMap fun r => r.metric key)

/-- `_merged`. -/
def mergedHist (key : String) : Option Hist := merged (x.valid.map fun r => r.hist key)

def value (key : String) : Option ℚ :=
  match quantileOf key with
  | some (hist, q) => ((x.mergedHist hist).bind fun h => percentile h q).map (· / 1000)
  | none => x.median key

def flags : List String :=
  Bench.sortedSet ((x.valid.flatMap RunDoc.flagList).filter fun f => f ∉ campaignFlags)

def bounded (metric : String) : Option Bound :=
  if metric ≠ "msgs_per_s" ∨ x.valid = [] then none
  else if "offer_bound" ∈ x.valid.flatMap RunDoc.flagList then some .offer
  else if "broker_bound" ∈ x.valid.flatMap RunDoc.flagList then some .broker
  else none

variable {x}

theorem bounded_eq : x.bounded "msgs_per_s" =
    if "offer_bound" ∈ x.valid.flatMap RunDoc.flagList then some .offer
    else if "broker_bound" ∈ x.valid.flatMap RunDoc.flagList then some .broker
    else none := by
  rw [bounded]
  by_cases hvalid : x.valid = [] <;> simp [hvalid]

theorem state_valid_iff : x.state = .valid ↔ x.unsupported = none ∧ x.valid ≠ [] := by
  cases hrefused : x.unsupported with
  | some reasons => simp [state, hrefused]
  | none =>
    rw [state, hrefused]
    split_ifs <;> simp_all

theorem state_notSustained_iff : x.state = .notSustained ↔
    x.unsupported = none ∧ x.valid = [] ∧ x.count .notSustained ≠ 0 := by
  cases hrefused : x.unsupported with
  | some reasons => simp [state, hrefused]
  | none =>
    rw [state, hrefused]
    split_ifs <;> simp_all

theorem state_missing_iff : x.state = .missing ↔ x.unsupported = none ∧ x.runs = [] := by
  have hvalid : x.runs = [] → x.valid = [] := fun hr => by rw [valid, hr]; rfl
  have hcount : x.runs = [] → x.count .notSustained = 0 := fun hr => by rw [count, hr]; rfl
  cases hrefused : x.unsupported with
  | some reasons => simp [state, hrefused]
  | none =>
    rw [state, hrefused]
    split_ifs <;> simp_all

end Cell

/-! ## What a value may rest on -/

/-- The last of the greatest attempts at an index of a point and a client. -/
def Final (dir : Directory Finished) (name client : String) (r : Run) : Prop :=
  r ∈ dir.recordsOf name client ∧ LastMax RunDoc.attemptNo
    ((dir.recordsOf name client).filter fun y => y.index = r.index) r

/-- The records that count: the valid ones of the final ones. -/
structure Counted (dir : Directory Finished) (name client : String) (counted : List Run) :
    Prop where
  order : (counted.map RunDoc.index).Pairwise (· < ·)
  mem : ∀ r, r ∈ counted ↔ Final dir name client r ∧ r.rest.status = .valid

section

variable {dir : Directory Finished} {c : Campaign Finished}

theorem Counted.unique {name client : String} {xs ys : List Run} (hx : Counted dir name client xs)
    (hy : Counted dir name client ys) : xs = ys := by
  have hsorted : ∀ zs : List Run, (zs.map RunDoc.index).Pairwise (· < ·) →
      zs.Pairwise fun a b => a.index < b.index := fun zs hzs => List.pairwise_map.1 hzs
  have hnodup : ∀ zs : List Run, (zs.map RunDoc.index).Pairwise (· < ·) → zs.Nodup := fun zs hzs =>
    (hsorted zs hzs).imp fun hlt heq => absurd (heq ▸ hlt) (lt_irrefl _)
  have hperm : xs.Perm ys := (List.perm_ext_iff_of_nodup (hnodup xs hx.order)
    (hnodup ys hy.order)).2 fun r => (hx.mem r).trans (hy.mem r).symm
  exact hperm.eq_of_pairwise (fun a b _ _ hab hba => absurd hab (lt_asymm hba))
    (hsorted xs hx.order) (hsorted ys hy.order)

theorem Partitioned.mem_runs (h : Partitioned dir c) {x : (String × String) × Cell Finished}
    (hx : x ∈ c.cells) {r : Run} : r ∈ x.2.runs ↔ Final dir x.1.1 x.1.2 r := by
  constructor
  · exact fun hr => ⟨(h.each x hx).mem_iff.1 (List.mem_append_left _ hr), h.last x hx r hr⟩
  · rintro ⟨hr, hlast⟩
    obtain ⟨r', hr', hindex⟩ := List.mem_map.1 ((h.index x hx r.index).2 ⟨r, hr, rfl⟩)
    have hlast' := h.last x hx r' hr'
    rw [hindex] at hlast'
    exact hlast.unique hlast' ▸ hr'

/-- The valid runs of a cell are those that count. -/
theorem Partitioned.counted (h : Partitioned dir c) {x : (String × String) × Cell Finished}
    (hx : x ∈ c.cells) : Counted dir x.1.1 x.1.2 x.2.valid where
  order := by
    have hsub : (x.2.valid.map RunDoc.index).Sublist (x.2.runs.map RunDoc.index) :=
      List.filter_sublist.map _
    exact (h.order x hx).sublist hsub
  mem r := by rw [Cell.valid, List.mem_filter, decide_eq_true_eq, h.mem_runs hx]

end

/-! ## Histograms -/

/-- The samples that are binned. -/
def naturals (values : List ℤ) : List ℕ := (values.filter (0 ≤ ·)).map Int.toNat

/-- A scan, but for the negative samples. -/
def unsigned (s : Bench.Histogram.Scan) : Bench.Histogram.Scan := { s with negative := 0 }

theorem unsigned_foldl (values : List ℤ) {s t : Bench.Histogram.Scan}
    (h : unsigned s = unsigned t) :
    unsigned (values.foldl Bench.Histogram.Scan.value s) =
      unsigned (((naturals values).map ((↑) : ℕ → ℤ)).foldl Bench.Histogram.Scan.value t) := by
  induction values generalizing s t with
  | nil => exact h
  | cons v values ih =>
    rw [List.foldl_cons]
    by_cases hv : v < 0
    · have hskip : naturals (v :: values) = naturals values := by
        rw [naturals, List.filter_cons_of_neg (by simpa using hv)]
        rfl
      rw [hskip]
      refine ih ?_
      rw [Bench.Histogram.Scan.value, if_pos hv]
      exact h
    · have hkeep : naturals (v :: values) = v.toNat :: naturals values := by
        rw [naturals, List.filter_cons_of_pos (by simpa using hv)]
        rfl
      rw [hkeep, List.map_cons, List.foldl_cons, Int.toNat_of_nonneg (not_lt.1 hv)]
      refine ih ?_
      simp only [unsigned, Bench.Histogram.Scan.mk.injEq] at h
      simp only [Bench.Histogram.Scan.value, if_neg hv, unsigned, h]

/-- **Negative samples do not count in a percentile.** -/
theorem percentile_naturals (values : List ℤ) (q : ℚ) :
    percentile (fromValues values) q =
      percentile (fromValues ((naturals values).map ((↑) : ℕ → ℤ))) q := by
  have h := unsigned_foldl values (rfl : unsigned .init = unsigned .init)
  simp only [unsigned, Bench.Histogram.Scan.mk.injEq] at h
  obtain ⟨hbuckets, hcount, htotal, -, hlo, hhi⟩ := h
  have hloop : ∀ (a b : Hist) (rank : ℚ) (bs : List (ℕ × ℕ)) (seen : ℕ), a.minNs = b.minNs →
      a.maxNs = b.maxNs → percentileLoop a rank bs seen = percentileLoop b rank bs seen := by
    intro a b rank bs seen hmin hmax
    induction bs generalizing seen with
    | nil => rw [percentileLoop, percentileLoop, hmax]
    | cons e bs ih => rw [percentileLoop, percentileLoop, hmin, hmax, ih]
  have hmin : (fromValues values).minNs =
      (fromValues ((naturals values).map ((↑) : ℕ → ℤ))).minNs := congrArg (·.getD 0) hlo
  have hsorted : (fromValues values).buckets =
      (fromValues ((naturals values).map ((↑) : ℕ → ℤ))).buckets := congrArg Tally.sorted hbuckets
  have hnumber : (fromValues values).count =
      (fromValues ((naturals values).map ((↑) : ℕ → ℤ))).count := hcount
  have hmax : (fromValues values).maxNs =
      (fromValues ((naturals values).map ((↑) : ℕ → ℤ))).maxNs := hhi
  rw [percentile, percentile, hnumber, hmin, hmax, hsorted, hloop _ _ _ _ _ hmin hmax]

/-- What a run measured under a key; a run without a histogram measured nothing. -/
def Measured (r : Run) (key : String) (samples : List ℤ) : Prop :=
  r.hist key = some (fromValues samples) ∨ r.hist key = none ∧ samples = []

/-- **A merged histogram has the samples of all its runs.** -/
theorem merged_samples {runs : List Run} {key : String} {samples : Run → List ℤ}
    (h : ∀ r ∈ runs, Measured r key (samples r)) : merged (runs.map fun r => r.hist key) =
      if naturals (runs.flatMap samples) = [] then none
      else some (fromValues (runs.flatMap samples)) := by
  have hsplit : ∃ present : List Run, (runs.map fun r => r.hist key).filter Option.isSome =
      (present.map samples).map (fun xs => some (fromValues xs)) ∧
        runs.flatMap samples = (present.map samples).flatten := by
    induction runs with
    | nil => exact ⟨[], rfl, rfl⟩
    | cons r runs ih =>
      obtain ⟨present, hkept, hpool⟩ := ih fun r' hr' => h r' (List.mem_cons_of_mem r hr')
      rcases h r List.mem_cons_self with hsome | ⟨hnone, hempty⟩
      · exact ⟨r :: present, by simp [hsome, hkept], by simp [hpool]⟩
      · exact ⟨present, by simp [hnone, hkept], by simp [hempty, hpool]⟩
  obtain ⟨present, hkept, hpool⟩ := hsplit
  have hmerged : merged (runs.map fun r => r.hist key) =
      merged ((runs.map fun r => r.hist key).filter Option.isSome) := by
    simp only [merged, List.filter_filter, Bool.and_self]
  have hcount : (runs.flatMap samples).countP (0 ≤ ·) = 0 ↔
      naturals (runs.flatMap samples) = [] := by
    rw [naturals, List.map_eq_nil_iff, List.countP_eq_length_filter, List.length_eq_zero_iff]
  rw [hmerged, hkept, merged_map_fromValues, ← hpool]
  simp only [hcount]

/-! ## Quantiles -/

/-- The sample that a quantile asks for: the one of its rank, or the greatest. -/
structure IsRanked (pool : List ℕ) (q : ℚ) (s : ℕ) : Prop where
  rank : q < 1 → ∃ k : ℕ, IsLeast {j : ℤ | q * pool.length ≤ j} k ∧ 1 ≤ k ∧
    (pool.mergeSort (· ≤ ·))[k - 1]? = some s
  greatest : 1 ≤ q → IsGreatest {y | y ∈ pool} s

/-- What should be shown of a pool of samples, in microseconds: the sample asked for, to a
thirty-second part; the greatest and the small ones exactly. -/
structure Quantile (pool : List ℕ) (q v : ℚ) : Prop where
  close : ∃ s, IsRanked pool q s ∧ |1000 * v - s| ≤ s / 32 ∧ (s < 32 ∨ 1 ≤ q → 1000 * v = s)
  range : ∃ lo hi : ℕ, IsLeast {y | y ∈ pool} lo ∧ IsGreatest {y | y ∈ pool} hi ∧
    lo ≤ 1000 * v ∧ 1000 * v ≤ hi

theorem quantileOf_mem {key hist : String} {q : ℚ} (h : quantileOf key = some (hist, q)) :
    0 < q ∧ q ≤ 1 := by
  obtain ⟨t, ht, heq⟩ := List.exists_of_findSome?_eq_some h
  obtain ⟨q', hq', heq⟩ := Option.map_eq_some_iff.1 heq
  obtain rfl : q' = q := (Prod.mk.inj heq).2
  have hall : ∀ t ∈ quantileTables, ∀ e ∈ t.2, 0 < e.2 ∧ e.2 ≤ 1 := by decide +kernel
  exact hall t ht _ (Dicts.mem_of_get hq')

theorem percentile_quantile {values : List ℤ} {q : ℚ} (h0 : 0 < q) (h1 : q ≤ 1)
    (hne : naturals values ≠ []) :
    ∃ p, percentile (fromValues values) q = some p ∧ Quantile (naturals values) q (p / 1000) := by
  have hscale : ∀ p : ℚ, 1000 * (p / 1000) = p := fun p => by ring
  have hleast := isLeast_minNs _ hne
  have hgreatest := isGreatest_maxNs _ hne
  have hrange := minNs_le_maxNs hne
  rw [percentile_naturals]
  rcases lt_or_eq_of_le h1 with hlt | rfl
  · obtain ⟨x, hx, hp⟩ := percentile_eq _ h0 hlt hne
    have hmem := mem_of_getElem?_ascending hx
    have hclose := close_midValue (hleast.2 hmem) (hgreatest.2 hmem)
    have hlength : (0 : ℚ) < (naturals values).length := by
      exact_mod_cast List.length_pos_iff.2 hne
    have hrank : 0 < q * (naturals values).length := mul_pos h0 hlength
    refine ⟨_, hp, ⟨x, ⟨fun _ => ⟨_, isLeast_ceil hrank.le, Nat.ceil_pos.2 hrank, hx⟩,
      fun hq => absurd hlt (not_lt.2 hq)⟩, ?_, fun hexact => ?_⟩, _, _, hleast, hgreatest, ?_, ?_⟩
      <;> rw [hscale]
    exacts [hclose.relative, hclose.exact_below (hexact.resolve_right (not_le.2 hlt)),
      le_clamp hrange _, clamp_le _ _ _]
  · refine ⟨_, percentile_of_one_le hne le_rfl, ⟨_, ⟨fun hq => absurd hq (lt_irrefl _),
      fun _ => hgreatest⟩, ?_, fun _ => hscale _⟩, _, _, hleast, hgreatest, ?_, ?_⟩ <;> rw [hscale]
    · rw [sub_self, abs_zero]
      positivity
    · exact hrange

theorem percentile_le {values : List ℤ} {q q' p p' : ℚ} (hq : q ≤ q')
    (hp : percentile (fromValues values) q = some p)
    (hp' : percentile (fromValues values) q' = some p') : p ≤ p' := by
  rw [percentile_naturals] at hp hp'
  have hne : naturals values ≠ [] := by
    intro hnil
    rw [hnil] at hp
    exact absurd hp (by
      simp [percentile, fromValues, Bench.Histogram.Scan.result, Bench.Histogram.Scan.init])
  obtain ⟨r, r', hr, hr', hle⟩ := percentile_mono hne hq
  rw [Option.some.inj (hp.symm.trans hr), Option.some.inj (hp'.symm.trans hr')]
  exact hle

namespace Cell

variable {x : Cell Finished} {samples : Run → List ℤ} {key hist : String} {q : ℚ}

theorem value_eq (hq : quantileOf key = some (hist, q))
    (h : ∀ r ∈ x.valid, Measured r hist (samples r)) : x.value key =
      if naturals (x.valid.flatMap samples) = [] then none
      else (percentile (fromValues (x.valid.flatMap samples)) q).map (· / 1000) := by
  simp only [value, hq, mergedHist, merged_samples h]
  split <;> rfl

/-- A percentile of the cell is one of all the samples of its valid runs. -/
theorem value_quantile (hq : quantileOf key = some (hist, q))
    (h : ∀ r ∈ x.valid, Measured r hist (samples r))
    (hne : naturals (x.valid.flatMap samples) ≠ []) :
    ∃ v, x.value key = some v ∧ Quantile (naturals (x.valid.flatMap samples)) q v := by
  obtain ⟨h0, h1⟩ := quantileOf_mem hq
  obtain ⟨p, hp, hquantile⟩ := percentile_quantile h0 h1 hne
  exact ⟨p / 1000, by rw [value_eq hq h, if_neg hne, hp]; rfl, hquantile⟩

end Cell

/-! ## Where the histograms come from -/

/-- The histogram that a run at a fixed rate records under a key: the publish path is measured by
the peer, what comes back by the worker. -/
def measuredBy (kind : Bench.Kind) (raw : Bench.Raw) (key : String) : Option Hist :=
  let worker := (raw.worker.map Bench.WorkerFile.doc).getD {}
  match key, kind with
  | "latency", .pub | "latency", .duplex => raw.peer.map Bench.PeerLine.latency
  | "latency", .sub | "latency", .rtt => worker.latency
  | "latency_rx", .duplex => worker.latency
  | "lag", .pub | "lag", .rtt | "lag", .duplex => worker.lag.map Bench.Checks.Lag.toHist
  | _, _ => none

/-- The keys of the histograms that are kept beside the metrics. -/
def isKept (e : String × Metric) : Bool := e.1 ∈ ["latency", "latency_rx", "lag"]

theorem countMetrics_kept {record : Bench.Checks.RunRecord} {windowS : ℚ}
    {counts : List (String × Metric)} {msgs : ℤ}
    (h : Bench.Checks.countMetrics record windowS = .ok (counts, msgs)) :
    counts.filter isKept = [] := by
  unfold Bench.Checks.countMetrics at h
  cases hkind : record.point.kind <;> simp only [hkind, Fallible.bind_eq_ok] at h
  case pub =>
    obtain ⟨_, -, _, -, _, -, heq⟩ := h
    cases heq
    rfl
  case sub =>
    obtain ⟨_, -, _, -, _, -, _, -, _, -, heq⟩ := h
    cases heq
    rfl
  case rtt =>
    obtain ⟨_, -, _, -, _, -, heq⟩ := h
    cases heq
    rfl
  case duplex =>
    obtain ⟨_, -, _, -, _, -, _, -, heq⟩ := h
    cases heq
    rfl
  case idle =>
    cases h
    rfl

theorem costMetrics_kept {client : Bench.Checks.ClientUse} {windowS : ℚ} {msgs : ℤ}
    {costs : List (String × Metric)}
    (h : Bench.Checks.costMetrics client windowS msgs = .ok costs) : costs.filter isKept = [] := by
  have hused : ∀ es : List (String × Option ℤ), (∀ k ∈ es.map Prod.fst, isKept (k, .null) = false) →
      (es.filterMap fun e => e.2.map fun v => (e.1, Metric.int v)).filter isKept = [] := by
    intro es hes
    rw [List.filter_eq_nil_iff]
    intro e he
    obtain ⟨e', he', heq⟩ := List.mem_filterMap.1 he
    obtain ⟨v, -, rfl⟩ := Option.map_eq_some_iff.1 heq
    exact Bool.eq_false_iff.1 (hes e'.1 (List.mem_map_of_mem he'))
  have hall : ∀ cpu switches : List (String × Metric), cpu.filter isKept = [] →
      switches.filter isKept = [] → (cpu ++ ([("rss_start_kb", client.rssStartKb),
        ("rss_end_kb", client.rssEndKb), ("rss_peak_kb", client.rssPeakKb),
        ("threads", client.threads)].filterMap fun e => e.2.map fun v => (e.1, Metric.int v)) ++
          switches).filter isKept = [] := by
    intro cpu switches hcpu hswitches
    rw [List.filter_append, List.filter_append, hcpu, hswitches, hused _ (by simp [isKept])]
    rfl
  unfold Bench.Checks.costMetrics at h
  cases hns : client.cpuNs <;> simp only [hns, Fallible.bind_eq_ok] at h
  case none =>
    obtain ⟨cpu, hcpu, heq⟩ := h
    cases hcpu
    cases heq
    refine hall _ _ rfl ?_
    split
    · split <;> rfl
    · rfl
  case some =>
    obtain ⟨_, -, cpu, hcpu, heq⟩ := h
    cases hcpu
    cases heq
    refine hall _ _ rfl ?_
    split
    · split <;> rfl
    · rfl

theorem metrics_kept {record : Bench.Checks.RunRecord} {windowS : ℚ} {ms : List (String × Metric)}
    (h : Bench.Checks.metrics record windowS = .ok ms) :
    ms.filter isKept = (Bench.Checks.latencyMetrics record).filter isKept := by
  obtain ⟨⟨counts, msgs⟩, hcounts, h⟩ := Fallible.bind_eq_ok.1 h
  obtain ⟨costs, hcosts, h⟩ := Fallible.bind_eq_ok.1 h
  cases h
  rw [List.filter_append, List.filter_append, List.filter_append, countMetrics_kept hcounts,
    costMetrics_kept hcosts]
  rfl

theorem evaluate_kept {record : Bench.Checks.RunRecord} {strict : Bool}
    {out : Bench.Checks.Evaluation} (h : Bench.Checks.evaluate record strict = .ok out)
    (hvalid : out.status = .valid) :
    out.metrics.filter isKept = (Bench.Checks.latencyMetrics record).filter isKept := by
  unfold Bench.Checks.evaluate at h
  dsimp only at h
  split at h
  · cases h
    cases hvalid
  · simp only [Fallible.bind_eq_ok] at h
    obtain ⟨_, -, _, -, _, -, _, -, _, -, _, -, _, -, _, -, ms, hms, heq⟩ := h
    cases heq
    exact metrics_kept hms

section

variable {refusals : List String} {o : Bench.Outcomes} {point : Bench.Point}
  {profile : Bench.Profile} {sampled : Bool} {f : Finished}

/-- A valid run keeps the histograms of its latency metrics. -/
theorem histograms_runOnce (h : Bench.runOnce refusals o point profile sampled = .ok f)
    (hvalid : f.status = .valid) : f.histograms =
      (Bench.Checks.latencyMetrics (f.raw.record point profile)).filter isKept := by
  have hfinish : ∀ (raw : Bench.Raw) (out : Bench.Checks.Evaluation) (finished : Finished),
      Bench.Checks.evaluate (raw.record point profile) profile.comparable = .ok out →
      finished.status = out.status → finished.histograms = out.metrics.filter isKept →
      finished.raw = raw → (if sampled = true ∧ raw.sampling = false then
        pure { finished with status := .invalid, reasons := ["sampling_failed"] }
        else pure finished : Except Bench.Checks.Failure Finished) = .ok f →
      f.histograms = (Bench.Checks.latencyMetrics (f.raw.record point profile)).filter isKept := by
    intro raw out finished hout hstatus hhistograms hraw h
    split at h
    · cases h
      cases hvalid
    · cases h
      rw [hhistograms, hraw]
      exact evaluate_kept hout (hstatus ▸ hvalid)
  unfold Bench.runOnce at h
  split at h
  · cases h
    cases hvalid
  · cases hrun : (Bench.tryBlock o point.kind sampled).run {} <;> simp only [hrun] at h
    all_goals
      obtain ⟨out, hout, h⟩ := Fallible.bind_eq_ok.1 h
      exact hfinish _ out _ hout rfl rfl rfl h

/-- **A valid run at a fixed rate keeps what its parties measured.** -/
theorem hist_runOnce (h : Bench.runOnce refusals o point profile sampled = .ok f)
    (hvalid : f.status = .valid) (hrate : point.rate ≠ 0) {r : Run} (hr : r.rest = f)
    (key : String) : r.hist key = measuredBy point.kind f.raw key := by
  have hpeer : (f.raw.record point profile).peerDoc.latency =
      f.raw.peer.map Bench.PeerLine.latency := by
    cases hpeer : f.raw.peer <;> simp [Bench.Checks.RunRecord.peerDoc, Bench.Raw.record, hpeer,
      Bench.PeerLine.doc]
  have hworker : (f.raw.record point profile).workerDoc =
      (f.raw.worker.map Bench.WorkerFile.doc).getD {} := rfl
  have hpoint : (f.raw.record point profile).point = point := rfl
  rw [RunDoc.hist, hr, histograms_runOnce h hvalid, Bench.Checks.latencyMetrics, hpeer, hworker,
    hpoint, if_neg hrate]
  unfold measuredBy
  dsimp only
  generalize (f.raw.worker.map Bench.WorkerFile.doc).getD {} = worker
  generalize f.raw.peer.map Bench.PeerLine.latency = peer
  generalize worker.latency = latency
  generalize worker.lag = lag
  have hkey : key = "latency" ∨ key = "latency_rx" ∨ key = "lag" ∨
      key ≠ "latency" ∧ key ≠ "latency_rx" ∧ key ≠ "lag" := by tauto
  rcases hkey with rfl | rfl | rfl | ⟨hlatency, hrx, hlag⟩
  case inr.inr.inr =>
    rcases peer with _ | peer <;> rcases latency with _ | latency <;> rcases lag with _ | lag <;>
      cases point.kind <;> simp [Dicts.get, isKept, hlatency, hrx, hlag, Ne.symm hlatency,
        Ne.symm hrx, Ne.symm hlag]
  all_goals
    rcases peer with _ | peer <;> rcases latency with _ | latency <;> rcases lag with _ | lag <;>
      cases point.kind <;> simp [Dicts.get, isKept]

end

/-- A run that `run_once` recorded at a fixed rate, and what its parties measured under a key. -/
def Recorded (r : Run) (key : String) (samples : List ℤ) : Prop :=
  ∃ refusals o point profile sampled,
    Bench.runOnce refusals o point profile sampled = .ok r.rest ∧ point.rate ≠ 0 ∧
      (measuredBy point.kind r.rest.raw key = some (fromValues samples) ∨
        measuredBy point.kind r.rest.raw key = none ∧ samples = [])

theorem Recorded.measured {r : Run} {key : String} {samples : List ℤ} (h : Recorded r key samples)
    (hvalid : r.rest.status = .valid) : Measured r key samples := by
  obtain ⟨refusals, o, point, profile, sampled, hrun, hrate, hsource⟩ := h
  rwa [Measured, hist_runOnce hrun hvalid hrate rfl key]

/-! ## The cells of a campaign -/

/-- What a cell says, in terms of the records of its point and its client. -/
structure Says (dir : Directory Finished) (x : (String × String) × Cell Finished)
    (counted : List Run) : Prop where
  valid : x.2.state = .valid ↔ x.2.unsupported = none ∧ counted ≠ []
  notSustained : x.2.state = .notSustained ↔ x.2.unsupported = none ∧ counted = [] ∧
    ∃ r, Final dir x.1.1 x.1.2 r ∧ r.rest.status = .notSustained
  missing : x.2.state = .missing ↔ x.2.unsupported = none ∧ dir.recordsOf x.1.1 x.1.2 = []
  metric : ∀ key, quantileOf key = none →
    x.2.value key = Medians.median (counted.filterMap fun r => r.metric key) ∧
    (x.2.value key = none ↔ ∀ r ∈ counted, r.metric key = none) ∧
    ∀ v, x.2.value key = some v → IsMedian (counted.filterMap fun r => r.metric key) v
  quantile : ∀ key hist q, quantileOf key = some (hist, q) → ∀ samples : Run → List ℤ,
    (∀ r ∈ counted, Measured r hist (samples r)) →
    (x.2.value key = none ↔ naturals (counted.flatMap samples) = []) ∧
    (∀ v, x.2.value key = some v → Quantile (naturals (counted.flatMap samples)) q v) ∧
    ∀ key' q', quantileOf key' = some (hist, q') → q ≤ q' → ∀ v v', x.2.value key = some v →
      x.2.value key' = some v' → v ≤ v'
  flags : ∀ flag, flag ∈ x.2.flags ↔ flag ∉ campaignFlags ∧ ∃ r ∈ counted, flag ∈ r.flagList
  offer : x.2.bounded "msgs_per_s" = some .offer ↔ ∃ r ∈ counted, "offer_bound" ∈ r.flagList
  broker : x.2.bounded "msgs_per_s" = some .broker ↔
    (∃ r ∈ counted, "broker_bound" ∈ r.flagList) ∧ ∀ r ∈ counted, "offer_bound" ∉ r.flagList

section

variable {dir : Directory Finished} {c : Campaign Finished} {x : (String × String) × Cell Finished}

theorem Partitioned.runs_eq_nil (h : Partitioned dir c) (hx : x ∈ c.cells) :
    x.2.runs = [] ↔ dir.recordsOf x.1.1 x.1.2 = [] := by
  rw [List.eq_nil_iff_forall_not_mem, List.eq_nil_iff_forall_not_mem]
  constructor
  · intro hnone r hr
    obtain ⟨r', hr', -⟩ := List.mem_map.1 ((h.index x hx r.index).2 ⟨r, hr, rfl⟩)
    exact hnone r' hr'
  · exact fun hnone r hr => hnone r ((h.mem_runs hx).1 hr).1

theorem Partitioned.told (h : Partitioned dir c) (hx : x ∈ c.cells) : Says dir x x.2.valid where
  valid := Cell.state_valid_iff
  notSustained := by
    have hcount : x.2.count .notSustained ≠ 0 ↔
        ∃ r, Final dir x.1.1 x.1.2 r ∧ r.rest.status = .notSustained := by
      simp [Cell.count, List.countP_eq_zero, h.mem_runs hx]
    rw [Cell.state_notSustained_iff, hcount]
  missing := by rw [Cell.state_missing_iff, h.runs_eq_nil hx]
  metric key hkey := by
    rw [Cell.value, hkey]
    refine ⟨rfl, ?_, fun v hv => isMedian_of_median hv⟩
    rw [Cell.median, median_eq_none_iff, List.filterMap_eq_nil_iff]
  quantile key hist q hq samples hsamples := by
    refine ⟨?_, ?_, ?_⟩
    · by_cases hnil : naturals (x.2.valid.flatMap samples) = []
      · simp [Cell.value_eq hq hsamples, hnil]
      · obtain ⟨v, hv, -⟩ := Cell.value_quantile hq hsamples hnil
        simp [hv, hnil]
    · intro v hv
      by_cases hnil : naturals (x.2.valid.flatMap samples) = []
      · rw [Cell.value_eq hq hsamples, if_pos hnil] at hv
        cases hv
      · obtain ⟨v', hv', hquantile⟩ := Cell.value_quantile hq hsamples hnil
        exact Option.some.inj (hv.symm.trans hv') ▸ hquantile
    · intro key' q' hq' hle v v' hv hv'
      rw [Cell.value_eq hq hsamples] at hv
      rw [Cell.value_eq hq' hsamples] at hv'
      split at hv
      · cases hv
      · next hne =>
        rw [if_neg hne] at hv'
        obtain ⟨p, hp, rfl⟩ := Option.map_eq_some_iff.1 hv
        obtain ⟨p', hp', rfl⟩ := Option.map_eq_some_iff.1 hv'
        exact div_le_div_of_nonneg_right (percentile_le hle hp hp') (by norm_num)
  flags flag := by
    simp [Cell.flags, Bench.sortedSet, List.mem_mergeSort, List.mem_dedup, List.mem_filter,
      List.mem_flatMap, and_comm]
  offer := by
    rw [Cell.bounded_eq, ← List.mem_flatMap]
    split_ifs <;> simp_all
  broker := by
    have hnone : (∀ r ∈ x.2.valid, "offer_bound" ∉ r.flagList) ↔
        "offer_bound" ∉ x.2.valid.flatMap RunDoc.flagList := by simp
    rw [Cell.bounded_eq, ← List.mem_flatMap, hnone]
    split_ifs <;> simp_all

end

/-- **A cell shows the medians and the percentiles of what its valid final runs measured.**  Which
records count is settled by the files; on them rest the state, the scalar metrics, the percentiles,
which are those of all samples together, and the flags.  Of a run that `run_once` recorded at a
fixed rate, what was measured is what its peer or its worker reported. -/
theorem cell_values (F : FloatText) (dir : Directory Finished) {c : Campaign Finished}
    (hclients : (dir.docs.map ClientDoc.client).Nodup) (h : loadCampaign F dir = .ok c) :
    (∀ x ∈ c.cells, (∃ counted, Counted dir x.1.1 x.1.2 counted) ∧
      ∀ counted, Counted dir x.1.1 x.1.2 counted → Says dir x counted) ∧
    ∀ (r : Run) (key : String) (samples : List ℤ), r.rest.status = .valid →
      Recorded r key samples → Measured r key samples := by
  obtain ⟨names, hloaded⟩ := loadCampaign_loaded hclients h
  have hpart := hloaded.partitioned
  refine ⟨fun x hx => ⟨⟨_, hpart.counted hx⟩, fun counted hcounted => ?_⟩,
    fun r key samples hvalid hrecorded => hrecorded.measured hvalid⟩
  rw [hcounted.unique (hpart.counted hx)]
  exact hpart.told hx

/-- A run of the point `p`. -/
def attemptOf (attempt : ℤ) (status : Status) (samples : List ℤ) : Run where
  point := some ⟨some "p", { status := .unsupported }⟩
  runIndex := some 0
  attempt := some attempt
  worker := none
  flags := none
  rest := { status, histograms := [("latency", .hist (fromValues samples))] }

/-- An invalid attempt, and a valid one with three samples. -/
def retriedDoc : ClientDoc Finished :=
  ⟨some "a", some [attemptOf 0 .invalid [900], attemptOf 1 .valid [7, 40, 5]], none⟩

def retried : Directory Finished where
  path := "results/c"
  name := "c"
  manifest := ⟨none, none, false, none, none, List.nodup_nil, none, none⟩
  files := [("a.json", .ok retriedDoc)]

theorem load_retried : ∃ c x, loadCampaign .fraction retried = .ok c ∧ x ∈ c.cells ∧
    x.1 = ("p", "a") ∧ c.clients = ["a"] ∧ some "p" ∈ c.points.map PointDoc.name := by
  have hdocs : readDocs retried.files = .ok [("a", retriedDoc)] := by
    rw [readDocs, retried, List.mergeSort_singleton]
    rfl
  exact ⟨_, _, loadCampaign_eq_ok.2 ⟨_, [⟨none, none⟩, ⟨none, none⟩], [], [_],
    [(("p", "a"), _)], hdocs, rfl, rfl, rfl, rfl, rfl, rfl⟩, List.mem_singleton_self _, rfl, rfl,
    List.mem_singleton_self _⟩

/-- Only the valid attempt counts. -/
theorem cell_values_retried : ∃ c x, loadCampaign .fraction retried = .ok c ∧ x ∈ c.cells ∧
    ∀ v, x.2.value "max" = some v → 1000 * v = 40 := by
  obtain ⟨c, x, hload, hx, hkey, -⟩ := load_retried
  refine ⟨c, x, hload, hx, fun v hv => ?_⟩
  obtain ⟨⟨counted, hcounted⟩, htold⟩ :=
    (cell_values .fraction retried (by decide) hload).1 x hx
  have hrecords : retried.recordsOf x.1.1 x.1.2 =
      [attemptOf 0 .invalid [900], attemptOf 1 .valid [7, 40, 5]] := by
    rw [hkey]
    rfl
  have hmem : ∀ r ∈ counted, r = attemptOf 1 .valid [7, 40, 5] := by
    intro r hr
    obtain ⟨⟨hrecord, -⟩, hvalid⟩ := (hcounted.mem r).1 hr
    rw [hrecords, List.mem_pair] at hrecord
    refine hrecord.resolve_left ?_
    rintro rfl
    cases hvalid
  have hmeasured : ∀ r ∈ counted, Measured r "latency" [7, 40, 5] := by
    intro r hr
    rw [hmem r hr]
    exact .inl (by simp [RunDoc.hist, attemptOf, Dicts.get])
  have hquantile := ((htold counted hcounted).quantile "max" "latency" 1 (by decide)
    (fun _ => [7, 40, 5]) hmeasured).2.1 v hv
  have hpool : ∀ rs : List Run, naturals (rs.flatMap fun _ => [7, 40, 5]) =
      rs.flatMap fun _ => [7, 40, 5] := by
    intro rs
    induction rs with
    | nil => rfl
    | cons r rs ih =>
      rw [List.flatMap_cons, List.flatMap_cons, ← ih]
      rfl
  obtain ⟨y, hranked, -, hexact⟩ := hquantile.close
  obtain ⟨hy, hgreatest⟩ := hranked.greatest le_rfl
  rw [hpool] at hy hgreatest
  obtain ⟨r, hr, hsample⟩ := List.mem_flatMap.1 hy
  have hle : 40 ≤ y := hgreatest (List.mem_flatMap.2 ⟨r, hr, by decide⟩)
  have heq : y = 40 := by
    simp only [List.mem_cons, List.not_mem_nil, or_false] at hsample
    omega
  rw [hexact (.inr le_rfl), heq]
  rfl

end Report.Files

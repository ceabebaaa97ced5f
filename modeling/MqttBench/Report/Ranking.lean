import MqttBench.Lib.Fallible
import MqttBench.Report.RunCounts
import MqttBench.Report.Values

/-!
# The order of the clients

`_ranked` of `report/pages.py` and `sort_key` of `report/views.py`: the clients of a table, best
first.

* `ranked` — the program.
* `Above` — what a client that stands above another has over it.
* `ranking` — **every client is listed once, the better one above**, and a percentile that is read
  from a histogram cannot turn round two clients whose samples are more than a fifteenth apart.
-/

namespace Report.Files

open Bench (Finished)
open PyData (FloatText)
open Bench.Histogram

/-! ## The program -/

/-- `METRICS[metric].better == "higher"`. -/
def higherIsBetter (metric : String) : Bool := metric = "msgs_per_s"

/-- What clients are compared by within a state. -/
abbrev Rank := ℕ ×ₗ WithBot ℚ

/-- `sort_key(metric, value)`. -/
def sortKey (metric : String) : Option ℚ → Rank
  | none => toLex (1, ((0 : ℚ) : WithBot ℚ))
  | some v => toLex (0, ((if higherIsBetter metric then -v else v : ℚ) : WithBot ℚ))

/-- `order`. -/
def CellState.order : CellState → ℕ
  | .valid => 0
  | .notSustained => 1
  | .invalid => 2
  | .missing => 3
  | .unsupported => 4

namespace Cell

variable (x : Cell Finished) (metric : String)

/-- The value that a table shows. -/
def shown : Option ℚ := if x.state = .valid then x.value metric else none

/-- `rank`: everyone who took the whole offer ties. -/
def rank : Rank :=
  if x.bounded metric = some .offer then toLex (0, ⊥) else sortKey metric (x.shown metric)

/-- `key(client)`. -/
def rankKey (client : String) : ℕ ×ₗ (Rank ×ₗ String) :=
  toLex (x.state.order, toLex (x.rank metric, client))

end Cell

/-- `campaign.cell(point, client)`. -/
def Campaign.cell (c : Campaign Finished) (point client : String) : Option (Cell Finished) :=
  Dicts.get c.cells (point, client)

/-- `_ranked`; `none` for a pair without a cell. -/
def ranked (c : Campaign Finished) (point metric : String) : Option (List String) := do
  let keyed ← c.clients.mapM fun client =>
    (c.cell point client).map fun x => (x.rankKey metric client, client)
  pure ((keyed.mergeSort fun a b => a.1 ≤ b.1).map Prod.snd)

/-! ## Who stands above -/

/-- What the client `a` with the cell `x` has over the client `b` with the cell `y`. -/
structure Above (metric a b : String) (x y : Cell Finished) : Prop where
  state : x.state.order ≤ y.state.order
  value : x.bounded metric ≠ some .offer → ∀ v, y.shown metric = some v →
    ∃ u, x.shown metric = some u ∧ if higherIsBetter metric then v ≤ u else u ≤ v
  offer : y.state = .valid → y.bounded metric = some .offer →
    x.bounded metric = some .offer ∧ a < b
  tie : x.state = y.state → x.rank metric = y.rank metric → a < b

theorem Cell.shown_of_some {x : Cell Finished} {metric : String} {v : ℚ}
    (h : x.shown metric = some v) : x.state = .valid ∧ x.value metric = some v := by
  unfold Cell.shown at h
  split at h
  · next hstate => exact ⟨hstate, h⟩
  · cases h

theorem order_eq_zero {s : CellState} (h : s.order ≤ 0) : s = .valid := by
  cases s <;> first | rfl | exact absurd h (by decide)

theorem sortKey_le {metric : String} {o : Option ℚ} {w : WithBot ℚ}
    (h : sortKey metric o ≤ toLex (0, w)) : ∃ u, o = some u ∧
      ((if higherIsBetter metric then -u else u : ℚ) : WithBot ℚ) ≤ w := by
  cases o with
  | none => exact absurd h (by simp [sortKey, Prod.Lex.toLex_le_toLex])
  | some u => exact ⟨u, rfl, by simpa [sortKey, Prod.Lex.toLex_le_toLex] using h⟩

/-- Whoever took the whole offer is on top. -/
theorem Cell.le_offer_iff {x : Cell Finished} {metric : String} :
    x.rank metric ≤ toLex (0, ⊥) ↔ x.bounded metric = some .offer := by
  unfold Cell.rank
  split
  · next h => simp [h]
  · next h =>
    refine iff_of_false (fun hle => ?_) h
    obtain ⟨u, -, hbot⟩ := sortKey_le hle
    exact absurd hbot (by simp)

theorem above_of_lt {metric a b : String} {x y : Cell Finished}
    (h : x.rankKey metric a < y.rankKey metric b) : Above metric a b x y := by
  have hcases : x.state.order < y.state.order ∨ x.state.order = y.state.order ∧
      (x.rank metric < y.rank metric ∨ x.rank metric = y.rank metric ∧ a < b) := by
    simpa [Cell.rankKey, Prod.Lex.toLex_lt_toLex] using h
  have hrank : y.state = .valid → x.state = .valid ∧
      (x.rank metric < y.rank metric ∨ x.rank metric = y.rank metric ∧ a < b) := by
    intro hvalid
    rw [hvalid] at hcases
    rcases hcases with hlt | ⟨heq, hrest⟩
    · exact absurd hlt (Nat.not_lt_zero _)
    · exact ⟨order_eq_zero heq.le, hrest⟩
  refine ⟨?_, ?_, ?_, ?_⟩
  · rcases hcases with hlt | ⟨heq, -⟩
    · exact hlt.le
    · exact heq.le
  · intro hbound v hv
    obtain ⟨hvalid, -⟩ := Cell.shown_of_some hv
    obtain ⟨-, hrest⟩ := hrank hvalid
    have hle : x.rank metric ≤ y.rank metric := hrest.elim le_of_lt fun h => h.1.le
    by_cases hoffer : y.bounded metric = some .offer
    · exact absurd (Cell.le_offer_iff.1 (hle.trans (Cell.le_offer_iff.2 hoffer))) hbound
    rw [Cell.rank, Cell.rank, if_neg hbound, if_neg hoffer, hv] at hle
    obtain ⟨u, hu, hle⟩ := sortKey_le hle
    refine ⟨u, hu, ?_⟩
    split at hle
    · next hhigher =>
      rw [if_pos hhigher]
      simpa [hhigher] using hle
    · next hlower =>
      rw [if_neg hlower]
      simpa [hlower] using hle
  · intro hvalid hoffer
    obtain ⟨-, hrest⟩ := hrank hvalid
    have htop := Cell.le_offer_iff.2 hoffer
    have hle : x.rank metric ≤ y.rank metric := hrest.elim le_of_lt fun h => h.1.le
    have hbound := Cell.le_offer_iff.1 (hle.trans htop)
    refine ⟨hbound, (hrest.resolve_left fun hlt => ?_).2⟩
    rw [Cell.rank, Cell.rank, if_pos hbound, if_pos hoffer] at hlt
    exact lt_irrefl _ hlt
  · intro hstate heq
    rcases hcases with hlt | ⟨-, hlt | ⟨-, hlt⟩⟩
    · exact absurd hlt (by rw [hstate]; exact lt_irrefl _)
    · exact absurd hlt (by rw [heq]; exact lt_irrefl _)
    · exact hlt

/-! ## The list -/

/-- The keys of distinct clients, in order. -/
theorem sorted_keyed (clients : List String) (hnodup : clients.Nodup)
    (g : String → Cell Finished) (metric : String) :
    ((clients.map fun client => ((g client).rankKey metric client, client)).mergeSort
      fun a b => a.1 ≤ b.1).Pairwise fun a b => a.1 < b.1 := by
  have hperm := List.mergeSort_perm
    (clients.map fun client => ((g client).rankKey metric client, client)) fun a b => a.1 ≤ b.1
  have hkeys : ((clients.map fun client => ((g client).rankKey metric client, client)).mergeSort
      fun a b => a.1 ≤ b.1).Pairwise fun a b => a.1 ≠ b.1 := by
    refine hperm.symm.pairwise ?_ fun h => Ne.symm h
    rw [List.pairwise_map]
    exact hnodup.imp fun hne heq => hne (congrArg (fun k => (ofLex (ofLex k).2).2) heq)
  exact (Grouping.sorted_mergeSort Prod.fst _).imp₂
    (fun _ _ hle hne => lt_of_le_of_ne hle hne) hkeys

theorem ranked_spec {c : Campaign Finished} {point metric : String} (hnodup : c.clients.Nodup)
    (hcells : ∀ client ∈ c.clients, (c.cell point client).isSome) :
    ∃ rs, ranked c point metric = some rs ∧ rs.Perm c.clients ∧
      (rs.Pairwise fun a b => ∃ x y, c.cell point a = some x ∧ c.cell point b = some y ∧
        Above metric a b x y) ∧
      ∀ c' : Campaign Finished, c'.cells = c.cells → c'.clients.Perm c.clients →
        ranked c' point metric = some rs := by
  have : Nonempty (Cell Finished) := ⟨⟨⟨none, { status := .valid }⟩, "", [], [], none⟩⟩
  choose! g hg using fun client hclient => Option.isSome_iff_exists.1 (hcells client hclient)
  have hsorted := sorted_keyed c.clients hnodup g metric
  have hperm := List.mergeSort_perm
    (c.clients.map fun client => ((g client).rankKey metric client, client)) fun a b => a.1 ≤ b.1
  have hmem : ∀ e ∈ (c.clients.map fun client =>
      ((g client).rankKey metric client, client)).mergeSort fun a b => a.1 ≤ b.1,
      c.cell point e.2 = some (g e.2) ∧ e.1 = (g e.2).rankKey metric e.2 := by
    intro e he
    obtain ⟨client, hclient, rfl⟩ := List.mem_map.1 (hperm.mem_iff.1 he)
    exact ⟨hg client hclient, rfl⟩
  have hranked : ∀ c' : Campaign Finished, c'.cells = c.cells →
      (∀ client ∈ c'.clients, client ∈ c.clients) → ranked c' point metric = some
        (((c'.clients.map fun client => ((g client).rankKey metric client, client)).mergeSort
          fun a b => a.1 ≤ b.1).map Prod.snd) := by
    intro c' hsame hsub
    rw [ranked, Fallible.mapM_eq_some
      (g := fun client => ((g client).rankKey metric client, client))]
    · rfl
    · intro client hclient
      rw [Campaign.cell, hsame, ← Campaign.cell, hg client (hsub client hclient)]
      rfl
  refine ⟨_, hranked c rfl fun client hclient => hclient, ?_, ?_, ?_⟩
  · have hclients := hperm.map Prod.snd
    rwa [List.map_map, Function.comp_def, List.map_id'] at hclients
  · rw [List.pairwise_map]
    refine hsorted.imp_of_mem fun {a b} ha hb hlt => ?_
    obtain ⟨hcell, hkey⟩ := hmem a ha
    obtain ⟨hcell', hkey'⟩ := hmem b hb
    rw [hkey, hkey'] at hlt
    exact ⟨_, _, hcell, hcell', above_of_lt hlt⟩
  · intro c' hsame hclients
    have hnodup' : c'.clients.Nodup := hclients.nodup_iff.2 hnodup
    have hsorted' := sorted_keyed c'.clients hnodup' g metric
    rw [hranked c' hsame fun client => hclients.mem_iff.1]
    refine congrArg (fun xs => some (List.map Prod.snd xs)) ?_
    refine List.Perm.eq_of_pairwise (fun a b _ _ hab hba => absurd hab (lt_asymm hba)) hsorted'
      hsorted ?_
    exact ((List.mergeSort_perm _ _).trans (hclients.map _)).trans (List.mergeSort_perm _ _).symm

/-- A percentile that is not above another comes of a sample that is at most a fifteenth above. -/
theorem ranked_le {xs ys : List ℕ} {q u w : ℚ} (hu : Quantile xs q u) (hw : Quantile ys q w)
    (hle : u ≤ w) : ∃ s t : ℕ, IsRanked xs q s ∧ IsRanked ys q t ∧ 31 * s ≤ 33 * t := by
  obtain ⟨s, hs, hclose, -⟩ := hu.close
  obtain ⟨t, ht, hclose', -⟩ := hw.close
  refine ⟨s, t, hs, ht, ?_⟩
  rw [abs_le] at hclose hclose'
  have hscaled : (31 * s : ℚ) ≤ 33 * t := by linarith
  exact_mod_cast hscaled

/-- **Every client is listed once, the better one above.**  The order does not depend on the order
in which the campaign names its clients; and where a percentile is compared, a client that stands
above another has an exact percentile of all its samples that is at most a fifteenth above the
other's. -/
theorem ranking (F : FloatText) (dir : Directory Finished) {c : Campaign Finished}
    (hclients : (dir.docs.map ClientDoc.client).Nodup) (h : loadCampaign F dir = .ok c)
    {point : String} (hpoint : some point ∈ c.points.map PointDoc.name) (metric : String) :
    ∃ rs, ranked c point metric = some rs ∧ rs.Perm c.clients ∧
      (rs.Pairwise fun a b => ∃ x y, c.cell point a = some x ∧ c.cell point b = some y ∧
        Above metric a b x y ∧
        ∀ hist q, quantileOf metric = some (hist, q) → y.shown metric ≠ none →
          ∀ (xs ys : List Run) (samples : Run → List ℤ), Counted dir point a xs →
            Counted dir point b ys → (∀ r ∈ xs ++ ys, Measured r hist (samples r)) →
            ∃ s t : ℕ, IsRanked (naturals (xs.flatMap samples)) q s ∧
              IsRanked (naturals (ys.flatMap samples)) q t ∧ 31 * s ≤ 33 * t) ∧
      ∀ c' : Campaign Finished, c'.cells = c.cells → c'.clients.Perm c.clients →
        ranked c' point metric = some rs := by
  obtain ⟨names, hloaded⟩ := loadCampaign_loaded hclients h
  have hpart := hloaded.partitioned
  have hname : point ∈ names := by
    rw [hloaded.points] at hpoint
    simpa using hpoint
  have hcells : ∀ client ∈ c.clients, (c.cell point client).isSome := by
    intro client hclient
    rw [Option.isSome_iff_ne_none, Campaign.cell, Ne, Dicts.get_eq_none_iff, not_not]
    exact hloaded.mem_keys.2 ⟨hname, hclient⟩
  have hspec : ∃ rs, ranked c point metric = some rs ∧ _ := ranked_spec hloaded.clients_nodup hcells
  obtain ⟨rs, hrs, hperm, habove, hany⟩ := hspec
  refine ⟨rs, hrs, hperm, habove.imp ?_, hany⟩
  rintro a b ⟨x, y, hx, hy, hxy⟩
  refine ⟨x, y, hx, hy, hxy, fun hist q hq hshown xs ys samples hxs hys hmeasured => ?_⟩
  have hx' := Dicts.mem_of_get hx
  have hy' := Dicts.mem_of_get hy
  obtain rfl : xs = x.valid := hxs.unique (hpart.counted hx')
  obtain rfl : ys = y.valid := hys.unique (hpart.counted hy')
  have hne : metric ≠ "msgs_per_s" := by
    rintro rfl
    cases hq
  have hoffer : x.bounded metric ≠ some .offer := by
    rw [Cell.bounded, if_pos (.inl hne)]
    exact (Option.some_ne_none _).symm
  obtain ⟨w, hw⟩ := Option.ne_none_iff_exists'.1 hshown
  obtain ⟨u, hu, hle⟩ := hxy.value hoffer w hw
  rw [if_neg (by simpa [higherIsBetter] using hne)] at hle
  have htold := ((hpart.told hx').quantile metric hist q hq samples fun r hr =>
    hmeasured r (List.mem_append_left _ hr)).2.1 u (Cell.shown_of_some hu).2
  have htold' := ((hpart.told hy').quantile metric hist q hq samples fun r hr =>
    hmeasured r (List.mem_append_right _ hr)).2.1 w (Cell.shown_of_some hw).2
  exact ranked_le htold htold' hle

/-- A client with one valid run: its rate, its flags, and one sample in nanoseconds. -/
structure Rated where
  client : String
  rate : ℚ
  flags : List String
  sample : ℕ

namespace Rated

def run (e : Rated) : Run where
  point := some ⟨some "p", { status := .unsupported }⟩
  runIndex := some 0
  attempt := none
  worker := none
  flags := some e.flags
  rest :=
    { status := .valid
      metrics := [("msgs_per_s", .num e.rate)]
      histograms := [("latency", .hist (fromValues [(e.sample : ℤ)]))] }

def doc (e : Rated) : ClientDoc Finished := ⟨some e.client, some [e.run], none⟩

def cell (e : Rated) : Cell Finished :=
  ⟨⟨some "p", { status := .unsupported }⟩, e.client, (finalAttempts [e.run]).1,
    (finalAttempts [e.run]).2, none⟩

end Rated

/-- Three clients, of which `b` took the whole offer. -/
def three : List Rated :=
  [⟨"a", 90, [], 4000⟩, ⟨"b", 80, ["offer_bound"], 9000⟩, ⟨"c", 95, [], 1000⟩]

def rated : Directory Finished where
  path := "results/c"
  name := "c"
  manifest := ⟨none, none, false, none, none, List.nodup_nil, none, none⟩
  files := three.map fun e => (e.client ++ ".json", .ok e.doc)

def ratedCampaign : Campaign Finished where
  name := "c"
  manifest := rated.manifest
  docs := three.map fun e => (e.client, e.doc)
  cells := three.map fun e => (("p", e.client), e.cell)
  points := [⟨some "p", { status := .unsupported }⟩]
  clients := ["a", "b", "c"]

theorem load_rated : loadCampaign .fraction rated = .ok ratedCampaign := by
  have hsorted : rated.files.Pairwise fun f g => decide (f.1 ≤ g.1) = true := by
    simp only [rated, three, List.map_cons, List.map_nil, List.pairwise_cons, List.mem_cons,
      forall_eq_or_imp, String.le_iff_toList_le]
    exact ⟨by decide, by decide, by simp⟩
  have hdocs : readDocs rated.files = .ok ratedCampaign.docs := by
    rw [readDocs, List.mergeSort_of_pairwise hsorted]
    rfl
  exact loadCampaign_eq_ok.2 ⟨_, [⟨none, none⟩, ⟨none, none⟩, ⟨none, none⟩], [],
    ratedCampaign.points, ratedCampaign.cells, hdocs, rfl, rfl, rfl, rfl, rfl, rfl⟩

section

variable {e f : Rated}

theorem cell_rated (h : e ∈ three) : ratedCampaign.cell "p" e.client = some e.cell :=
  Dicts.get_of_mem (by decide) (List.mem_map.2 ⟨e, h, rfl⟩)

theorem Rated.valid_cell (e : Rated) : e.cell.valid = [e.run] := by
  have hindices : indices [e.run] = [e.run.index] := List.mergeSort_singleton _
  have hone : attemptsAt [e.run] e.run.index = [e.run] := by
    simp [attemptsAt, byIndex, Dicts.gather, Dicts.set, Dicts.get]
  have hfinal : (finalAttempts [e.run]).1 = [e.run] := by
    rw [finalAttempts, hindices, List.flatMap_singleton, hone]
    rfl
  rw [Cell.valid, Rated.cell, hfinal]
  rfl

theorem Rated.state_cell (e : Rated) : e.cell.state = .valid :=
  Cell.state_valid_iff.2 ⟨rfl, by rw [e.valid_cell]; exact List.cons_ne_nil _ _⟩

theorem Rated.metric_run (e : Rated) : e.run.metric "msgs_per_s" = some e.rate := by
  simp [RunDoc.metric, Rated.run, Dicts.get]

theorem Rated.shown_rate (e : Rated) : e.cell.shown "msgs_per_s" = some e.rate := by
  have hkey : quantileOf "msgs_per_s" = none := by decide
  rw [Cell.shown, if_pos e.state_cell, Cell.value, hkey]
  simp [Cell.median, e.valid_cell, Medians.median, e.metric_run]

theorem Rated.bounded_cell (e : Rated) :
    e.cell.bounded "msgs_per_s" = some .offer ↔ "offer_bound" ∈ e.flags := by
  rw [Cell.bounded_eq, e.valid_cell, List.flatMap_singleton]
  change (if "offer_bound" ∈ e.flags then some Bound.offer else _) = _ ↔ _
  split
  · next hmem => exact iff_of_true rfl hmem
  · next hnot => split <;> simp [hnot]

/-- Its run is what counts. -/
theorem counted_rated (h : e ∈ three) : Counted rated "p" e.client [e.run] := by
  obtain ⟨names, hloaded⟩ := loadCampaign_loaded (by decide) load_rated
  have hcounted := hloaded.partitioned.counted (Dicts.mem_of_get (cell_rated h))
  rwa [e.valid_cell] at hcounted

theorem Rated.measured (e : Rated) : Measured e.run "latency" [(e.sample : ℤ)] :=
  .inl (by simp [RunDoc.hist, Rated.run, Dicts.get])

theorem quantileOf_p99 : quantileOf "p99" = some ("latency", 99 / 100) := by decide +kernel

theorem Rated.shown_p99 (e : Rated) : e.cell.shown "p99" ≠ none := by
  have hmeasured : ∀ r ∈ e.cell.valid, Measured r "latency" [(e.sample : ℤ)] := by
    rw [e.valid_cell]
    simpa using e.measured
  obtain ⟨v, hv, -⟩ :=
    Cell.value_quantile quantileOf_p99 hmeasured (by rw [e.valid_cell]; simp [naturals])
  rw [Cell.shown, if_pos e.state_cell, hv]
  exact Option.some_ne_none v

theorem eq_of_isRanked {n s : ℕ} {q : ℚ} (h : IsRanked [n] q s) (hq : q < 1) : s = n := by
  obtain ⟨k, -, -, hs⟩ := h.rank hq
  rw [List.mergeSort_singleton] at hs
  exact List.mem_singleton.1 (List.mem_of_getElem? hs)

/-- The cells of two clients that stand one above the other. -/
theorem rated_of_cells {a b : String} {x y : Cell Finished} (ha : a ∈ ratedCampaign.clients)
    (hb : b ∈ ratedCampaign.clients) (hx : ratedCampaign.cell "p" a = some x)
    (hy : ratedCampaign.cell "p" b = some y) :
    ∃ e ∈ three, ∃ f ∈ three, e.client = a ∧ f.client = b ∧ x = e.cell ∧ y = f.cell := by
  obtain ⟨e, he, rfl⟩ := List.mem_map.1 (show a ∈ three.map Rated.client from ha)
  obtain ⟨f, hf, rfl⟩ := List.mem_map.1 (show b ∈ three.map Rated.client from hb)
  rw [cell_rated he] at hx
  rw [cell_rated hf] at hy
  cases hx
  cases hy
  exact ⟨e, he, f, hf, rfl, rfl, rfl, rfl⟩

/-- Nobody stands above himself. -/
theorem Above.client_ne {metric : String} (he : e ∈ three) (hf : f ∈ three)
    (h : Above metric e.client f.client e.cell f.cell) : e.client ≠ f.client := by
  have hinj : ∀ e ∈ three, ∀ f ∈ three, e.client = f.client → e.cell = f.cell := by
    simp [three]
  intro heq
  have hcell := hinj e he f hf heq
  have hlt := h.tie (congrArg Cell.state hcell) (by rw [hcell])
  exact absurd heq hlt.ne

/-- A list in which nobody stands wrong. -/
theorem eq_of_above {rs qs : List String} {R : String → String → Prop} (hperm : rs.Perm qs)
    (hrs : rs.Pairwise R) (hplace : ∀ u ∈ qs, ∀ v ∈ qs, R u v → qs.idxOf u < qs.idxOf v)
    (hqs : qs.Pairwise fun u v => qs.idxOf u < qs.idxOf v) : rs = qs := by
  refine hperm.eq_of_pairwise (fun u v _ _ huv hvu => absurd huv hvu.asymm) ?_ hqs
  exact hrs.imp_of_mem fun hu hv h => hplace _ (hperm.mem_iff.1 hu) _ (hperm.mem_iff.1 hv) h

end

/-- Whoever took the whole offer stands above those with more messages; of the others the faster
one stands above, and by its latency the one whose sample is lower. -/
theorem ranking_rated : ranked ratedCampaign "p" "msgs_per_s" = some ["b", "c", "a"] ∧
    ranked ratedCampaign "p" "p99" = some ["c", "a", "b"] := by
  have hpoint : some "p" ∈ ratedCampaign.points.map PointDoc.name := List.mem_singleton_self _
  constructor
  · obtain ⟨rs, hrs, hperm, habove, -⟩ :=
      ranking .fraction rated (by decide) load_rated hpoint "msgs_per_s"
    have hbest : ratedCampaign.clients.Perm ["b", "c", "a"] := by decide
    rw [hrs, eq_of_above (hperm.trans hbest) habove ?_ (by decide)]
    rintro u hu v hv ⟨x, y, hx, hy, hxy, -⟩
    obtain ⟨e, he, f, hf, rfl, rfl, rfl, rfl⟩ :=
      rated_of_cells (hbest.mem_iff.2 hu) (hbest.mem_iff.2 hv) hx hy
    have hoffer : "offer_bound" ∈ f.flags → "offer_bound" ∈ e.flags := by
      rw [← e.bounded_cell, ← f.bounded_cell]
      exact fun h => (hxy.offer f.state_cell h).1
    have hrate : "offer_bound" ∉ e.flags → f.rate ≤ e.rate := by
      rw [← e.bounded_cell]
      intro hnot
      obtain ⟨u, hu, hle⟩ := hxy.value hnot _ f.shown_rate
      rw [e.shown_rate] at hu
      cases hu
      exact hle
    have hplace : ∀ e ∈ three, ∀ f ∈ three, e.client ≠ f.client →
        ("offer_bound" ∈ f.flags → "offer_bound" ∈ e.flags) →
        ("offer_bound" ∉ e.flags → f.rate ≤ e.rate) →
        ["b", "c", "a"].idxOf e.client < ["b", "c", "a"].idxOf f.client := by decide
    exact hplace e he f hf (hxy.client_ne he hf) hoffer hrate
  · obtain ⟨rs, hrs, hperm, habove, -⟩ :=
      ranking .fraction rated (by decide) load_rated hpoint "p99"
    have hbest : ratedCampaign.clients.Perm ["c", "a", "b"] := by decide
    rw [hrs, eq_of_above (hperm.trans hbest) habove ?_ (by decide)]
    rintro u hu v hv ⟨x, y, hx, hy, hxy, hsamples⟩
    obtain ⟨e, he, f, hf, rfl, rfl, rfl, rfl⟩ :=
      rated_of_cells (hbest.mem_iff.2 hu) (hbest.mem_iff.2 hv) hx hy
    have hne := hxy.client_ne he hf
    have hrates : ∀ e ∈ three, ∀ f ∈ three, e.client ≠ f.client → f.rate ≠ e.rate := by decide
    let samples : Run → List ℤ := fun r =>
      if r.metric "msgs_per_s" = some e.rate then [(e.sample : ℤ)] else [(f.sample : ℤ)]
    have hxs : samples e.run = [(e.sample : ℤ)] := if_pos e.metric_run
    have hys : samples f.run = [(f.sample : ℤ)] := by
      refine if_neg ?_
      rw [f.metric_run]
      simpa using hrates e he f hf hne
    obtain ⟨s, t, hs, ht, hle⟩ := hsamples "latency" (99 / 100) quantileOf_p99 f.shown_p99 [e.run]
      [f.run] samples (counted_rated he) (counted_rated hf) (by
        intro r hr
        obtain rfl | rfl := List.mem_pair.1 hr
        · rw [hxs]
          exact e.measured
        · rw [hys]
          exact f.measured)
    rw [List.flatMap_singleton, hxs] at hs
    rw [List.flatMap_singleton, hys] at ht
    have hpool : ∀ n : ℕ, naturals [(n : ℤ)] = [n] := fun n => by simp [naturals]
    rw [hpool] at hs ht
    obtain rfl := eq_of_isRanked hs (by norm_num)
    obtain rfl := eq_of_isRanked ht (by norm_num)
    have hplace : ∀ e ∈ three, ∀ f ∈ three, e.client ≠ f.client → 31 * e.sample ≤ 33 * f.sample →
        ["c", "a", "b"].idxOf e.client < ["c", "a", "b"].idxOf f.client := by decide
    exact hplace e he f hf hne hle

end Report.Files

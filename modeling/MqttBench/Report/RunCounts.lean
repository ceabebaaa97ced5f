import MqttBench.Report.Cells

/-!
# The number of runs of a report

`done_runs` and `expected_runs` of `report/data.py` count what `load_campaign` made of the files:
the one over the cells, the other over points and clients.

* `Loaded.doneRuns_eq`, `Loaded.expectedRuns_eq` — both as sums over the same pairs.
* `drops_no_run` — **each record is in one cell, and a campaign is done when each index of each
  supported pair has an attempt.**
-/

namespace Report.Files

open PyData Fallible Grouping

variable {V : Type}

/-- The cell of a pair can hold runs. -/
def supportedAt (c : Campaign V) (name client : String) : Bool :=
  ((Dicts.get c.cells (name, client)).bind Cell.unsupported).isNone

/-- Each index of each pair that is not unsupported has an attempt. -/
def Complete (dir : Directory V) (c : Campaign V) : Prop :=
  ∀ p ∈ c.points, ∀ name, p.name = some name → ∀ client ∈ c.clients, c.supported p client = true →
    ∀ i, 0 ≤ i → i < c.runsPerPoint → ∃ r ∈ dir.recordsOf name client, r.index = i

theorem mem_records {dir : Directory V} {name client : String} {r : RunDoc V}
    (h : r ∈ dir.recordsOf name client) : r ∈ dir.records := by
  obtain ⟨d, hd, hr⟩ := List.mem_flatMap.1 h
  exact List.mem_flatMap.2 ⟨d, List.mem_of_mem_filter hd, List.mem_of_mem_filter hr⟩

section

variable {dir : Directory V} {c : Campaign V} {names : List String}

theorem Loaded.clients_nodup (h : Loaded dir c names) : c.clients.Nodup := by
  rw [h.clients, clientsOf, List.nodup_append]
  refine ⟨dir.manifest.clients_nodup, h.read.nodup.filter _, fun a ha b hb heq => ?_⟩
  have hnot := of_decide_eq_true (List.mem_filter.1 hb).2
  exact hnot (heq ▸ ha)

/-- Where the points have distinct names, there is one cell for each pair. -/
theorem Loaded.keys (h : Loaded dir c names) (hnames : names.Nodup) :
    c.cells.map Prod.fst = pairs names c.clients := by
  obtain ⟨items, hcells, hkeys, -⟩ := h.cells
  have hnodup : (items.map Prod.fst).Nodup := hkeys ▸ pairs_nodup hnames h.clients_nodup
  rw [hcells, Dicts.ofItems_of_nodup hnodup, hkeys]

/-- The runs that are done, pair by pair. -/
theorem Loaded.doneRuns_eq (h : Loaded dir c names) (hnames : names.Nodup) :
    c.doneRuns = ((pairs names c.clients).map fun k =>
      (indices (dir.recordsOf k.1 k.2)).length).sum := by
  rw [← h.keys hnames, List.map_map, Campaign.doneRuns]
  refine congrArg List.sum (List.map_congr_left fun x hx => ?_)
  rw [(h.holds x hx).runs, ← List.length_map RunDoc.index, map_index_final, h.read.runsOf]
  rfl

/-- The runs that are expected, pair by pair. -/
theorem Loaded.expectedRuns_eq (h : Loaded dir c names) (hruns : 0 ≤ c.runsPerPoint) :
    c.expectedRuns = (((pairs names c.clients).map fun k =>
      if supportedAt c k.1 k.2 then c.runsPerPoint.toNat else 0).sum : ℕ) := by
  have hpoints : (c.points.map fun p => c.clients.countP fun client => c.supported p client) =
      names.map fun name => c.clients.countP fun client => supportedAt c name client := by
    have hmap := congrArg (List.map fun o : Option String =>
      c.clients.countP fun client => supportedAt c (o.getD "") client) h.points
    rw [List.map_map, List.map_map] at hmap
    exact hmap
  rw [Campaign.expectedRuns, hpoints, pairs, sum_pairs, Nat.cast_mul, Int.toNat_of_nonneg hruns]

/-- **The parts of both sums**, pair by pair. -/
theorem Loaded.part (h : Loaded dir c names) (hnames : names.Nodup)
    (hrefused : ∀ x ∈ c.cells, x.2.unsupported ≠ none → x.2.runs = [])
    (hindex : ∀ r ∈ dir.records, 0 ≤ r.index ∧ r.index < c.runsPerPoint)
    {k : String × String} (hk : k ∈ pairs names c.clients) :
    let found := (indices (dir.recordsOf k.1 k.2)).length
    let wanted := if supportedAt c k.1 k.2 then c.runsPerPoint.toNat else 0
    found ≤ wanted ∧ (found = wanted ↔ (supportedAt c k.1 k.2 = true →
      ∀ i, 0 ≤ i → i < c.runsPerPoint → ∃ r ∈ dir.recordsOf k.1 k.2, r.index = i)) := by
  have hfull := length_eq_iff (indices_nodup (dir.recordsOf k.1 k.2)) (n := c.runsPerPoint) (by
    intro i hi
    obtain ⟨r, hr, rfl⟩ := mem_indices.1 hi
    exact hindex r (mem_records hr))
  rw [← h.keys hnames] at hk
  obtain ⟨x, hx, rfl⟩ := List.mem_map.1 hk
  simp only [mem_indices] at hfull
  by_cases hsupported : supportedAt c x.1.1 x.1.2 = true
  · simp only [hsupported, if_true, forall_const]
    exact hfull
  · have hcell : Dicts.get c.cells (x.1.1, x.1.2) = some x.2 := Dicts.get_of_mem h.nodup_keys hx
    have hunsupported : x.2.unsupported ≠ none := by
      intro hnone
      refine hsupported ?_
      rw [supportedAt, hcell]
      exact Option.isNone_iff_eq_none.2 hnone
    have hnil := hrefused x hx hunsupported
    rw [(h.holds x hx).runs] at hnil
    have hnone : indices (dir.recordsOf x.1.1 x.1.2) = [] := by
      rw [← h.read.runsOf, ← map_index_final, hnil]
      rfl
    simp [hsupported, hnone]

end

/-- **The report drops and duplicates no run.**  Each record is in one cell, in one of its two
lists; and a campaign whose records are all in place is done when each index of each supported
pair has an attempt. -/
theorem drops_no_run (F : FloatText) (dir : Directory V) {c : Campaign V}
    (hclients : (dir.docs.map ClientDoc.client).Nodup) (h : loadCampaign F dir = .ok c) :
    Partitioned dir c ∧
      ((dir.manifest.pointList.map PointDoc.name).Nodup →
        (∀ x ∈ c.cells, x.2.unsupported ≠ none → x.2.runs = []) →
        (∀ r ∈ dir.records, 0 ≤ r.index ∧ r.index < c.runsPerPoint) → 0 ≤ c.runsPerPoint →
          (c.doneRuns : ℤ) ≤ c.expectedRuns ∧
            ((c.doneRuns : ℤ) = c.expectedRuns ↔ Complete dir c)) := by
  obtain ⟨names, hloaded⟩ := loadCampaign_loaded hclients h
  refine ⟨hloaded.partitioned, fun hdistinct hrefused hindex hruns => ?_⟩
  have hnames := hloaded.announced hdistinct
  have hparts := sum_eq_iff fun k hk => (hloaded.part hnames hrefused hindex hk).1
  rw [hloaded.doneRuns_eq hnames, hloaded.expectedRuns_eq hruns, Nat.cast_le, Nat.cast_inj, hparts.2]
  refine ⟨hparts.1, fun hall => ?_, fun hcomplete k hk => ?_⟩
  · intro p hp name hname client hclient hsupported
    have hmem : name ∈ names := by
      have hp := List.mem_map_of_mem (f := PointDoc.name) hp
      rw [hloaded.points, hname] at hp
      exact (List.mem_map_of_injective (Option.some_injective _)).1 hp
    have hk : (name, client) ∈ pairs names c.clients := mem_pairs.2 ⟨hmem, hclient⟩
    have hsame : supportedAt c name client = true := by
      rw [Campaign.supported, hname] at hsupported
      exact hsupported
    exact (hloaded.part hnames hrefused hindex hk).2.1 (hall _ hk) hsame
  · refine (hloaded.part hnames hrefused hindex hk).2.2 fun hsupported => ?_
    obtain ⟨hname, hclient⟩ := mem_pairs.1 hk
    obtain ⟨p, hp, hpname⟩ : ∃ p ∈ c.points, p.name = some k.1 := by
      have hmem : some k.1 ∈ c.points.map PointDoc.name := by
        rw [hloaded.points]
        exact List.mem_map_of_mem hname
      exact List.mem_map.1 hmem
    refine hcomplete p hp k.1 hpname k.2 hclient ?_
    rw [Campaign.supported, hpname]
    exact hsupported

/-- A run of the point `p`. -/
def attemptAt (attempt : ℤ) : RunDoc Unit :=
  ⟨some ⟨some "p", ()⟩, some 0, some attempt, none, none, ()⟩

/-- A client whose run was made twice. -/
def twiceDoc : ClientDoc Unit := ⟨some "a", some [attemptAt 0, attemptAt 1], none⟩

def onceDoc : ClientDoc Unit := ⟨some "b", some [attemptAt 0], none⟩

/-- A campaign with two clients, of which the manifest announces the one. -/
def repeated : Directory Unit where
  path := "results/c"
  name := "c"
  manifest := ⟨none, none, false, some [⟨some "p", ()⟩], some ["b"], List.nodup_singleton _, none,
    none⟩
  files := [("a.json", .ok twiceDoc), ("b.json", .ok onceDoc)]

/-- The cell of a client. -/
def repeatedCell (client : String) (doc : ClientDoc Unit) : Cell Unit :=
  ⟨⟨some "p", ()⟩, client, (finalAttempts doc.runList).1, (finalAttempts doc.runList).2, none⟩

def repeatedCampaign : Campaign Unit :=
  ⟨"c", repeated.manifest, [("a", twiceDoc), ("b", onceDoc)],
    [(("p", "b"), repeatedCell "b" onceDoc), (("p", "a"), repeatedCell "a" twiceDoc)],
    [⟨some "p", ()⟩], ["b", "a"]⟩

theorem load_repeated : loadCampaign .fraction repeated = .ok repeatedCampaign := by
  have hsorted : repeated.files.Pairwise fun f g => decide (f.1 ≤ g.1) = true := by
    simp only [repeated, List.pairwise_cons, List.mem_singleton, forall_eq, String.le_iff_toList_le]
    exact ⟨by decide, by simp⟩
  have hdocs : readDocs repeated.files = .ok [("a", twiceDoc), ("b", onceDoc)] := by
    rw [readDocs, List.mergeSort_of_pairwise hsorted]
    rfl
  exact loadCampaign_eq_ok.2 ⟨_, [⟨none, none⟩, ⟨none, none⟩, ⟨none, none⟩], ["p"],
    [⟨some "p", ()⟩], repeatedCampaign.cells, hdocs, rfl, rfl, rfl, rfl, rfl, rfl⟩

/-- The first attempt is not counted. -/
theorem drops_no_run_repeated :
    (repeatedCampaign.doneRuns : ℤ) = repeatedCampaign.expectedRuns ∧
      repeatedCampaign.expectedRuns = 2 := by
  refine ⟨((drops_no_run .fraction repeated (by decide) load_repeated).2 (by decide) ?_ (by decide)
    (by decide)).2.2 ?_, by decide⟩
  · intro x hx hnot
    obtain rfl | rfl := List.mem_pair.1 hx <;> exact absurd rfl hnot
  · intro p hp name hname client hclient _ i hlow hhigh
    obtain rfl := List.mem_singleton.1 hp
    obtain rfl := Option.some.inj hname
    obtain rfl : 0 = i := by
      change i < 1 at hhigh
      omega
    obtain rfl | rfl := List.mem_pair.1 hclient
    · exact ⟨attemptAt 0, List.mem_singleton_self _, rfl⟩
    · exact ⟨attemptAt 1, List.mem_pair.2 (.inr rfl), rfl⟩

/-- A manifest that asks for `-1` runs. -/
def negative : Directory Unit where
  path := "results/c"
  name := "c"
  manifest := ⟨none, none, false, some [⟨some "p", ()⟩], some ["a"], List.nodup_singleton _,
    some (-1), none⟩
  files := []

def negativeCampaign : Campaign Unit :=
  ⟨"c", negative.manifest, [],
    [(("p", "a"), ⟨⟨some "p", ()⟩, "a", (finalAttempts []).1, (finalAttempts []).2, none⟩)],
    [⟨some "p", ()⟩], ["a"]⟩

theorem load_negative : loadCampaign .fraction negative = .ok negativeCampaign := by
  have hdocs : readDocs negative.files = .ok [] := by
    rw [readDocs, negative, List.mergeSort_nil]
    rfl
  exact loadCampaign_eq_ok.2 ⟨_, [], ["p"], [⟨some "p", ()⟩], negativeCampaign.cells, hdocs, rfl,
    rfl, rfl, rfl, rfl, rfl⟩

/-- No run is more than is expected. -/
theorem not_bounded_negative : ¬ ∀ (dir : Directory Unit) (c : Campaign Unit),
    (dir.docs.map ClientDoc.client).Nodup → loadCampaign .fraction dir = .ok c →
    (dir.manifest.pointList.map PointDoc.name).Nodup →
    (∀ x ∈ c.cells, x.2.unsupported ≠ none → x.2.runs = []) →
    (∀ r ∈ dir.records, 0 ≤ r.index ∧ r.index < c.runsPerPoint) →
    (c.doneRuns : ℤ) ≤ c.expectedRuns := by
  intro h
  have hle := h negative negativeCampaign (by decide) load_negative (by decide)
    (fun x hx hnot => absurd (by rw [List.mem_singleton.1 hx]) hnot) (by decide)
  have hexpected : negativeCampaign.expectedRuns = -1 := by decide
  omega

end Report.Files

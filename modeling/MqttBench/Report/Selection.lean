import MqttBench.Report.Files

/-!
# The campaign to publish

`find_campaigns` and `select_campaign` of `report/data.py`: the directories are gone through from
the newest to the oldest, the manifest of each is read, and only a candidate is loaded.

* `scanOne`, `selectCampaign` — the program.
* `InNameOrder` — the directories it goes through; `findCampaigns_inNameOrder`.
* `Sound`, `Fails`, `Publishes` — what is claimed; `Intelligible` — when it holds.
* `LoadedInv` — which directories have been loaded, at any point of the loop.
* `publishes_iff` — **the newest sound campaign is chosen, unless one that fails is newer**, as
  long as the manifests of the directories that do not count can be made sense of.
-/

namespace Report.Files

open PyData Fallible

variable {V : Type}

/-! ## The program -/

/-- A directory with a `manifest.json`, of which nothing is known before it is read: it need not be
JSON, or a dictionary, and its fields may be of any type. -/
structure CampaignPath (V : Type) where
  path : String
  name : String
  manifest : Except LoadError (ManifestDoc V)
  /-- What `.get` raises on a profile that is no dictionary. -/
  profileError : Option LoadError
  /-- What `load_campaign` raises on a field of the manifest that is of another type. -/
  fieldError : Option LoadError
  files : List (String × Except LoadError (ClientDoc V))

/-- A directory of results: its own campaign, when it has a manifest, and its entries, of which
those without a manifest are `none`; it has none if it is no directory. -/
structure Root (V : Type) where
  path : String
  own : Option (CampaignPath V)
  entries : Option (List (Option (CampaignPath V)))
  names_nodup : (((entries.getD []).filterMap id).map CampaignPath.name).Nodup

/-- `find_campaigns`, oldest first. -/
def findCampaigns (root : Root V) : List (CampaignPath V) :=
  match root.own with
  | some p => [p]
  | none =>
    match root.entries with
    | some entries => (entries.filterMap id).mergeSort fun p q => p.name ≤ q.name
    | none => []

/-- `manifest.get("campaign", path.name)`. -/
def Directory.campaignName (dir : Directory V) : String := dir.manifest.campaign.getD dir.name

/-- The manifest's profile is comparable, and it records no sampling. -/
def Directory.candidate (dir : Directory V) : Bool :=
  (dir.manifest.profile.bind ProfileDoc.comparable).getD false && !dir.manifest.sampling

/-- `json.loads((path / "manifest.json").read_text(...))`, with the directory it is read from. -/
def CampaignPath.read (p : CampaignPath V) : Except LoadError (Directory V) := do
  let manifest ← p.manifest
  return ⟨p.path, p.name, manifest, p.files⟩

/-- `load_campaign(path)`, which reads the manifest once more. -/
def CampaignPath.load (F : FloatText) (p : CampaignPath V) : Except LoadError (Campaign V) := do
  let dir ← p.read
  match p.fieldError with
  | some e => .error e
  | none => loadCampaign F dir

/-- The loop.  `loaded` is a record for the statements: the directories that were loaded. -/
structure Scan (V : Type) where
  chosen : Option (Campaign V)
  skipped : List String
  loaded : List (CampaignPath V)
  raised : Option LoadError

def Scan.start : Scan V := ⟨none, [], [], none⟩

/-- What `load_campaign` did. -/
def Scan.load (s : Scan V) (p : CampaignPath V) : Scan V := { s with loaded := s.loaded ++ [p] }

/-- The body of the loop; nothing follows an error. -/
def scanOne (F : FloatText) (name : Option String) (s : Scan V) (p : CampaignPath V) : Scan V :=
  if s.raised.isSome then s
  else
    match p.read with
    | .error e => { s with raised := some e }
    | .ok dir =>
      match name with
      | some name =>
        if dir.campaignName = name ∨ p.name = name then
          match p.load F with
          | .ok c => { s.load p with chosen := some c }
          | .error e => { s.load p with raised := some e }
        else s
      | none =>
        if s.chosen.isSome then { s with skipped := s.skipped ++ [dir.campaignName] }
        else
          match p.profileError with
          | some e => { s with raised := some e }
          | none =>
            if !dir.candidate then { s with skipped := s.skipped ++ [dir.campaignName] }
            else
              match p.load F with
              | .ok c =>
                if c.comparable then { s.load p with chosen := some c }
                else { s.load p with skipped := s.skipped ++ [c.name] }
              | .error e => { s.load p with raised := some e }

def scan (F : FloatText) (root : Root V) (name : Option String) : Scan V :=
  (findCampaigns root).reverse.foldl (scanOne F name) .start

/-- The campaign directories of a root: the root itself, or its entries with a manifest. -/
def Root.Holds (root : Root V) (p : CampaignPath V) : Prop :=
  root.own = some p ∨ root.own = none ∧ ∃ entries, root.entries = some entries ∧ some p ∈ entries

/-- All campaign directories of a root, each once, in the order of their names. -/
structure InNameOrder (root : Root V) (dirs : List (CampaignPath V)) : Prop where
  mem : ∀ p, p ∈ dirs ↔ root.Holds p
  ordered : dirs.Pairwise fun p q => p.name < q.name

/-- The manifest can be read, and is a dictionary. -/
def CampaignPath.Readable (p : CampaignPath V) : Prop := ∃ m, p.manifest = .ok m

/-- By its manifest, if it can be read, and its profile, if it is a dictionary, a directory may be
published. -/
def CampaignPath.candidate (p : CampaignPath V) : Bool :=
  match p.read, p.profileError with
  | .ok dir, none => dir.candidate
  | _, _ => false

/-- The name in the manifest, or else the directory's own. -/
def CampaignPath.campaignName (p : CampaignPath V) : String :=
  match p.read with
  | .ok dir => dir.campaignName
  | .error _ => p.name

/-- A candidate that loads, and contains no instrumented run. -/
structure Sound (F : FloatText) (p : CampaignPath V) (c : Campaign V) : Prop where
  candidate : p.candidate = true
  loads : p.load F = .ok c
  plain : ∀ x ∈ taggedRuns c.docs, "instrumented" ∉ x.2.flags.getD []

/-- A candidate that does not load. -/
structure Fails (F : FloatText) (p : CampaignPath V) (e : LoadError) : Prop where
  candidate : p.candidate = true
  raises : p.load F = .error e

/-- A search that comes to this directory ends with an error. -/
def Stops (F : FloatText) (p : CampaignPath V) : Prop :=
  ¬ p.Readable ∨ p.profileError ≠ none ∨ ∃ e, Fails F p e

/-- There is one list of them. -/
theorem InNameOrder.unique {root : Root V} {xs ys : List (CampaignPath V)}
    (hxs : InNameOrder root xs) (hys : InNameOrder root ys) : xs = ys := by
  have hnodup : ∀ {zs : List (CampaignPath V)}, (zs.Pairwise fun p q => p.name < q.name) →
      zs.Nodup := fun h => h.imp fun hlt heq => absurd (congrArg CampaignPath.name heq) hlt.ne
  have hperm := (List.perm_ext_iff_of_nodup (hnodup hxs.ordered) (hnodup hys.ordered)).2
    fun p => (hxs.mem p).trans (hys.mem p).symm
  exact hperm.eq_of_pairwise (fun p q _ _ hlt hgt => absurd hgt hlt.asymm) hxs.ordered hys.ordered

variable {F : FloatText}

/-! ## One directory -/

theorem loadCampaign_fields {dir : Directory V} {c : Campaign V} (h : loadCampaign F dir = .ok c) :
    c.name = dir.campaignName ∧ c.manifest = dir.manifest := by
  obtain ⟨docs, notes, known, points, items, -, -, -, -, -, -, rfl⟩ := loadCampaign_eq_ok.1 h
  exact ⟨rfl, rfl⟩

theorem CampaignPath.Readable.read_eq {p : CampaignPath V} (h : p.Readable) :
    ∃ dir, p.read = .ok dir ∧ p.campaignName = dir.campaignName := by
  obtain ⟨m, hm⟩ := h
  have hread : p.read = .ok ⟨p.path, p.name, m, p.files⟩ := by
    rw [CampaignPath.read, hm]
    rfl
  exact ⟨_, hread, by rw [CampaignPath.campaignName, hread]⟩

theorem CampaignPath.read_of_not_readable {p : CampaignPath V} (h : ¬ p.Readable) :
    ∃ e, p.read = .error e := by
  cases hm : p.manifest with
  | ok m => exact absurd ⟨m, hm⟩ h
  | error e =>
    refine ⟨e, ?_⟩
    rw [CampaignPath.read, hm]
    rfl

theorem CampaignPath.candidate_of_read {p : CampaignPath V} {dir : Directory V}
    (hread : p.read = .ok dir) (hprofile : p.profileError = none) :
    p.candidate = dir.candidate := by
  rw [CampaignPath.candidate, hread, hprofile]

/-- A candidate's manifest has been read, and its profile too. -/
theorem CampaignPath.readable_of_candidate {p : CampaignPath V} (h : p.candidate = true) :
    p.Readable ∧ p.profileError = none := by
  rw [CampaignPath.candidate] at h
  split at h
  · next dir hread hprofile =>
    refine ⟨?_, hprofile⟩
    by_contra hnot
    obtain ⟨e, he⟩ := CampaignPath.read_of_not_readable hnot
    rw [he] at hread
    cases hread
  · cases h

theorem CampaignPath.load_of_read {p : CampaignPath V} {dir : Directory V} {c : Campaign V}
    (hread : p.read = .ok dir) (h : p.load F = .ok c) : loadCampaign F dir = .ok c := by
  rw [CampaignPath.load, hread] at h
  change (match p.fieldError with
    | some e => Except.error e
    | none => loadCampaign F dir) = .ok c at h
  split at h
  · cases h
  · exact h

theorem comparable_iff {p : CampaignPath V} {c : Campaign V} (hp : p.candidate = true)
    (h : p.load F = .ok c) : c.comparable = true ↔ Sound F p c := by
  obtain ⟨hreadable, hprofile⟩ := CampaignPath.readable_of_candidate hp
  obtain ⟨dir, hdir, -⟩ := hreadable.read_eq
  have hcomparable : c.comparable =
      (dir.candidate && !(taggedRuns c.docs).any fun x => "instrumented" ∈ x.2.flags.getD []) := by
    rw [Campaign.comparable, (loadCampaign_fields (CampaignPath.load_of_read hdir h)).2]
    rfl
  rw [hcomparable, ← CampaignPath.candidate_of_read hdir hprofile, hp, Bool.true_and,
    Bool.not_eq_true', List.any_eq_false]
  exact ⟨fun hplain => ⟨hp, h, fun x hx => by simpa using hplain x hx⟩,
    fun hsound x hx => by simpa using hsound.plain x hx⟩

theorem scanOne_unreadable (name : Option String) {s : Scan V} (hraised : s.raised = none)
    {p : CampaignPath V} (h : ¬ p.Readable) :
    ∃ e, scanOne F name s p = { s with raised := some e } := by
  obtain ⟨e, he⟩ := CampaignPath.read_of_not_readable h
  exact ⟨e, by simp [scanOne, hraised, he]⟩

theorem scanOne_stops {s : Scan V} (hraised : s.raised = none) (hchosen : s.chosen = none)
    {p : CampaignPath V} (h : Stops F p) :
    ∃ e, scanOne F none s p =
      { s with raised := some e, loaded := s.loaded ++ [p].filter CampaignPath.candidate } := by
  by_cases hp : p.candidate = true
  · obtain ⟨hreadable, hprofile⟩ := CampaignPath.readable_of_candidate hp
    obtain ⟨dir, hdir, -⟩ := hreadable.read_eq
    have hcandidate := CampaignPath.candidate_of_read hdir hprofile
    obtain ⟨e, -, he⟩ := (h.resolve_left (not_not.2 hreadable)).resolve_left (not_not.2 hprofile)
    refine ⟨e, ?_⟩
    simp [scanOne, hraised, hchosen, hdir, hprofile, ← hcandidate, hp, he, Scan.load]
  · rw [List.filter_cons_of_neg hp, List.filter_nil, List.append_nil]
    by_cases hread : p.Readable
    · obtain hnot | hprofile | ⟨e, hfails⟩ := h
      · exact absurd hread hnot
      · obtain ⟨e, he⟩ := Option.ne_none_iff_exists'.1 hprofile
        obtain ⟨dir, hdir, -⟩ := hread.read_eq
        exact ⟨e, by simp [scanOne, hraised, hchosen, hdir, he]⟩
      · exact absurd hfails.candidate hp
    · exact scanOne_unreadable none hraised hread

theorem scanOne_skip {s : Scan V} (hraised : s.raised = none) (hchosen : s.chosen = none)
    {p : CampaignPath V} (hstops : ¬ Stops F p) (hsound : ∀ c, ¬ Sound F p c) :
    scanOne F none s p = { s with
      skipped := s.skipped ++ [p.campaignName]
      loaded := s.loaded ++ [p].filter CampaignPath.candidate } := by
  obtain ⟨hread, hprofile, hfails⟩ : p.Readable ∧ p.profileError = none ∧ ∀ e, ¬ Fails F p e := by
    simpa [Stops] using hstops
  obtain ⟨dir, hdir, hname⟩ := hread.read_eq
  have hcandidate := CampaignPath.candidate_of_read hdir hprofile
  by_cases hp : p.candidate = true
  · rw [List.filter_cons_of_pos hp, List.filter_nil]
    cases hload : p.load F with
    | error e => exact absurd ⟨hp, hload⟩ (hfails e)
    | ok c =>
      have hplain : ¬ c.comparable = true := fun hc => hsound c ((comparable_iff hp hload).1 hc)
      have hcname := (loadCampaign_fields (CampaignPath.load_of_read hdir hload)).1
      simp [scanOne, hraised, hchosen, hdir, hprofile, ← hcandidate, hp, hload, hplain, Scan.load,
        hcname, hname]
  · rw [List.filter_cons_of_neg hp, List.filter_nil, List.append_nil]
    simp [scanOne, hraised, hchosen, hdir, hprofile, ← hcandidate, hp, hname]

theorem scanOne_sound {s : Scan V} (hraised : s.raised = none) (hchosen : s.chosen = none)
    {p : CampaignPath V} {c : Campaign V} (h : Sound F p c) :
    scanOne F none s p = { s with chosen := some c, loaded := s.loaded ++ [p] } := by
  obtain ⟨hreadable, hprofile⟩ := CampaignPath.readable_of_candidate h.candidate
  obtain ⟨dir, hdir, -⟩ := hreadable.read_eq
  have hcandidate := CampaignPath.candidate_of_read hdir hprofile
  have hc := (comparable_iff h.candidate h.loads).2 h
  simp [scanOne, hraised, hchosen, hdir, hprofile, ← hcandidate, h.candidate, h.loads, hc,
    Scan.load]

theorem scanOne_chosen {s : Scan V} (hraised : s.raised = none) (hchosen : s.chosen.isSome = true)
    {p : CampaignPath V} (h : p.Readable) :
    scanOne F none s p = { s with skipped := s.skipped ++ [p.campaignName] } := by
  obtain ⟨dir, hdir, hname⟩ := h.read_eq
  simp [scanOne, hraised, hchosen, hdir, hname]

theorem scanOne_raised (name : Option String) {s : Scan V} (h : s.raised.isSome = true)
    (p : CampaignPath V) : scanOne F name s p = s := if_pos h

/-! ## The scan -/

/-- What has been loaded when the directories `done` have been gone through, newest first. -/
structure LoadedInv (F : FloatText) (done : List (CampaignPath V)) (s : Scan V) : Prop where
  /-- The search goes on while nothing sound has come. -/
  searching : s.raised = none → s.chosen = none → ∀ p ∈ done, ∀ c, ¬ Sound F p c
  loaded : ∀ p ∈ s.loaded, p.candidate = true ∧
    ∃ newer older, done = newer ++ p :: older ∧ ∀ q ∈ newer, ∀ c, ¬ Sound F q c

theorem LoadedInv.step {done : List (CampaignPath V)} {s : Scan V} (h : LoadedInv F done s)
    (p : CampaignPath V) : LoadedInv F (done ++ [p]) (scanOne F none s p) := by
  have hkept : ∀ q ∈ s.loaded, q.candidate = true ∧
      ∃ newer older, done ++ [p] = newer ++ q :: older ∧ ∀ x ∈ newer, ∀ c, ¬ Sound F x c := by
    intro q hq
    obtain ⟨hcandidate, newer, older, rfl, hnewer⟩ := h.loaded q hq
    exact ⟨hcandidate, newer, older ++ [p], by simp, hnewer⟩
  cases hraised : s.raised with
  | some e =>
    have hsome : s.raised.isSome = true := by rw [hraised]; rfl
    rw [scanOne_raised none hsome]
    exact ⟨fun hnone => absurd hnone (by rw [hraised]; exact Option.some_ne_none e), hkept⟩
  | none =>
    by_cases hread : p.Readable
    swap
    · obtain ⟨e, he⟩ := scanOne_unreadable (F := F) none hraised hread
      rw [he]
      exact ⟨fun hnone => absurd hnone (Option.some_ne_none e), hkept⟩
    cases hchosen : s.chosen with
    | some c =>
      have hsome : s.chosen.isSome = true := by rw [hchosen]; rfl
      rw [scanOne_chosen hraised hsome hread]
      exact ⟨fun _ hnone => absurd hnone (by simp [hchosen]), hkept⟩
    | none =>
      have hdone := h.searching hraised hchosen
      -- whatever is loaded now has nothing sound in front of it
      have hnow : ∀ q ∈ s.loaded ++ [p].filter CampaignPath.candidate, q.candidate = true ∧
          ∃ newer older, done ++ [p] = newer ++ q :: older ∧ ∀ x ∈ newer, ∀ c, ¬ Sound F x c := by
        intro q hq
        obtain hq | hq := List.mem_append.1 hq
        · exact hkept q hq
        · obtain ⟨hmem, hcandidate⟩ := List.mem_filter.1 hq
          obtain rfl := List.mem_singleton.1 hmem
          exact ⟨hcandidate, done, [], rfl, hdone⟩
      by_cases hstops : Stops F p
      · obtain ⟨e, he⟩ := scanOne_stops hraised hchosen hstops
        rw [he]
        exact ⟨fun hnone => absurd hnone (Option.some_ne_none e), hnow⟩
      by_cases hsound : ∃ c, Sound F p c
      · obtain ⟨c, hsound⟩ := hsound
        rw [List.filter_cons_of_pos hsound.candidate, List.filter_nil] at hnow
        rw [scanOne_sound hraised hchosen hsound]
        exact ⟨fun _ hnone => absurd hnone (Option.some_ne_none c), hnow⟩
      · have hplain : ∀ c, ¬ Sound F p c := fun c hc => hsound ⟨c, hc⟩
        rw [scanOne_skip hraised hchosen hstops hplain]
        refine ⟨fun _ _ q hq => ?_, hnow⟩
        obtain hq | hq := List.mem_append.1 hq
        · exact hdone q hq
        · obtain rfl := List.mem_singleton.1 hq
          exact hplain

theorem LoadedInv.run {done : List (CampaignPath V)} {s : Scan V} (h : LoadedInv F done s)
    (ps : List (CampaignPath V)) : LoadedInv F (done ++ ps) (ps.foldl (scanOne F none) s) := by
  induction ps generalizing done s with
  | nil => rwa [List.append_nil]
  | cons p ps ih =>
    have hrest := ih (h.step p)
    rwa [List.append_assoc, List.singleton_append] at hrest

section

variable {root : Root V} {before after : List (CampaignPath V)} {p : CampaignPath V}

end

end Report.Files

import MqttBench.Bench.Plan
import MqttBench.Bench.Provenance
import MqttBench.Report.Load

/-!
# What a campaign schedules

The keys of a plan against the pairs that are supported, the passes of `run_campaign` and
the number of runs that the report expects.

* `nodup_plan_iff` — a plan repeats a key exactly when a supported pair is repeated.
* `expectedRuns_eq` — what the report expects of a campaign that was just started.
* `schedules_once_iff` — **every supported run is scheduled once exactly when no supported
  pair is given twice and the number of runs is positive.**
-/

namespace Bench

open Report Traces

/-! ## Supported pairs -/

section Supported

variable (refusals : Refusals) (clients : List String)

/-- The supported pairs of a point. -/
def pairs (point : Point) : List (String × String) :=
  (able refusals clients point).map fun client => (point.name, client)

/-- The supported pairs, as often as they are given. -/
def supported (points : List Point) : List (String × String) :=
  points.flatMap (pairs refusals clients)

variable {refusals clients}

theorem mem_pairs {point : Point} {e : String × String} :
    e ∈ pairs refusals clients point ↔
      e.1 = point.name ∧ e.2 ∈ able refusals clients point := by
  obtain ⟨name, client⟩ := e
  simp only [pairs, List.mem_map, Prod.mk.injEq]
  constructor
  · rintro ⟨client', h, rfl, rfl⟩
    exact ⟨rfl, h⟩
  · rintro ⟨rfl, h⟩
    exact ⟨client, h, rfl, rfl⟩

theorem mem_pointPlan {runs : ℤ} {point : Point} {k : Key} :
    k ∈ pointPlan refusals clients runs point ↔
      (k.point, k.client) ∈ pairs refusals clients point ∧ k.run < runs.toNat := by
  obtain ⟨name, client, run⟩ := k
  simp only [pointPlan, block, List.mem_flatMap, List.mem_map, List.mem_range, List.mem_rotate,
    mem_pairs, Key.mk.injEq]
  constructor
  · rintro ⟨i, hi, client', h, rfl, rfl, rfl⟩
    exact ⟨⟨rfl, h⟩, hi⟩
  · rintro ⟨⟨rfl, h⟩, hi⟩
    exact ⟨run, hi, client, h, rfl, rfl, rfl⟩

theorem nodup_pairs_iff {point : Point} :
    (pairs refusals clients point).Nodup ↔ (able refusals clients point).Nodup :=
  List.nodup_map_iff fun _ _ h => (Prod.mk.inj h).2

theorem nodup_block_iff {point : Point} {i : ℕ} :
    (block refusals clients point i).Nodup ↔ (able refusals clients point).Nodup := by
  rw [block, List.nodup_map_iff fun _ _ h => (Key.mk.inj h).2.1, List.nodup_rotate]

/-- A point is planned without repetition when its clients are distinct. -/
theorem nodup_pointPlan_iff {runs : ℤ} (hruns : 1 ≤ runs) {point : Point} :
    (pointPlan refusals clients runs point).Nodup ↔ (pairs refusals clients point).Nodup := by
  rw [pointPlan, List.nodup_flatMap, nodup_pairs_iff]
  simp only [nodup_block_iff]
  constructor
  · rintro ⟨h, -⟩
    exact h 0 (List.mem_range.2 (by omega))
  · intro h
    refine ⟨fun i _ => h, List.nodup_range.imp ?_⟩
    intro i j hij k hk hk'
    obtain ⟨_, -, rfl⟩ := List.mem_map.1 hk
    obtain ⟨_, -, heq⟩ := List.mem_map.1 hk'
    exact hij (Key.mk.inj heq).2.2.symm

/-- Two points have a planned key in common when they have a pair in common. -/
theorem disjoint_pointPlan_iff {runs : ℤ} (hruns : 1 ≤ runs) {p q : Point} :
    (pointPlan refusals clients runs p).Disjoint (pointPlan refusals clients runs q) ↔
      (pairs refusals clients p).Disjoint (pairs refusals clients q) := by
  constructor
  · intro h e hp hq
    have hrun : (⟨e.1, e.2, 0⟩ : Key).run < runs.toNat := by
      change 0 < runs.toNat
      omega
    exact h (mem_pointPlan.2 ⟨hp, hrun⟩) (mem_pointPlan.2 ⟨hq, hrun⟩)
  · intro h k hp hq
    exact h (mem_pointPlan.1 hp).1 (mem_pointPlan.1 hq).1

/-- **A plan repeats a key exactly when a supported pair is repeated.** -/
theorem nodup_plan_iff {runs : ℤ} (hruns : 1 ≤ runs) (points : List Point) :
    (plan refusals points clients runs).Nodup ↔ (supported refusals clients points).Nodup := by
  have hdisjoint : Function.onFun List.Disjoint (pointPlan refusals clients runs) =
      Function.onFun List.Disjoint (pairs refusals clients) := by
    funext p q
    exact propext (disjoint_pointPlan_iff hruns)
  rw [plan_eq, supported, List.nodup_flatMap, List.nodup_flatMap, hdisjoint]
  simp only [nodup_pointPlan_iff hruns]

theorem plan_of_nonpos {runs : ℤ} (hruns : runs ≤ 0) (points : List Point) :
    plan refusals points clients runs = [] := by
  rw [plan_eq, List.flatMap_eq_nil_iff]
  intro point _
  rw [pointPlan, Int.toNat_of_nonpos hruns]
  rfl

theorem length_plan (points : List Point) (runs : ℤ) :
    (plan refusals points clients runs).length =
      runs.toNat * (supported refusals clients points).length := by
  have hpoint : ∀ point, (pointPlan refusals clients runs point).length =
      runs.toNat * (pairs refusals clients point).length := by
    intro point
    simp [pointPlan, block, pairs]
  rw [plan_eq, supported, List.length_flatMap, List.length_flatMap]
  simp only [hpoint, List.sum_map_mul_left]

end Supported

/-! ## The documents of a campaign -/

section Documents

variable {V : Type} {refusals : Refusals} {c : Call V}

/-- What the documents of a campaign hold: the planned clients, records of planned points,
and the refusals of the pairs that were gone through. -/
structure Documents (refusals : Refusals) (c : Call V) (gone : List (String × Point))
    (s : Store V) : Prop where
  clients : ∀ client ∈ s.docs.keys, client ∈ c.clients
  runs : ∀ r ∈ allRuns s.docs, r.point ∈ c.points.map Point.name
  refused : ∀ client name, (∃ u ∈ unsupported s.docs client, u.1 = name) ↔
    ∃ point, (client, point) ∈ gone ∧ point.name = name ∧ refusals client point ≠ []

theorem unsupported_insert (docs : AList fun _ : String => Doc V) (client : String) (d : Doc V)
    (client' : String) : unsupported (docs.insert client d) client' =
      if client' = client then d.unsupported else unsupported docs client' := by
  by_cases h : client' = client
  · subst h
    rw [if_pos rfl, unsupported, AList.lookup_insert]
  · rw [if_neg h, unsupported, AList.lookup_insert_ne h]
    rfl

theorem doc_unsupported (s : Store V) (version : String → String) (client : String) :
    (s.doc version client).unsupported = unsupported s.docs client := by
  rw [Store.doc, unsupported]
  cases s.docs.lookup client <;> rfl

/-- A record is in the documents when some client has it. -/
theorem mem_allRuns {docs : AList fun _ : String => Doc V} {r : Record V} :
    r ∈ allRuns docs ↔ ∃ client, r ∈ Store.runs ⟨docs⟩ client := by
  simp only [allRuns, List.mem_flatMap, Store.runs]
  constructor
  · rintro ⟨⟨client, d⟩, hd, hr⟩
    refine ⟨client, ?_⟩
    rw [AList.mem_lookup_iff.2 hd]
    exact hr
  · rintro ⟨client, hr⟩
    cases hd : docs.lookup client with
    | none =>
      rw [hd] at hr
      cases hr
    | some d =>
      rw [hd] at hr
      exact ⟨⟨client, d⟩, AList.mem_lookup_iff.1 hd, hr⟩

theorem documents_nil : Documents refusals c [] (⟨∅⟩ : Store V) where
  clients client h := by simp at h
  runs r h := by simp [allRuns] at h
  refused client name := by simp [unsupported]

/-- A pair that is not refused adds nothing to what is listed. -/
theorem Documents.able {gone : List (String × Point)} {s : Store V}
    (h : Documents refusals c gone s) {client : String} {point : Point}
    (hable : refusals client point = []) : Documents refusals c (gone ++ [(client, point)]) s where
  clients := h.clients
  runs := h.runs
  refused client' name := by
    rw [h.refused]
    constructor
    · rintro ⟨p, hp, hname⟩
      exact ⟨p, List.mem_append_left _ hp, hname⟩
    · rintro ⟨p, hp, hname, hne⟩
      rcases List.mem_append.1 hp with hp | hp
      · exact ⟨p, hp, hname, hne⟩
      · obtain ⟨rfl, rfl⟩ := Prod.mk.inj (List.mem_singleton.1 hp)
        exact absurd hable hne

/-- A refused pair is listed, once. -/
theorem Documents.addUnsupported {gone : List (String × Point)} {s : Store V}
    (h : Documents refusals c gone s) {client : String} {point : Point}
    (hclient : client ∈ c.clients) (hne : refusals client point ≠ []) :
    Documents refusals c (gone ++ [(client, point)])
      (s.addUnsupported c.version client point.name (refusals client point)).1 := by
  have hgone : ∀ client' name,
      (∃ p, (client', p) ∈ gone ++ [(client, point)] ∧ p.name = name ∧ refusals client' p ≠ []) ↔
        (∃ p, (client', p) ∈ gone ∧ p.name = name ∧ refusals client' p ≠ []) ∨
          client' = client ∧ point.name = name := by
    intro client' name
    constructor
    · rintro ⟨p, hp, hname, hp'⟩
      rcases List.mem_append.1 hp with hp | hp
      · exact .inl ⟨p, hp, hname, hp'⟩
      · obtain ⟨rfl, rfl⟩ := Prod.mk.inj (List.mem_singleton.1 hp)
        exact .inr ⟨rfl, hname⟩
    · rintro (⟨p, hp, hname, hp'⟩ | ⟨rfl, hname⟩)
      · exact ⟨p, List.mem_append_left _ hp, hname, hp'⟩
      · exact ⟨point, List.mem_append_right _ (List.mem_singleton.2 rfl), hname, hne⟩
  unfold Store.addUnsupported
  simp only [doc_unsupported]
  by_cases hnew : ((unsupported s.docs client).all fun u => decide (u.1 ≠ point.name)) = true
  · rw [if_pos hnew]
    exact
      { clients := by
          intro client' hmem
          rw [← AList.mem_keys, AList.mem_insert] at hmem
          rcases hmem with rfl | hmem
          · exact hclient
          · exact h.clients client' (AList.mem_keys.1 hmem)
        runs := by
          intro r hr
          obtain ⟨client', hr⟩ := mem_allRuns.1 hr
          rw [runs_refuse] at hr
          exact h.runs r (mem_allRuns.2 ⟨client', hr⟩)
        refused := by
          intro client' name
          rw [hgone, ← h.refused, unsupported_insert]
          by_cases hsame : client' = client
          · subst hsame
            rw [if_pos rfl, Doc.refuse, doc_unsupported]
            simp [or_and_right, exists_or]
          · simp [hsame] }
  · rw [if_neg hnew]
    refine ⟨h.clients, h.runs, fun client' name => ?_⟩
    rw [hgone, ← h.refused, iff_self_or]
    rintro ⟨rfl, rfl⟩
    simpa using hnew

theorem documents_addRefused (pairs : List (String × Point)) {gone : List (String × Point)}
    {s : Store V} (h : Documents refusals c gone s) (hpairs : ∀ e ∈ pairs, e.1 ∈ c.clients) :
    Documents refusals c (gone ++ pairs) (addRefused refusals c.version pairs s).1 := by
  induction pairs generalizing gone s with
  | nil =>
    rw [List.append_nil]
    exact h
  | cons e pairs ih =>
    obtain ⟨client, point⟩ := e
    obtain ⟨hclient, hpairs⟩ := List.forall_mem_cons.1 hpairs
    have hcons : gone ++ (client, point) :: pairs = gone ++ [(client, point)] ++ pairs := by simp
    rw [addRefused, hcons]
    simp only
    by_cases hable : (refusals client point).isEmpty = true
    · rw [if_pos hable]
      exact ih (h.able (List.isEmpty_iff.1 hable)) hpairs
    · rw [if_neg hable]
      exact ih (h.addUnsupported hclient (mt List.isEmpty_iff.2 hable)) hpairs

/-- A record of a planned key lists no refusal. -/
theorem Documents.add {gone : List (String × Point)} {s : Store V}
    (h : Documents refusals c gone s) {k : Key} (hk : k ∈ c.order refusals)
    (identity : Option V) {r : Record V} (hr : r.point = k.point) :
    Documents refusals c gone (s.add c.version k.client identity r).1 := by
  obtain ⟨point, hpoint, hname, hclient, -⟩ := mem_plan.1 hk
  exact
    { clients := by
        intro client hmem
        rw [Store.add, ← AList.mem_keys, AList.mem_insert] at hmem
        rcases hmem with rfl | hmem
        · exact hclient
        · exact h.clients client (AList.mem_keys.1 hmem)
      runs := by
        intro r' hr'
        obtain ⟨client, hr'⟩ := mem_allRuns.1 hr'
        have hadd : r' ∈ s.runs client ++ if client = k.client then [r] else [] :=
          runs_add s c.version k.client identity r client ▸ hr'
        rcases List.mem_append.1 hadd with hold | hnew
        · exact h.runs r' (mem_allRuns.2 ⟨client, hold⟩)
        · split at hnew
          · rw [List.mem_singleton.1 hnew, hr, ← hname]
            exact List.mem_map_of_mem hpoint
          · cases hnew
      refused := by
        intro client name
        rw [← h.refused, Store.add, unsupported_insert]
        by_cases hsame : client = k.client
        · subst hsame
          rw [if_pos rfl]
          simp only [doc_unsupported]
        · rw [if_neg hsame] }

theorem documents_runTodo {gone : List (String × Point)} {under : Settings V}
    {session attempt : ℕ} (keys : List Key) (hkeys : ∀ k ∈ keys, k ∈ c.order refusals)
    {s : Store V} (h : Documents refusals c gone s) :
    Documents refusals c gone (runTodo c under session attempt keys s).1 := by
  induction keys generalizing s with
  | nil => exact h
  | cons k keys ih =>
    obtain ⟨hk, hkeys⟩ := List.forall_mem_cons.1 hkeys
    exact ih hkeys (h.add hk _ rfl)

theorem documents_runPasses {gone : List (String × Point)} {under : Settings V} {session : ℕ}
    (attempts : List ℕ) {s : Store V} (h : Documents refusals c gone s) :
    Documents refusals c gone
      (runPasses c under session (c.order refusals) attempts s).1 := by
  induction attempts generalizing s with
  | nil => exact h
  | cons attempt attempts ih =>
    exact ih (documents_runTodo _ (fun k hk => (List.mem_filter.1 hk).1) h)

/-- What the calls leave, after the refused pairs are listed. -/
theorem documents_runOrder {gone : List (String × Point)} {frozen : Frozen → V} {m : Manifest V}
    (hmatch : m.Matches (c.settings frozen)) {s : Store V} (h : Documents refusals c gone s) :
    Documents refusals c gone ⟨((runOrder c (c.settings frozen) (c.order refusals) m s).foldl
      Dir.commit ⟨some m, s.docs⟩).docs⟩ := by
  unfold runOrder
  split
  · split
    · exact h
    · exact h
  · have hsessions : (m.addSession c.session).sessions ≠ [] := by simp [Manifest.addSession]
    have hfold := (along_runPasses refusals c frozen (hmatch.addSession c.session) hsessions
      (List.range maxAttempts) ⟨some (m.addSession c.session), s.docs⟩ rfl).2
    have hsaves : runSession c (c.settings frozen) (c.order refusals) m s =
        .manifest (m.addSession c.session) ::
          ((runPasses c (c.settings frozen) ((m.addSession c.session).sessions.length - 1)
            (c.order refusals) (List.range maxAttempts) s).2 ++
              [.manifest ((m.addSession c.session).finish c.finishedAt)]) := rfl
    rw [hsaves, List.foldl_cons, List.foldl_append]
    change Documents refusals c gone ⟨(List.foldl Dir.commit
      ((runPasses c (c.settings frozen) ((m.addSession c.session).sessions.length - 1)
        (c.order refusals) (List.range maxAttempts) s).2.foldl Dir.commit
          ⟨some (m.addSession c.session), s.docs⟩) _).docs⟩
    have hstore : (⟨some (m.addSession c.session), s.docs⟩ : Dir V).store = s := rfl
    rw [hstore] at hfold
    rw [hfold]
    have hpasses : Documents refusals c gone (runPasses c (c.settings frozen)
        ((m.addSession c.session).sessions.length - 1) (c.order refusals)
          (List.range maxAttempts) s).1 := documents_runPasses _ h
    exact hpasses

/-- The pairs that a call goes through. -/
def Call.pairs (c : Call V) : List (String × Point) :=
  c.points.flatMap fun point => c.clients.map fun client => (client, point)

/-- **The documents of a campaign that was just started.** -/
theorem documents_writeCampaign (refusals : Refusals) (c : Call V) (frozen : Frozen → V) :
    Documents refusals c c.pairs
      ⟨((writeCampaign refusals c frozen ⟨none, ∅⟩).foldl Dir.commit ⟨none, ∅⟩).docs⟩ := by
  have hpairs : ∀ e ∈ c.pairs, e.1 ∈ c.clients := by
    rintro ⟨client, point⟩ he
    obtain ⟨_, -, he⟩ := List.mem_flatMap.1 he
    obtain ⟨_, hclient, heq⟩ := List.mem_map.1 he
    obtain ⟨rfl, -⟩ := Prod.mk.inj heq
    exact hclient
  have hnil : Documents refusals c [] ⟨∅⟩ := documents_nil
  have hrefused := documents_addRefused c.pairs hnil hpairs
  have hmatch := matches_newManifest c frozen
  have hfold := (along_addRefused refusals c frozen c.pairs ⟨some (newManifest c frozen), ∅⟩ rfl
    hmatch).2
  have hsaves : writeCampaign refusals c frozen ⟨none, ∅⟩ =
      .manifest (newManifest c frozen) :: ((addRefused refusals c.version c.pairs ⟨∅⟩).2 ++
        runOrder c (c.settings frozen) (c.order refusals) (newManifest c frozen)
          (addRefused refusals c.version c.pairs ⟨∅⟩).1) := rfl
  have hstore : (⟨some (newManifest c frozen), ∅⟩ : Dir V).store = ⟨∅⟩ := rfl
  rw [hstore] at hfold
  rw [hsaves, List.foldl_cons, List.foldl_append]
  change Documents refusals c c.pairs ⟨(List.foldl Dir.commit
    ((addRefused refusals c.version c.pairs ⟨∅⟩).2.foldl Dir.commit
      ⟨some (newManifest c frozen), ∅⟩) _).docs⟩
  rw [hfold]
  exact documents_runOrder hmatch hrefused

end Documents

/-! ## What the report expects -/

section Expected

variable {V : Type} [DecidableEq V] {refusals : Refusals} {c : Call V}

omit [DecidableEq V] in
theorem mem_callPairs {client : String} {point : Point} :
    (client, point) ∈ c.pairs ↔ point ∈ c.points ∧ client ∈ c.clients := by
  simp only [Call.pairs, List.mem_flatMap, List.mem_map, Prod.mk.injEq]
  constructor
  · rintro ⟨point', hpoint, client', hclient, rfl, rfl⟩
    exact ⟨hpoint, hclient⟩
  · rintro ⟨hpoint, hclient⟩
    exact ⟨point, hpoint, client, hclient, rfl, rfl⟩

/-- **What the report expects of a campaign that was just started**: of each point the
distinct clients that support it, each as often as the manifest says. -/
theorem expectedRuns_eq (hnames : ∀ p ∈ c.points, ∀ q ∈ c.points, p.name = q.name → p = q)
    {saves : List (Save V)} (hrun : runCampaign refusals c ⟨none, ∅⟩ = .ok saves) :
    ∃ m, (saves.foldl Dir.commit ⟨none, ∅⟩).manifest = some m ∧
      (load m (saves.foldl Dir.commit ⟨none, ∅⟩).docs).expectedRuns =
        (supported refusals c.clients.eraseDups c.points).length *
          if c.runsPerPoint = 0 then 1 else c.runsPerPoint := by
  obtain ⟨frozen, -, haccepts, rfl⟩ := (runCampaign_ok_iff refusals c).1 hrun
  obtain ⟨m, hm, hmatch⟩ : ∃ m, ((writeCampaign refusals c frozen ⟨none, ∅⟩).foldl Dir.commit
      ⟨none, ∅⟩).manifest = some m ∧ m.Matches (c.settings frozen) := by
    have halong := (along_writeCampaign refusals c frozen haccepts).1
    have hstart : SaveStep refusals c frozen ⟨none, ∅⟩ (.manifest (newManifest c frozen)) :=
      .start rfl rfl
    have hkeeps := (show Along Dir.commit (SaveStep refusals c frozen) ⟨none, ∅⟩
      (.manifest (newManifest c frozen) :: _) from halong).2.foldl
        (I := fun dir => ∃ m, dir.manifest = some m ∧ m.Matches (c.settings frozen))
        ⟨_, rfl, matches_newManifest c frozen⟩ fun dir save _ hs => by
          obtain ⟨m', hm', hmatch', -⟩ := hs.matches
          exact ⟨m', hm', hmatch'⟩
    exact hkeeps
  refine ⟨m, hm, ?_⟩
  have hdocs := documents_writeCampaign refusals c frozen
  generalize ((writeCampaign refusals c frozen ⟨none, ∅⟩).foldl Dir.commit ⟨none, ∅⟩).docs
    = docs at hdocs ⊢
  have hpointNames : m.points.map pointName = c.points.map Point.name := by
    rw [hmatch.points, List.map_map]
    exact List.map_congr_left fun p _ => pointName_asDict p
  have hclients : m.clients.map Prod.fst = c.clients.eraseDups := hmatch.clients
  have hpoints : (load m docs).points = c.points.map Point.name := by
    rw [points_load fun r hr => hpointNames ▸ hdocs.runs r hr, hpointNames]
  have hall : (load m docs).clients = c.clients.eraseDups := by
    rw [clients_load fun client h => hclients ▸ List.mem_eraseDups.2 (hdocs.clients client h),
      hclients]
  have hcell : ∀ point ∈ c.points, ∀ client ∈ c.clients.eraseDups,
      ((load m docs).cell point.name client).unsupported.isNone =
        (refusals client point).isEmpty := by
    intro point hpoint client hclient
    rw [Bool.eq_iff_iff, cell_isNone_iff, List.isEmpty_iff]
    have hlisted := hdocs.refused client point.name
    constructor
    · intro hnone
      by_contra hne
      obtain ⟨u, hu, hname⟩ := hlisted.2
        ⟨point, mem_callPairs.2 ⟨hpoint, List.mem_eraseDups.1 hclient⟩, rfl, hne⟩
      exact hnone u hu hname
    · intro hable u hu hname
      obtain ⟨p, hp, hpname, hne⟩ := hlisted.1 ⟨u, hu, hname⟩
      rw [hnames p (mem_callPairs.1 hp).1 point hpoint hpname] at hne
      exact hne hable
  have hcount : ∀ point ∈ c.points,
      (load m docs).clients.countP (fun client =>
        ((load m docs).cell point.name client).unsupported.isNone) =
      (pairs refusals c.clients.eraseDups point).length := by
    intro point hpoint
    rw [hall, pairs, List.length_map, able, ← List.countP_eq_length_filter]
    exact List.countP_congr fun client hclient => by rw [hcell point hpoint client hclient]
  rw [Campaign.expectedRuns, hpoints, List.map_map, supported, List.length_flatMap]
  congr 1
  · exact congrArg _ (congrArg _ (List.map_congr_left hcount))
  · change (if m.runsPerPoint = 0 then 1 else m.runsPerPoint) = _
    rw [hmatch.runs]
    rfl

/-- Without repetition, the report's clients are the campaign's. -/
theorem length_supported_eraseDups {clients : List String} {points : List Point}
    (h : (supported refusals clients points).Nodup) :
    (supported refusals clients.eraseDups points).length =
      (supported refusals clients points).length := by
  rw [supported, supported, List.length_flatMap, List.length_flatMap]
  refine congrArg _ (List.map_congr_left fun point hpoint => ?_)
  have hable : (able refusals clients point).Nodup :=
    nodup_pairs_iff.1 ((List.nodup_flatMap.1 h).1 point hpoint)
  have hdistinct : (able refusals clients.eraseDups point).Nodup :=
    (nodup_eraseDups clients).filter _
  have hperm : (able refusals clients.eraseDups point).Perm (able refusals clients point) := by
    rw [List.perm_ext_iff_of_nodup hdistinct hable]
    simp [able, List.mem_eraseDups]
  rw [pairs, pairs, List.length_map, List.length_map, hperm.length_eq]

theorem supported_eraseDups_eq_nil {clients : List String} {points : List Point} :
    supported refusals clients.eraseDups points = [] ↔ supported refusals clients points = [] := by
  simp [supported, pairs, able, List.flatMap_eq_nil_iff, List.mem_eraseDups]

end Expected

/-! ## Once -/

/-- A campaign schedules every supported run once. -/
structure SchedulesOnce {V : Type} [DecidableEq V] (refusals : Refusals) (c : Call V) : Prop where
  nodup : (c.order refusals).Nodup
  mem_iff : ∀ k, k ∈ c.order refusals ↔ ∃ point ∈ c.points,
    point.name = k.point ∧ k.client ∈ c.clients ∧ refusals k.client point = [] ∧
      (k.run : ℤ) < c.runsPerPoint
  /-- When the turn of a key comes in a pass, no record of it is other than invalid. -/
  pass : ∀ (under : Settings V) (session attempt : ℕ) (s : Store V) (before : List Key) (k : Key)
    (after : List Key), todo (c.order refusals) attempt s = before ++ k :: after →
      ∀ r ∈ (runTodo c under session attempt before s).1.attempts k, r.status = .invalid
  /-- The report of the campaign expects as many runs as are planned. -/
  expected : ∀ saves, runCampaign refusals c ⟨none, ∅⟩ = .ok saves →
    ∀ m, (saves.foldl Dir.commit ⟨none, ∅⟩).manifest = some m →
      (load m (saves.foldl Dir.commit ⟨none, ∅⟩).docs).expectedRuns =
        ((c.order refusals).length : ℤ)

/-- Of a plan without repetition, no pass runs a key after a record that is not invalid. -/
theorem pass_of_nodup {V : Type} {refusals : Refusals} {c : Call V}
    (h : (c.order refusals).Nodup) (under : Settings V) (session attempt : ℕ) (s : Store V)
    (before : List Key) (k : Key) (after : List Key)
    (htodo : todo (c.order refusals) attempt s = before ++ k :: after) :
    ∀ r ∈ (runTodo c under session attempt before s).1.attempts k, r.status = .invalid := by
  have hnodup : (before ++ k :: after).Nodup := htodo ▸ h.filter _
  have hfirst : k ∉ before := by
    intro hk
    exact (List.nodup_append.1 hnodup).2.2 k hk k List.mem_cons_self rfl
  have hk : k ∈ todo (c.order refusals) attempt s := htodo ▸ by simp
  have hdone : s.done k = false := by
    have := (List.mem_filter.1 hk).2
    simp only [Bool.and_eq_true, Bool.not_eq_true'] at this
    exact this.1
  intro r hr
  rw [attempts_runTodo, List.count_eq_zero.2 hfirst, List.replicate_zero, List.append_nil] at hr
  by_contra hvalid
  have hdone' := (done_iff s k).2 (.inl ⟨r, hr, hvalid⟩)
  rw [hdone] at hdone'
  cases hdone'

/-- **A campaign schedules every supported run once exactly when no supported pair is given
twice and the number of runs is positive**, or nothing is supported at all. -/
theorem schedules_once_iff {V : Type} [DecidableEq V] (refusals : Refusals) (catalogue : List Point)
    (hcatalogue : (catalogue.map Point.name).Nodup) (c : Call V)
    (hpoints : ∀ p ∈ c.points, p ∈ catalogue) (frozen : Frozen → V)
    (hfrozen : c.frozen = .ok frozen) :
    SchedulesOnce refusals c ↔ (supported refusals c.clients c.points).Nodup ∧
      (1 ≤ c.runsPerPoint ∨ supported refusals c.clients c.points = []) := by
  have hnames : ∀ p ∈ c.points, ∀ q ∈ c.points, p.name = q.name → p = q := by
    intro p hp q hq hname
    exact List.inj_on_of_nodup_map hcatalogue (hpoints p hp) (hpoints q hq) hname
  obtain ⟨saves, hrun⟩ : ∃ saves, runCampaign refusals c ⟨none, ∅⟩ = .ok saves :=
    ⟨_, (runCampaign_ok_iff refusals c).2 ⟨frozen, hfrozen, .inl ⟨rfl, rfl⟩, rfl⟩⟩
  obtain ⟨m, hm, hexpected⟩ := expectedRuns_eq hnames hrun
  have hlength : (plan refusals c.points c.clients c.runsPerPoint).length =
      c.runsPerPoint.toNat * (supported refusals c.clients c.points).length :=
    length_plan c.points c.runsPerPoint
  constructor
  · intro h
    have htotal := h.expected saves hrun m hm
    rw [hexpected, Call.order, hlength] at htotal
    rcases le_or_gt 1 c.runsPerPoint with hruns | hruns
    · exact ⟨(nodup_plan_iff hruns c.points).1 h.nodup, .inl hruns⟩
    · -- Nothing is planned, so nothing is expected.
      rw [Int.toNat_of_nonpos (by omega), Nat.zero_mul, Nat.cast_zero, mul_eq_zero] at htotal
      have hnone : supported refusals c.clients c.points = [] := by
        rw [← supported_eraseDups_eq_nil, ← List.length_eq_zero_iff]
        rcases htotal with hzero | hzero
        · exact_mod_cast hzero
        · split at hzero <;> omega
      exact ⟨hnone ▸ List.nodup_nil, .inr hnone⟩
  · rintro ⟨hnodup, hruns⟩
    have horder : (c.order refusals).Nodup := by
      rcases le_or_gt 1 c.runsPerPoint with hpos | hneg
      · exact (nodup_plan_iff hpos c.points).2 hnodup
      · rw [Call.order, plan_of_nonpos (by omega)]
        exact List.nodup_nil
    refine ⟨horder, ?_, pass_of_nodup horder, ?_⟩
    · intro k
      rw [Call.order, mem_plan]
      simp only [List.isEmpty_iff, Int.lt_toNat]
    · intro saves' hrun' m' hm'
      obtain rfl := Except.ok.inj (hrun.symm.trans hrun')
      obtain rfl := Option.some.inj (hm.symm.trans hm')
      rw [hexpected, length_supported_eraseDups hnodup, Call.order, hlength]
      rcases hruns with hpos | hnone
      · rw [if_neg (by omega), Nat.cast_mul, Int.toNat_of_nonneg (by omega), mul_comm]
      · simp [hnone]

/-- Two clients at one point, each for two runs. -/
def twoClients : Call Unit where
  name := "example"
  points := [{ name := "pub_qos0_max", kind := .pub, question := "" }]
  clients := ["paho", "gmqtt"]
  profile := ⟨"smoke", 1 / 2, 2, 1, 1, false⟩
  runs := some 2
  frozen := .ok fun _ => ()
  version := fun _ => "1.0"
  session := ()
  outcome := fun _ _ => ⟨.valid, none⟩
  startedAt := ""
  finishedAt := ""

theorem schedules_once_two_clients : SchedulesOnce (fun _ _ => []) twoClients :=
  (schedules_once_iff (fun _ _ => []) twoClients.points (by decide) twoClients (fun _ h => h)
    (fun _ => ()) rfl).2 ⟨by decide, .inl (by decide)⟩

/-- The same client twice: both of its keys are planned twice. -/
theorem not_schedules_once_repeated :
    ¬ SchedulesOnce (fun _ _ => []) { twoClients with clients := ["paho", "paho"] } := by
  intro h
  exact absurd h.nodup (by decide)

end Bench

import MqttBench.Report.Files

/-!
# The runs of a report

What `load_campaign` makes of the runs of the client files: each is in one cell, where it is the
final one of its index or a retried one.

* `finalAttempts_perm`, `lastMax_of_mem_final` — `_final_attempts`.
* `announce_eq_ok` — every run has its point.
* `Partitioned` — each run is in one cell, in one of its lists.
-/

namespace Report.Files

open PyData Fallible Grouping

variable {V : Type}

/-! ## What the files hold -/

namespace Directory

/-- The documents that could be read. -/
def docs (dir : Directory V) : List (ClientDoc V) := dir.files.filterMap fun f => f.2.toOption

/-- The records of all files. -/
def records (dir : Directory V) : List (RunDoc V) := dir.docs.flatMap ClientDoc.runList

/-- The records of a point and a client, in the order in which they were written. -/
def recordsOf (dir : Directory V) (name client : String) : List (RunDoc V) :=
  (dir.docs.filter fun d => d.client = some client).flatMap fun d =>
    d.runList.filter fun r => r.pointName = some name

end Directory

/-! ## The attempts of one cell -/

theorem foldl_append_singleton {α : Type} (xs ys : List α) :
    xs.foldl (fun attempts r => attempts ++ [r]) ys = ys ++ xs := by
  induction xs generalizing ys with
  | nil => simp
  | cons x xs ih => rw [List.foldl_cons, ih, List.append_assoc, List.singleton_append]

theorem get_byIndex (runs : List (RunDoc V)) (i : ℤ) : Dicts.get (byIndex runs) i =
    if ∃ r ∈ runs, r.index = i then some (runs.filter fun r => r.index = i) else none := by
  rw [byIndex, Dicts.get_gather]
  split
  · rw [foldl_append_singleton, List.nil_append]
  · rfl

theorem attemptsAt_eq (runs : List (RunDoc V)) (i : ℤ) : attemptsAt runs i =
    (runs.filter fun r => r.index = i).mergeSort fun a b => a.attemptNo ≤ b.attemptNo := by
  rw [attemptsAt, get_byIndex]
  split
  · rfl
  · next hnone =>
    have hnil : runs.filter (fun r => r.index = i) = [] := by
      rw [List.filter_eq_nil_iff]
      exact fun r hr => by simpa using fun heq => hnone ⟨r, hr, heq⟩
    rw [hnil]
    rfl

theorem attemptsAt_perm (runs : List (RunDoc V)) (i : ℤ) :
    (attemptsAt runs i).Perm (runs.filter fun r => r.index = i) := by
  rw [attemptsAt_eq]
  exact List.mergeSort_perm _ _

theorem index_of_mem_attemptsAt {runs : List (RunDoc V)} {i : ℤ} {r : RunDoc V}
    (h : r ∈ attemptsAt runs i) : r.index = i := by
  have hr := (attemptsAt_perm runs i).mem_iff.1 h
  exact of_decide_eq_true (List.mem_filter.1 hr).2

theorem mem_indices {runs : List (RunDoc V)} {i : ℤ} :
    i ∈ indices runs ↔ ∃ r ∈ runs, r.index = i := by
  rw [indices, List.mem_mergeSort, byIndex, Dicts.mem_keys_gather]

theorem indices_nodup (runs : List (RunDoc V)) : (indices runs).Nodup :=
  (List.mergeSort_perm _ _).nodup_iff.2 (Dicts.nodup_keys_gather _ _ _ _)

theorem indices_sorted (runs : List (RunDoc V)) : (indices runs).Pairwise (· < ·) := by
  have hle : (indices runs).Pairwise (· ≤ ·) := sorted_mergeSort id _
  exact hle.imp₂ (fun _ _ hle hne => lt_of_le_of_ne hle hne) (indices_nodup runs)

/-- An index has attempts, the last of which is kept. -/
theorem getLast?_attemptsAt {runs : List (RunDoc V)} {i : ℤ} (h : i ∈ indices runs) :
    ∃ r, (attemptsAt runs i).getLast? = some r ∧ r.index = i := by
  obtain ⟨r, hr, hi⟩ := mem_indices.1 h
  have hmem : r ∈ attemptsAt runs i :=
    (attemptsAt_perm runs i).mem_iff.2 (List.mem_filter.2 ⟨hr, decide_eq_true hi⟩)
  have hne := List.ne_nil_of_mem hmem
  exact ⟨_, List.getLast?_eq_some_getLast hne, index_of_mem_attemptsAt (List.getLast_mem hne)⟩

/-- **The final attempts and the retried ones are the runs.** -/
theorem finalAttempts_perm (runs : List (RunDoc V)) :
    ((finalAttempts runs).1 ++ (finalAttempts runs).2).Perm runs := by
  have hsplit : ∀ i, ((attemptsAt runs i).getLast?.toList ++ (attemptsAt runs i).dropLast).Perm
      (runs.filter fun r => r.index = i) := by
    intro i
    refine (List.perm_append_comm.trans (.of_eq ?_)).trans (attemptsAt_perm runs i)
    cases hlast : (attemptsAt runs i).getLast? with
    | none => rw [List.getLast?_eq_none_iff.1 hlast]; rfl
    | some r =>
      obtain ⟨front, heq⟩ := List.getLast?_eq_some_iff.1 hlast
      rw [heq, List.dropLast_concat]
      rfl
  refine (List.flatMap_append_perm _ _ _).trans ?_
  refine (List.Perm.flatMap_left _ fun i _ => hsplit i).trans ?_
  exact flatMap_filter_perm (indices_nodup runs) fun r hr => mem_indices.2 ⟨r, hr, rfl⟩

/-- One final attempt for each index, in their order. -/
theorem map_index_final (runs : List (RunDoc V)) :
    (finalAttempts runs).1.map RunDoc.index = indices runs := by
  have hall : ∀ xs : List ℤ, (∀ i ∈ xs, i ∈ indices runs) →
      (xs.flatMap fun i => (attemptsAt runs i).getLast?.toList).map RunDoc.index = xs := by
    intro xs hxs
    induction xs with
    | nil => rfl
    | cons i xs ih =>
      obtain ⟨hi, hrest⟩ := List.forall_mem_cons.1 hxs
      obtain ⟨r, hr, hindex⟩ := getLast?_attemptsAt hi
      rw [List.flatMap_cons, List.map_append, ih hrest, hr]
      exact List.cons_eq_cons.2 ⟨hindex, rfl⟩
  exact hall _ fun _ => id

/-- **A final attempt is the last of the greatest of its index.** -/
theorem lastMax_of_mem_final {runs : List (RunDoc V)} {r : RunDoc V}
    (h : r ∈ (finalAttempts runs).1) :
    LastMax RunDoc.attemptNo (runs.filter fun x => x.index = r.index) r := by
  obtain ⟨i, -, hr⟩ := List.mem_flatMap.1 h
  have hlast := Option.mem_toList.1 hr
  have hindex := index_of_mem_attemptsAt (List.mem_of_getLast? hlast)
  rw [hindex]
  rw [attemptsAt_eq] at hlast
  exact lastMax_of_mergeSort RunDoc.attemptNo hlast

/-! ## The documents -/

theorem require_eq_ok {α : Type} {key : String} {o : Option α} {a : α} :
    require key o = .ok a ↔ o = some a := by
  cases o with
  | none => exact ⟨nofun, nofun⟩
  | some b => exact ⟨fun h => congrArg some (Except.ok.inj h), fun h => congrArg _ (Option.some.inj h)⟩

theorem readDoc_eq_ok {f : String × Except LoadError (ClientDoc V)} {d : String × ClientDoc V}
    (h : readDoc f = .ok d) : f.2.toOption = some d.2 ∧ d.2.client = some d.1 := by
  obtain ⟨doc, hdoc, hrest⟩ := bind_eq_ok.1 h
  obtain ⟨client, hclient, hpair⟩ := bind_eq_ok.1 hrest
  obtain rfl := Except.ok.inj hpair
  rw [hdoc]
  exact ⟨rfl, require_eq_ok.1 hclient⟩

theorem each_readDoc {files : List (String × Except LoadError (ClientDoc V))} {items : Docs V}
    (h : each readDoc files = .ok items) :
    items.map Prod.snd = files.filterMap (fun f => f.2.toOption) ∧
      ∀ d ∈ items, d.2.client = some d.1 := by
  have hall := each_eq_ok.1 h
  clear h
  induction hall with
  | nil => exact ⟨rfl, nofun⟩
  | cons hf _ ih =>
    obtain ⟨hdoc, hclient⟩ := readDoc_eq_ok hf
    refine ⟨?_, List.forall_mem_cons.2 ⟨hclient, ih.2⟩⟩
    simp only [List.filterMap_cons, hdoc]
    rw [← ih.1, List.map_cons]

/-- What was read: where no client comes twice, the documents of the files, each under its
client. -/
structure ReadFrom (dir : Directory V) (docs : Docs V) : Prop where
  perm : (docs.map Prod.snd).Perm dir.docs
  client : ∀ d ∈ docs, d.2.client = some d.1
  nodup : (docs.map Prod.fst).Nodup

theorem readDocs_eq_ok {dir : Directory V} {docs : Docs V}
    (hclients : (dir.docs.map ClientDoc.client).Nodup) (h : readDocs dir.files = .ok docs) :
    ReadFrom dir docs := by
  obtain ⟨items, hitems, hdocs⟩ := bind_eq_ok.1 h
  obtain ⟨hsnd, hclient⟩ := each_readDoc hitems
  have hperm : (items.map Prod.snd).Perm dir.docs := by
    rw [hsnd]
    exact (List.mergeSort_perm dir.files _).filterMap _
  have hkeys : items.map (fun d => some d.1) = (items.map Prod.snd).map ClientDoc.client := by
    rw [List.map_map]
    exact List.map_congr_left fun d hd => (hclient d hd).symm
  have hnodup : (items.map Prod.fst).Nodup := by
    have hsome : (items.map fun d => some d.1).Nodup := by
      rw [hkeys]
      exact (hperm.map _).nodup_iff.2 hclients
    exact List.Nodup.of_map some (by rwa [List.map_map])
  have hsame : docs = items :=
    (Except.ok.inj hdocs).symm.trans (Dicts.ofItems_of_nodup hnodup)
  rw [hsame]
  exact ⟨hperm, hclient, hnodup⟩

/-- The runs of one document, of a point and a client. -/
theorem filter_tagged (d : String × ClientDoc V) (name client : String) :
    ((d.2.runList.map fun r => (d.1, r)).filter fun x =>
        (x.2.pointName, x.1) = (some name, client)).map Prod.snd =
      if d.1 = client then d.2.runList.filter fun r => r.pointName = some name else [] := by
  rw [List.filter_map, List.map_map]
  split
  · next h => simp [Function.comp_def, h]
  · next h => simp [Function.comp_def, h]

/-- The tagged runs of a point and a client are those of its document. -/
theorem filter_taggedRuns {docs : Docs V} (hdocs : (docs.map Prod.fst).Nodup)
    (name client : String) :
    ((taggedRuns docs).filter fun x => (x.2.pointName, x.1) = (some name, client)).map Prod.snd =
      runsOf docs name client := by
  induction docs with
  | nil => rfl
  | cons d docs ih =>
    obtain ⟨hnot, hrest⟩ := List.nodup_cons.1 (show (d.1 :: docs.map Prod.fst).Nodup from hdocs)
    rw [taggedRuns, List.flatMap_cons, List.filter_append, List.map_append, filter_tagged]
    rw [show docs.flatMap _ = taggedRuns docs from rfl, ih hrest, runsOf, runsOf, docOf, docOf,
      Dicts.get_cons]
    split
    · next h =>
      rw [Dicts.get_eq_none_iff.2 (h ▸ hnot)]
      simp [ClientDoc.runList]
    · rfl

/-- The runs of a point and a client are the records of the files. -/
theorem ReadFrom.runsOf {dir : Directory V} {docs : Docs V} (h : ReadFrom dir docs)
    (name client : String) : runsOf docs name client = dir.recordsOf name client := by
  have hkey : (docs.map Prod.snd).filter (fun d => d.client = some client) =
      (Dicts.get docs client).toList := by
    have hsame : docs.filter (fun d => d.2.client = some client) =
        docs.filter fun d => d.1 = client := by
      refine List.filter_congr fun d hd => ?_
      rw [h.client d hd]
      simp
    rw [List.filter_map, Function.comp_def, hsame, Dicts.filter_key h.nodup, List.map_map]
    simp [Function.comp_def]
  have hperm := (h.perm.filter fun d => d.client = some client).symm
  rw [hkey] at hperm
  rw [Directory.recordsOf, Files.runsOf, docOf]
  cases hget : Dicts.get docs client with
  | none =>
    rw [hget] at hperm
    rw [List.Perm.eq_nil hperm]
    rfl
  | some d =>
    rw [hget] at hperm
    rw [List.perm_singleton.1 hperm, List.flatMap_singleton]
    rfl

/-- The tagged runs are the records of the files. -/
theorem ReadFrom.records {dir : Directory V} {docs : Docs V} (h : ReadFrom dir docs) :
    ((taggedRuns docs).map Prod.snd).Perm dir.records := by
  have hsnd : (taggedRuns docs).map Prod.snd = (docs.map Prod.snd).flatMap ClientDoc.runList := by
    rw [taggedRuns, List.map_flatMap, List.flatMap_map]
    exact List.flatMap_congr fun d _ => by simp [Function.comp_def]
  rw [hsnd]
  exact h.perm.flatMap_right _

/-! ## Points and cells -/

/-- **Every run has its point**, and the points of the manifest come first. -/
theorem announce_eq_ok {runs : List (RunDoc V)} {points points' : List (PointDoc V)}
    {known : List String} (h : announce points known runs = .ok points')
    (hknown : points.map PointDoc.name = known.map some) :
    ∃ known', points'.map PointDoc.name = known'.map some ∧ (known.Nodup → known'.Nodup) ∧
      known <+: known' ∧ ∀ r ∈ runs, ∃ n ∈ known', r.pointName = some n := by
  induction runs generalizing points known with
  | nil => exact ⟨known, Except.ok.inj h ▸ hknown, id, List.prefix_rfl, nofun⟩
  | cons r runs ih =>
    obtain ⟨point, hpoint, hrest⟩ := bind_eq_ok.1 h
    obtain ⟨name, hname, hrest⟩ := bind_eq_ok.1 hrest
    have hself : r.pointName = some name := by
      rw [RunDoc.pointName, require_eq_ok.1 hpoint]
      exact require_eq_ok.1 hname
    split at hrest
    · next hmem =>
      obtain ⟨known', hnames, hnodup, hprefix, hruns⟩ := ih hrest hknown
      exact ⟨known', hnames, hnodup, hprefix,
        List.forall_mem_cons.2 ⟨⟨name, hprefix.subset hmem, hself⟩, hruns⟩⟩
    · next hnot =>
      have hmore : (points ++ [point]).map PointDoc.name = (known ++ [name]).map some := by
        rw [List.map_append, List.map_append, hknown]
        exact congrArg _ (congrArg (· :: []) (require_eq_ok.1 hname))
      obtain ⟨known', hnames, hnodup, hprefix, hruns⟩ := ih hrest hmore
      refine ⟨known', hnames, fun hknown => hnodup ?_, (List.prefix_append _ _).trans hprefix,
        List.forall_mem_cons.2 ⟨⟨name, hprefix.subset (by simp), hself⟩, hruns⟩⟩
      rw [← List.concat_eq_append]
      exact List.Nodup.concat hnot hknown

/-- A cell holds the attempts of its point and its client. -/
structure Holds (docs : Docs V) (x : (String × String) × Cell V) : Prop where
  runs : x.2.runs = (finalAttempts (runsOf docs x.1.1 x.1.2)).1
  retried : x.2.retried = (finalAttempts (runsOf docs x.1.1 x.1.2)).2

theorem cellOf_eq_ok {docs : Docs V} {x : PointDoc V × String} {item : (String × String) × Cell V}
    (h : cellOf docs x = .ok item) :
    (x.1.name, x.2) = (some item.1.1, item.1.2) ∧ Holds docs item := by
  obtain ⟨name, hname, hrest⟩ := bind_eq_ok.1 h
  obtain ⟨reasons, -, hitem⟩ := bind_eq_ok.1 hrest
  obtain rfl := Except.ok.inj hitem
  exact ⟨Prod.ext (require_eq_ok.1 hname) rfl, ⟨rfl, rfl⟩⟩

theorem each_cellOf {docs : Docs V} {xs : List (PointDoc V × String)}
    {items : List ((String × String) × Cell V)} (h : each (cellOf docs) xs = .ok items) :
    xs.map (fun x => (x.1.name, x.2)) = items.map (fun item => (some item.1.1, item.1.2)) ∧
      ∀ item ∈ items, Holds docs item := by
  have hall := each_eq_ok.1 h
  clear h
  induction hall with
  | nil => exact ⟨rfl, nofun⟩
  | cons hx _ ih =>
    obtain ⟨hkey, hholds⟩ := cellOf_eq_ok hx
    exact ⟨List.cons_eq_cons.2 ⟨hkey, ih.1⟩, List.forall_mem_cons.2 ⟨hholds, ih.2⟩⟩

/-- The keys of the cells, one for each name and client. -/
def pairs (names clients : List String) : List (String × String) :=
  names.flatMap fun name => clients.map fun client => (name, client)

theorem mem_pairs {names clients : List String} {k : String × String} :
    k ∈ pairs names clients ↔ k.1 ∈ names ∧ k.2 ∈ clients := by
  obtain ⟨name, client⟩ := k
  simp [pairs]

theorem pairs_nodup {names clients : List String} (hnames : names.Nodup) (hclients : clients.Nodup) :
    (pairs names clients).Nodup := hnames.product hclients

theorem keys_items {points : List (PointDoc V)} {names clients : List String}
    {items : List ((String × String) × Cell V)}
    (hnames : points.map PointDoc.name = names.map some)
    (h : (points.flatMap fun p => clients.map fun c => (p, c)).map (fun x => (x.1.name, x.2)) =
      items.map fun item => (some item.1.1, item.1.2)) :
    items.map Prod.fst = pairs names clients := by
  have hinj : Function.Injective fun k : String × String => (some k.1, k.2) := by
    rintro ⟨a, b⟩ ⟨c, d⟩ h
    simpa using h
  refine hinj.list_map ?_
  have hleft : (points.flatMap fun p => clients.map fun c => (p, c)).map
      (fun x => (x.1.name, x.2)) =
        (points.map PointDoc.name).flatMap fun name => clients.map fun c => (name, c) := by
    simp [List.map_flatMap, List.flatMap_map, Function.comp_def]
  rw [List.map_map, Function.comp_def, ← h, hleft, hnames, pairs]
  simp [List.map_flatMap, List.flatMap_map, Function.comp_def]

theorem map_name_of_each {points : List (PointDoc V)} {known : List String}
    (h : each (fun p => require "name" p.name) points = .ok known) :
    points.map PointDoc.name = known.map some := by
  have hall := each_eq_ok.1 h
  clear h
  induction hall with
  | nil => rfl
  | cons hp _ ih => exact List.cons_eq_cons.2 ⟨require_eq_ok.1 hp, ih⟩

/-- What a loaded campaign is made of: the documents, and the names of its points. -/
structure Loaded (dir : Directory V) (c : Campaign V) (names : List String) : Prop where
  read : ReadFrom dir c.docs
  manifest : c.manifest = dir.manifest
  points : c.points.map PointDoc.name = names.map some
  announced : ((dir.manifest.pointList.map PointDoc.name).Nodup → names.Nodup)
  known : ∀ x ∈ taggedRuns c.docs, ∃ n ∈ names, x.2.pointName = some n
  clients : c.clients = clientsOf dir.manifest c.docs
  cells : ∃ items, c.cells = Dicts.ofItems items ∧ items.map Prod.fst = pairs names c.clients ∧
    ∀ x ∈ items, Holds c.docs x

theorem loadCampaign_loaded {F : FloatText} {dir : Directory V} {c : Campaign V}
    (hclients : (dir.docs.map ClientDoc.client).Nodup) (h : loadCampaign F dir = .ok c) :
    ∃ names, Loaded dir c names := by
  obtain ⟨docs, notes, known, points, items, hdocs, -, -, hknown, hpoints, hitems, rfl⟩ :=
    loadCampaign_eq_ok.1 h
  have hfirst := map_name_of_each hknown
  obtain ⟨names, hnames, hnodup, -, hruns⟩ := announce_eq_ok hpoints hfirst
  obtain ⟨hkeys, hholds⟩ := each_cellOf hitems
  refine ⟨names, readDocs_eq_ok hclients hdocs, rfl, hnames, fun hdistinct => hnodup ?_,
    fun x hx => hruns x.2 (List.mem_map_of_mem hx), rfl, items, rfl, keys_items hnames hkeys, hholds⟩
  rw [hfirst] at hdistinct
  exact hdistinct.of_map some

/-! ## Each run in one cell -/

/-- **Each record is in one cell, in one of its lists**, and the cell keeps for each index the
last of the greatest attempts. -/
structure Partitioned (dir : Directory V) (c : Campaign V) : Prop where
  keys : (c.cells.map Prod.fst).Nodup
  all : (c.cells.flatMap fun x => x.2.runs ++ x.2.retried).Perm dir.records
  each : ∀ x ∈ c.cells, (x.2.runs ++ x.2.retried).Perm (dir.recordsOf x.1.1 x.1.2)
  order : ∀ x ∈ c.cells, (x.2.runs.map RunDoc.index).Pairwise (· < ·)
  index : ∀ x ∈ c.cells, ∀ i, i ∈ x.2.runs.map RunDoc.index ↔
    ∃ r ∈ dir.recordsOf x.1.1 x.1.2, r.index = i
  last : ∀ x ∈ c.cells, ∀ r ∈ x.2.runs, LastMax RunDoc.attemptNo
    ((dir.recordsOf x.1.1 x.1.2).filter fun y => y.index = r.index) r

section

variable {dir : Directory V} {c : Campaign V} {names : List String}

theorem Loaded.holds (h : Loaded dir c names) : ∀ x ∈ c.cells, Holds c.docs x := by
  obtain ⟨items, hcells, -, hholds⟩ := h.cells
  intro x hx
  rw [hcells] at hx
  exact hholds x (Dicts.mem_of_mem_ofItems hx)

theorem Loaded.mem_keys (h : Loaded dir c names) {k : String × String} :
    k ∈ c.cells.map Prod.fst ↔ k.1 ∈ names ∧ k.2 ∈ c.clients := by
  obtain ⟨items, hcells, hkeys, -⟩ := h.cells
  rw [hcells, Dicts.mem_keys_ofItems, hkeys, mem_pairs]

theorem Loaded.nodup_keys (h : Loaded dir c names) : (c.cells.map Prod.fst).Nodup := by
  obtain ⟨items, hcells, -, -⟩ := h.cells
  rw [hcells]
  exact Dicts.nodup_keys_ofItems items

/-- A client that has a document has its cells. -/
theorem Loaded.client_mem (h : Loaded dir c names) {x : String × RunDoc V}
    (hx : x ∈ taggedRuns c.docs) : x.1 ∈ c.clients := by
  obtain ⟨d, hd, hx⟩ := List.mem_flatMap.1 hx
  obtain ⟨r, -, rfl⟩ := List.mem_map.1 hx
  rw [h.clients, clientsOf, List.mem_append, List.mem_filter]
  by_cases hc : d.1 ∈ dir.manifest.clientList
  · exact .inl hc
  · exact .inr ⟨List.mem_map_of_mem hd, by simpa using hc⟩

/-- **The cells hold the runs, each once.** -/
theorem Loaded.perm (h : Loaded dir c names) :
    (c.cells.flatMap fun x => x.2.runs ++ x.2.retried).Perm dir.records := by
  have hcells : (c.cells.flatMap fun x => x.2.runs ++ x.2.retried).Perm
      ((c.cells.map Prod.fst).flatMap fun k => runsOf c.docs k.1 k.2) := by
    rw [List.flatMap_map]
    refine List.Perm.flatMap_left _ fun x hx => ?_
    rw [(h.holds x hx).runs, (h.holds x hx).retried]
    exact finalAttempts_perm _
  have hkeys : ((c.cells.map Prod.fst).map fun k => (some k.1, k.2)).Nodup := by
    refine h.nodup_keys.map ?_
    rintro ⟨a, b⟩ ⟨c, d⟩ heq
    simpa using heq
  have hcover : ∀ x ∈ taggedRuns c.docs,
      (x.2.pointName, x.1) ∈ (c.cells.map Prod.fst).map fun k => (some k.1, k.2) := by
    intro x hx
    obtain ⟨name, hname, hpoint⟩ := h.known x hx
    rw [hpoint]
    exact List.mem_map.2 ⟨(name, x.1), h.mem_keys.2 ⟨hname, h.client_mem hx⟩, rfl⟩
  have hgroups := (flatMap_filter_perm hkeys hcover).map Prod.snd
  rw [List.map_flatMap, List.flatMap_map] at hgroups
  simp only [filter_taggedRuns h.read.nodup] at hgroups
  exact hcells.trans (hgroups.trans h.read.records)

theorem Loaded.partitioned (h : Loaded dir c names) : Partitioned dir c := by
  refine ⟨h.nodup_keys, h.perm, fun x hx => ?_, fun x hx => ?_, fun x hx i => ?_, fun x hx r hr => ?_⟩
  · rw [(h.holds x hx).runs, (h.holds x hx).retried, ← h.read.runsOf]
    exact finalAttempts_perm _
  · rw [(h.holds x hx).runs, map_index_final]
    exact indices_sorted _
  · rw [(h.holds x hx).runs, map_index_final, ← h.read.runsOf]
    exact mem_indices
  · rw [(h.holds x hx).runs] at hr
    rw [← h.read.runsOf]
    exact lastMax_of_mem_final hr

end

end Report.Files

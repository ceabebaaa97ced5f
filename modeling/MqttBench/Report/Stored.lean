import MqttBench.Report.Load
import MqttBench.Report.Cells

/-!
# The files of a store

The documents that `bench/campaign.py` saves, as `report/data.py` reads them.  `load` takes such
a directory for granted: every point and run has its name, and the runs agree on their interpreter.

* `runDoc`, `clientDoc`, `docsOf` — what is saved; `readDocs_files` — and read.
* `finalAttempts_map` — `_final_attempts`, on saved runs.
* `loadCampaign_stored` — **what `loadCampaign` makes of the files of a store is what `load`
  makes of the store.**
-/

namespace Report.Files

open Bench Fallible Grouping PyData

variable {V : Type}

/-! ## What is saved -/

/-- What a point or a run holds besides: a run is a record. -/
abbrev Rest (V : Type) := Option (Record V)

/-- A point of the manifest. -/
def pointDoc (p : List (String × Value)) : PointDoc (Rest V) :=
  match p.lookup "name" with
  | some (.str name) => ⟨some name, none⟩
  | _ => ⟨none, none⟩

def refusalDoc (u : String × List String) : RefusalDoc := ⟨some u.1, some u.2⟩

section

variable (worker : Record V → Option WorkerDoc) (flags : Record V → Option (List String))

/-- A record, with what it tells of its interpreter and its flags. -/
def runDoc (r : Record V) : RunDoc (Rest V) where
  point := some ⟨some r.point, none⟩
  runIndex := some r.runIndex
  attempt := some r.attempt
  worker := worker r
  flags := flags r
  rest := some r

def clientDoc (client : String) (d : Doc V) : ClientDoc (Rest V) :=
  ⟨some client, some (d.runs.map (runDoc worker flags)), some (d.unsupported.map refusalDoc)⟩

def docsOf (docs : AList fun _ : String => Doc V) : Docs (Rest V) :=
  docs.entries.map fun e => (e.1, clientDoc worker flags e.1 e.2)

/-- The file of a client. -/
def fileOf (e : Sigma fun _ : String => Doc V) :
    String × Except LoadError (ClientDoc (Rest V)) :=
  (e.1 ++ ".json", .ok (clientDoc worker flags e.1 e.2))

/-- A directory with the manifest and the documents of a store. -/
structure Stores (dir : Directory (Rest V)) (m : Manifest V)
    (docs : AList fun _ : String => Doc V) : Prop where
  points : dir.manifest.points = some (m.points.map pointDoc)
  named : ∀ p ∈ m.points, ∃ name, p.lookup "name" = some (.str name)
  clients : dir.manifest.clients = some (m.clients.map Prod.fst)
  runs : dir.manifest.runsPerPoint = some m.runsPerPoint
  files : readDocs dir.files = .ok (docsOf worker flags docs)

/-- A campaign as read and the campaign of the store. -/
structure Agrees (c : Campaign (Rest V)) (stored : Report.Campaign V) : Prop where
  points : c.points.map PointDoc.name = stored.points.map some
  clients : c.clients = stored.clients
  runs : c.manifest.runsPerPoint = some stored.manifest.runsPerPoint
  cell : ∀ point ∈ stored.points, ∀ client ∈ stored.clients,
    ∃ x, Dicts.get c.cells (point, client) = some x ∧
      x.runs = (stored.cell point client).runs.map (runDoc worker flags) ∧
      x.retried = (stored.cell point client).retried.map (runDoc worker flags) ∧
      x.unsupported = (stored.cell point client).unsupported

end

section

variable {worker : Record V → Option WorkerDoc} {flags : Record V → Option (List String)}

/-- The files are read in the order of their names. -/
theorem readDocs_files {docs : AList fun _ : String => Doc V}
    (h : docs.entries.Pairwise fun d e => d.1 ++ ".json" ≤ e.1 ++ ".json") :
    readDocs (docs.entries.map (fileOf worker flags)) = .ok (docsOf worker flags docs) := by
  have hsorted : (docs.entries.map (fileOf worker flags)).mergeSort (fun f g => f.1 ≤ g.1) =
      docs.entries.map (fileOf worker flags) :=
    List.mergeSort_of_pairwise (List.pairwise_map.2 (h.imp fun hle => decide_eq_true hle))
  have hread : each readDoc (docs.entries.map (fileOf worker flags)) =
      .ok (docsOf worker flags docs) := by
    rw [each_eq_ok, docsOf, List.forall₂_map_left_iff, List.forall₂_map_right_iff,
      List.forall₂_same]
    exact fun _ _ => rfl
  have hnodup : ((docsOf worker flags docs).map Prod.fst).Nodup := by
    rw [docsOf, List.map_map]
    exact docs.nodupKeys
  rw [readDocs, hsorted, hread]
  exact congrArg Except.ok (Dicts.ofItems_of_nodup hnodup)

/-! ## The attempts of a cell -/

theorem attemptsAt_map (runs : List (Record V)) (i : ℕ) :
    attemptsAt (runs.map (runDoc worker flags)) (i : ℤ) =
      (sortedAttempts runs i).map (runDoc worker flags) := by
  have hindex : (runs.map (runDoc worker flags)).filter (fun r => r.index = (i : ℤ)) =
      (Report.byIndex runs i).map (runDoc worker flags) := by
    rw [List.filter_map, Report.byIndex]
    refine congrArg _ (List.filter_congr fun r _ => ?_)
    exact decide_eq_decide.2 Nat.cast_inj
  rw [attemptsAt_eq, hindex, sortedAttempts]
  refine (List.map_mergeSort fun a _ b _ => ?_).symm
  exact decide_eq_decide.2 Nat.cast_le.symm

theorem indices_map (runs : List (Record V)) :
    indices (runs.map (runDoc worker flags)) = (Report.indices runs).map Nat.cast := by
  have hsame : (indices (runs.map (runDoc worker flags))).Perm
      ((Report.indices runs).map (Nat.cast : ℕ → ℤ)) := by
    rw [List.perm_ext_iff_of_nodup (indices_nodup _)
      ((Report.indices_nodup runs).map Nat.cast_injective)]
    intro i
    rw [mem_indices, List.mem_map]
    constructor
    · rintro ⟨_, hrun, hi⟩
      obtain ⟨r, hr, rfl⟩ := List.mem_map.1 hrun
      refine ⟨r.runIndex, ?_, hi⟩
      rw [Report.indices, List.mem_mergeSort, List.mem_eraseDups]
      exact List.mem_map_of_mem hr
    · rintro ⟨i, hi, rfl⟩
      rw [Report.indices, List.mem_mergeSort, List.mem_eraseDups] at hi
      obtain ⟨r, hr, rfl⟩ := List.mem_map.1 hi
      exact ⟨_, List.mem_map_of_mem hr, rfl⟩
  have hsorted : ((Report.indices runs).map (Nat.cast : ℕ → ℤ)).Pairwise (· ≤ ·) :=
    List.pairwise_map.2 ((sorted_mergeSort id _).imp fun h => Nat.cast_le.2 h)
  exact hsame.eq_of_pairwise (fun _ _ _ _ => le_antisymm)
    ((indices_sorted _).imp fun h => h.le) hsorted

/-- **The final attempts of saved runs.** -/
theorem finalAttempts_map (runs : List (Record V)) :
    finalAttempts (runs.map (runDoc worker flags)) =
      ((Report.finalAttempts runs).1.map (runDoc worker flags),
        (Report.finalAttempts runs).2.map (runDoc worker flags)) := by
  simp only [finalAttempts, Report.finalAttempts, indices_map, List.flatMap_map, attemptsAt_map,
    List.map_flatMap, List.getLast?_map, List.map_dropLast, Option.toList_map]

/-! ## Points and cells -/

theorem name_pointDoc {p : List (String × Value)} (h : ∃ name, p.lookup "name" = some (.str name)) :
    (pointDoc p : PointDoc (Rest V)).name = some (Report.pointName p) := by
  obtain ⟨name, hname⟩ := h
  rw [pointDoc, Report.pointName, hname]

/-- Saved runs have their points. -/
theorem announce_map (runs : List (Record V)) {points : List (PointDoc (Rest V))}
    {known : List String} (h : points.map PointDoc.name = known.map some) :
    ∃ points', announce points known (runs.map (runDoc worker flags)) = .ok points' ∧
      points'.map PointDoc.name = (runs.foldl addPoint known).map some := by
  induction runs generalizing points known with
  | nil => exact ⟨points, rfl, h⟩
  | cons r runs ih =>
    rw [List.foldl_cons, addPoint]
    by_cases hmem : r.point ∈ known
    · obtain ⟨points', hok, hnames⟩ := ih h
      refine ⟨points', ?_, by rwa [if_pos hmem]⟩
      rw [← hok]
      exact if_pos hmem
    · have hmore : (points ++ [(⟨some r.point, none⟩ : PointDoc (Rest V))]).map PointDoc.name =
          (known ++ [r.point]).map some := by
        rw [List.map_append, List.map_append, h]
        rfl
      obtain ⟨points', hok, hnames⟩ := ih hmore
      refine ⟨points', ?_, by rwa [if_neg hmem]⟩
      rw [← hok]
      exact if_neg hmem

theorem refused_map (name : String) (entries : List (String × List String)) :
    refused name (entries.map refusalDoc) =
      .ok ((entries.find? fun u => u.1 = name).map Prod.snd) := by
  induction entries with
  | nil => rfl
  | cons u us ih =>
    by_cases h : u.1 = name
    · rw [List.find?_cons_of_pos (by simpa using h)]
      exact if_pos h
    · rw [List.find?_cons_of_neg (by simpa using h), ← ih]
      exact if_neg h

theorem get_docsOf (docs : AList fun _ : String => Doc V) (client : String) :
    Dicts.get (docsOf worker flags docs) client =
      (docs.lookup client).map (clientDoc worker flags client) := by
  rw [docsOf, AList.lookup]
  induction docs.entries with
  | nil => rfl
  | cons e entries ih =>
    rw [List.map_cons, Dicts.get_cons, ih]
    by_cases h : e.1 = client
    · subst h
      rw [if_pos rfl, List.dlookup_cons_eq, Option.map_some]
    · rw [if_neg h, List.dlookup_cons_ne _ _ (Ne.symm h)]

theorem runsOf_docsOf (docs : AList fun _ : String => Doc V) (name client : String) :
    runsOf (docsOf worker flags docs) name client =
      ((Store.runs ⟨docs⟩ client).filter fun r => r.point = name).map (runDoc worker flags) := by
  rw [runsOf, docOf, get_docsOf, Store.runs]
  cases docs.lookup client with
  | none => rfl
  | some d =>
    change (d.runs.map (runDoc worker flags)).filter _ = _
    rw [List.filter_map]
    refine congrArg _ (List.filter_congr fun r _ => ?_)
    exact decide_eq_decide.2 Option.some_inj

theorem refused_docOf (docs : AList fun _ : String => Doc V) (name client : String) :
    refused name ((docOf (docsOf worker flags docs) client).unsupported.getD []) =
      .ok (((unsupported docs client).find? fun u => u.1 = name).map Prod.snd) := by
  rw [docOf, get_docsOf, unsupported, ← refused_map]
  cases docs.lookup client <;> rfl

/-! ## The campaign -/

section

variable {dir : Directory (Rest V)} {m : Manifest V} {docs : AList fun _ : String => Doc V}

theorem Stores.pointList (h : Stores worker flags dir m docs) :
    dir.manifest.pointList = m.points.map pointDoc := by
  rw [ManifestDoc.pointList, h.points]
  rfl

theorem Stores.known (h : Stores worker flags dir m docs) :
    each (fun p => require "name" p.name) dir.manifest.pointList =
      .ok (m.points.map Report.pointName) := by
  rw [h.pointList, each_eq_ok, List.forall₂_map_left_iff, List.forall₂_map_right_iff,
    List.forall₂_same]
  intro p hp
  rw [name_pointDoc (h.named p hp)]
  rfl

theorem Stores.clientsOf (h : Stores worker flags dir m docs) :
    clientsOf dir.manifest (docsOf worker flags docs) = (load m docs).clients := by
  have hkeys : (docsOf worker flags docs).map Prod.fst = docs.keys := by
    rw [docsOf, List.map_map]
    rfl
  rw [Files.clientsOf, hkeys, ManifestDoc.clientList, h.clients]
  rfl

theorem map_taggedRuns (docs : AList fun _ : String => Doc V) :
    (taggedRuns (docsOf worker flags docs)).map Prod.snd =
      (allRuns docs).map (runDoc worker flags) := by
  rw [taggedRuns, docsOf, allRuns, List.flatMap_map, List.map_flatMap, List.map_flatMap]
  refine List.flatMap_congr fun e _ => ?_
  rw [List.map_map]
  exact List.map_id' _

/-- The cell of a point and a client, as read. -/
def cellFor (worker : Record V → Option WorkerDoc) (flags : Record V → Option (List String))
    (stored : Report.Campaign V) (x : PointDoc (Rest V) × String) :
    (String × String) × Cell (Rest V) :=
  let name := x.1.name.getD ""
  ((name, x.2), ⟨x.1, x.2, (stored.cell name x.2).runs.map (runDoc worker flags),
    (stored.cell name x.2).retried.map (runDoc worker flags), (stored.cell name x.2).unsupported⟩)

theorem cellOf_docsOf (m : Manifest V) {x : PointDoc (Rest V) × String} {name : String}
    (h : x.1.name = some name) :
    cellOf (docsOf worker flags docs) x = .ok (cellFor worker flags (load m docs) x) := by
  refine bind_eq_ok.2 ⟨name, by rw [h]; rfl, bind_eq_ok.2 ⟨_, refused_docOf docs name x.2, ?_⟩⟩
  rw [runsOf_docsOf, finalAttempts_map, cellFor, h]
  rfl

/-- The cells as read, under their keys. -/
theorem get_cellFor {points : List (PointDoc (Rest V))} {names clients : List String}
    (hnames : points.map PointDoc.name = names.map some) (stored : Report.Campaign V)
    {name client : String} (hname : name ∈ names) (hclient : client ∈ clients) :
    ∃ x, Dicts.get (Dicts.ofItems ((points.flatMap fun p => clients.map fun c => (p, c)).map
        (cellFor worker flags stored))) (name, client) = some x ∧
      x.runs = (stored.cell name client).runs.map (runDoc worker flags) ∧
      x.retried = (stored.cell name client).retried.map (runDoc worker flags) ∧
      x.unsupported = (stored.cell name client).unsupported := by
  have hsome : some name ∈ points.map PointDoc.name := hnames ▸ List.mem_map_of_mem hname
  obtain ⟨p, hp, hpname⟩ := List.mem_map.1 hsome
  have hitem : cellFor worker flags stored (p, client) ∈
      (points.flatMap fun p => clients.map fun c => (p, c)).map (cellFor worker flags stored) :=
    List.mem_map_of_mem (List.mem_flatMap.2 ⟨p, hp, List.mem_map_of_mem hclient⟩)
  have hkey : (cellFor worker flags stored (p, client)).1 = (name, client) := by
    rw [cellFor, hpname]
    rfl
  have hmem := Dicts.mem_keys_ofItems.2 (List.mem_map_of_mem (f := Prod.fst) hitem)
  rw [hkey] at hmem
  obtain ⟨x, hx⟩ := Option.ne_none_iff_exists'.1 (mt Dicts.get_eq_none_iff.1 (not_not.2 hmem))
  refine ⟨x, hx, ?_⟩
  -- a later point of the same name has the same runs
  obtain ⟨y, -, hy⟩ := List.mem_map.1 (Dicts.mem_of_mem_ofItems (Dicts.mem_of_get hx))
  obtain ⟨hkeys, rfl⟩ := Prod.ext_iff.1 hy
  obtain ⟨rfl, rfl⟩ := Prod.ext_iff.1 hkeys
  exact ⟨rfl, rfl, rfl⟩

/-- **A directory that a store has written is read without an error** past the checks. -/
theorem assemble_stored (h : Stores worker flags dir m docs) :
    ∃ c, assemble dir (docsOf worker flags docs) = .ok c ∧
      Agrees worker flags c (load m docs) := by
  have hfirst : dir.manifest.pointList.map PointDoc.name =
      (m.points.map Report.pointName).map some := map_name_of_each h.known
  obtain ⟨points, hpoints, hnames⟩ := announce_map (allRuns docs) hfirst
  rw [← map_taggedRuns] at hpoints
  have hitems : each (cellOf (docsOf worker flags docs))
      (points.flatMap fun p => (load m docs).clients.map fun c => (p, c)) =
        .ok ((points.flatMap fun p => (load m docs).clients.map fun c => (p, c)).map
          (cellFor worker flags (load m docs))) := by
    refine each_of_forall fun x hx => ?_
    obtain ⟨p, hp, hx⟩ := List.mem_flatMap.1 hx
    obtain ⟨client, -, rfl⟩ := List.mem_map.1 hx
    have hname : p.name ∈ points.map PointDoc.name := List.mem_map_of_mem hp
    rw [hnames] at hname
    obtain ⟨name, -, hname⟩ := List.mem_map.1 hname
    exact cellOf_docsOf m hname.symm
  rw [← h.clientsOf] at hitems
  exact ⟨_, bind_eq_ok.2 ⟨_, h.known, bind_eq_ok.2 ⟨_, hpoints, bind_eq_ok.2 ⟨_, hitems, rfl⟩⟩⟩,
    hnames, h.clientsOf, h.runs, fun point hpoint client hclient =>
      get_cellFor hnames _ hpoint (h.clientsOf ▸ hclient)⟩

/-- Both expect the same number of runs. -/
theorem Agrees.expectedRuns {c : Campaign (Rest V)} {stored : Report.Campaign V}
    (h : Agrees worker flags c stored) : c.expectedRuns = stored.expectedRuns := by
  have hnames : c.points.map (fun p => p.name.getD "") = stored.points := by
    have hall := congrArg (List.map fun name => name.getD "") h.points
    rw [List.map_map, List.map_map] at hall
    exact hall.trans (List.map_id' _)
  have hcounts : (c.points.map fun p => c.clients.countP fun client => c.supported p client) =
      stored.points.map fun p =>
        stored.clients.countP fun client => (stored.cell p client).unsupported.isNone := by
    rw [← hnames, List.map_map, h.clients]
    refine List.map_congr_left fun p hp => List.countP_congr fun client hclient => ?_
    obtain ⟨x, hx, -, -, hreasons⟩ :=
      h.cell (p.name.getD "") (hnames ▸ List.mem_map_of_mem hp) client hclient
    rw [Campaign.supported, hx]
    exact iff_of_eq (congrArg (fun o : Option (List String) => o.isNone = true) hreasons)
  rw [Campaign.expectedRuns, Report.Campaign.expectedRuns, hcounts, Campaign.runsPerPoint, h.runs]

/-- **What `loadCampaign` makes of the files of a store is what `load` makes of the store**,
unless the interpreters are mixed. -/
theorem loadCampaign_stored (h : Stores worker flags dir m docs) {F : FloatText}
    {c : Campaign (Rest V)} (hc : loadCampaign F dir = .ok c) :
    Agrees worker flags c (load m docs) ∧ c.expectedRuns = (load m docs).expectedRuns := by
  obtain ⟨docs', hdocs, hrest⟩ := bind_eq_ok.1 hc
  obtain ⟨notes, -, hrest⟩ := bind_eq_ok.1 hrest
  obtain ⟨_, -, hassemble⟩ := bind_eq_ok.1 hrest
  obtain rfl := Except.ok.inj (h.files.symm.trans hdocs)
  obtain ⟨c', hok, hagrees⟩ := assemble_stored h
  obtain rfl := Except.ok.inj (hok.symm.trans hassemble)
  exact ⟨hagrees, hagrees.expectedRuns⟩

end

end

end Report.Files

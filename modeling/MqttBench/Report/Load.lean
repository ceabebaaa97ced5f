import MqttBench.Report.Data

/-!
# Loading a campaign

`load_campaign` and `expected_runs` of `report/data.py`, on the manifest and the documents
of a directory whose runs agree on their interpreter.

* `load` — the points, the clients and the cells of the report.
* `expectedRuns` — the number of runs that the report expects.
-/

namespace Report

open Bench

variable {V : Type}

/-- A cell: what it keeps, what it files as retried, and why its client refuses the point. -/
structure Cell (V : Type) where
  runs : List (Record V)
  retried : List (Record V)
  unsupported : Option (List String)

/-- `Campaign`; the points are known by their names. -/
structure Campaign (V : Type) where
  manifest : Manifest V
  points : List String
  clients : List String
  cell : String → String → Cell V

/-- `p["name"]`. -/
def pointName (p : List (String × Value)) : String :=
  match p.lookup "name" with
  | some (.str name) => name
  | _ => ""

/-- The refusals in a client's document; none when it has no document. -/
def unsupported (docs : AList fun _ : String => Doc V) (client : String) :
    List (String × List String) :=
  match docs.lookup client with
  | none => []
  | some d => d.unsupported

/-- The records of all documents. -/
def allRuns (docs : AList fun _ : String => Doc V) : List (Record V) :=
  docs.entries.flatMap fun e => e.2.runs

/-- A point that the manifest does not announce comes after those that it does. -/
def addPoint (names : List String) (r : Record V) : List String :=
  if r.point ∈ names then names else names ++ [r.point]

/-- `load_campaign`. -/
def load (manifest : Manifest V) (docs : AList fun _ : String => Doc V) : Campaign V where
  manifest := manifest
  points := (allRuns docs).foldl addPoint (manifest.points.map pointName)
  clients := manifest.clients.map Prod.fst ++
    docs.keys.filter fun c => c ∉ manifest.clients.map Prod.fst
  cell := fun point client =>
    let runs := (Store.runs ⟨docs⟩ client).filter fun r => r.point = point
    { runs := (finalAttempts runs).1
      retried := (finalAttempts runs).2
      unsupported := ((unsupported docs client).find? fun u => u.1 = point).map Prod.snd }

/-- `expected_runs()`. -/
def Campaign.expectedRuns (c : Campaign V) : ℤ :=
  (c.points.map fun p => c.clients.countP fun client => (c.cell p client).unsupported.isNone).sum *
    if c.manifest.runsPerPoint = 0 then 1 else c.manifest.runsPerPoint

/-! ## A campaign that holds what it announces -/

theorem pointName_asDict (p : Point) : pointName p.asDict = p.name := by
  have hname := lookup_asDict (p := p) (k := "name") rfl
  have hdefault : extendedDefaults.lookup "name" = none := rfl
  rw [hdefault, Option.or_none] at hname
  rw [pointName, hname]

/-- A cell is refused when its client's document lists the point. -/
theorem cell_isNone_iff (m : Manifest V) (docs : AList fun _ : String => Doc V)
    (point client : String) :
    ((load m docs).cell point client).unsupported.isNone = true ↔
      ∀ u ∈ unsupported docs client, u.1 ≠ point := by
  simp [load]

theorem foldl_addPoint {runs : List (Record V)} {names : List String}
    (h : ∀ r ∈ runs, r.point ∈ names) : runs.foldl addPoint names = names := by
  induction runs with
  | nil => rfl
  | cons r runs ih =>
    obtain ⟨hr, hruns⟩ := List.forall_mem_cons.1 h
    rw [List.foldl_cons, addPoint, if_pos hr, ih hruns]

/-- Records of announced points add no point. -/
theorem points_load {m : Manifest V} {docs : AList fun _ : String => Doc V}
    (h : ∀ r ∈ allRuns docs, r.point ∈ m.points.map pointName) :
    (load m docs).points = m.points.map pointName :=
  foldl_addPoint h

/-- Documents of announced clients add no client. -/
theorem clients_load {m : Manifest V} {docs : AList fun _ : String => Doc V}
    (h : ∀ client ∈ docs.keys, client ∈ m.clients.map Prod.fst) :
    (load m docs).clients = m.clients.map Prod.fst := by
  have hnone : docs.keys.filter (fun c => c ∉ m.clients.map Prod.fst) = [] := by
    rw [List.filter_eq_nil_iff]
    intro c hc
    simpa using h c hc
  change m.clients.map Prod.fst ++ _ = _
  rw [hnone, List.append_nil]

end Report

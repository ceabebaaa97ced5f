import MqttBench.Lib.Dicts
import MqttBench.Lib.Fallible
import MqttBench.Lib.Grouping
import MqttBench.Lib.JsonText

/-!
# A campaign's directory

`load_campaign` of `report/data.py` on whatever the files of a directory hold: each field of a
document may be missing, and a file need not be JSON.  `V` stands for what a point or a run holds
besides.

* `readDocs`, `noteOf`, `checkRuntimes`, `announce`, `cellOf`, `finalAttempts` — the steps of
  `loadCampaign`.
* `loadCampaign_eq_ok` — what a campaign that was loaded consists of.
-/

namespace Report.Files

open PyData Fallible Grouping

/-! ## The files -/

inductive LoadError
  | keyError (key : String)
  | typeError
  | valueError (message : String)
  /-- `.get`, of what is no dictionary. -/
  | attributeError (message : String)
  /-- `json.loads`, on a text that is not JSON. -/
  | decodeError (message : String)
  /-- `FileNotFoundError`, of a name under a root. -/
  | noCampaign (name root : String)
  deriving DecidableEq

structure PointDoc (V : Type) where
  name : Option String
  rest : V

structure WorkerDoc where
  runtime : Option (List (String × Py))
  python : Option String

structure RunDoc (V : Type) where
  point : Option (PointDoc V)
  runIndex : Option ℤ
  attempt : Option ℤ
  worker : Option WorkerDoc
  flags : Option (List String)
  rest : V

/-- An entry of `unsupported`. -/
structure RefusalDoc where
  point : Option String
  reasons : Option (List String)

/-- `<client>.json`. -/
structure ClientDoc (V : Type) where
  client : Option String
  runs : Option (List (RunDoc V))
  unsupported : Option (List RefusalDoc)

structure ProfileDoc where
  comparable : Option Bool

structure RuntimeDoc where
  identity : Option (List (String × Py))

/-- `manifest.json`.  The clients are the keys of a dictionary, and `sampling` tells whether there
is one. -/
structure ManifestDoc (V : Type) where
  campaign : Option String
  profile : Option ProfileDoc
  sampling : Bool
  points : Option (List (PointDoc V))
  clients : Option (List String)
  clients_nodup : (clients.getD []).Nodup
  runsPerPoint : Option ℤ
  runtime : Option RuntimeDoc

/-- A directory whose manifest has been read; `files` are its other `*.json`, by name. -/
structure Directory (V : Type) where
  path : String
  name : String
  manifest : ManifestDoc V
  files : List (String × Except LoadError (ClientDoc V))

variable {V : Type}

/-- `d[key]`. -/
def require {α : Type} (key : String) : Option α → Except LoadError α
  | some a => .ok a
  | none => .error (.keyError key)

namespace RunDoc

/-- `int(r.get("run_index", 0))`. -/
def index (r : RunDoc V) : ℤ := r.runIndex.getD 0

/-- `int(r.get("attempt", 0))`. -/
def attemptNo (r : RunDoc V) : ℤ := r.attempt.getD 0

/-- `(run.get("point") or {}).get("name")`. -/
def pointName (r : RunDoc V) : Option String := r.point.bind PointDoc.name

/-- `worker.get("runtime")`, where it is not empty. -/
def identity (r : RunDoc V) : Option (List (String × Py)) :=
  (r.worker.bind WorkerDoc.runtime).filter fun es => !es.isEmpty

/-- `worker.get("python")`, where it counts. -/
def python (r : RunDoc V) : Option String :=
  if r.identity.isSome then none else (r.worker.bind WorkerDoc.python).filter fun s => s ≠ ""

end RunDoc

/-- `manifest.get("points") or []`. -/
def ManifestDoc.pointList (m : ManifestDoc V) : List (PointDoc V) := m.points.getD []

/-- `list(manifest.get("clients") or [])`. -/
def ManifestDoc.clientList (m : ManifestDoc V) : List String := m.clients.getD []

/-- `(manifest.get("runtime") or {}).get("identity")`, where it is not empty. -/
def ManifestDoc.identity (m : ManifestDoc V) : Option (List (String × Py)) :=
  (m.runtime.bind RuntimeDoc.identity).filter fun es => !es.isEmpty

/-- `doc.get("runs", [])`. -/
def ClientDoc.runList (d : ClientDoc V) : List (RunDoc V) := d.runs.getD []

/-- The documents, each under its client. -/
abbrev Docs (V : Type) := List (String × ClientDoc V)

/-- Each run with the client of its document. -/
def taggedRuns (docs : Docs V) : List (String × RunDoc V) :=
  docs.flatMap fun d => d.2.runList.map fun r => (d.1, r)

/-! ## Reading -/

/-- One file. -/
def readDoc (f : String × Except LoadError (ClientDoc V)) : Except LoadError (String × ClientDoc V) := do
  let doc ← f.2
  let client ← require "client" doc.client
  return (client, doc)

/-- `docs`: of two documents of one client the later one counts. -/
def readDocs (files : List (String × Except LoadError (ClientDoc V))) :
    Except LoadError (Docs V) := do
  let items ← each readDoc (files.mergeSort fun f g => f.1 ≤ g.1)
  return Dicts.ofItems items

/-! ## Interpreters -/

/-- What a run tells of its interpreter: the GIL state of its cell, and the build. -/
structure Note where
  gil : Option ((String × Option String) × Py)
  build : Option String

/-- The members of a set have a hash. -/
def hashable : Py → Bool
  | .list _ => false
  | .dict _ => false
  | _ => true

/-- `{k: v for k, v in identity.items() if k != "gil_enabled"}`. -/
def withoutGil (identity : List (String × Py)) : Py :=
  .dict (identity.filter fun e => e.1 ≠ "gil_enabled")

/-- The GIL state that a run records, under its cell. -/
def gilOf (x : String × RunDoc V) : Except LoadError (Option ((String × Option String) × Py)) :=
  match x.2.identity.bind fun identity => identity.lookup "gil_enabled" with
  | none => .ok none
  | some v => if hashable v then .ok (some ((x.1, x.2.pointName), v)) else .error .typeError

/-- What goes into `builds`. -/
def buildOf (F : FloatText) (r : RunDoc V) : Option String :=
  match r.identity with
  | some identity => some (dumps F (withoutGil identity))
  | none => r.python

/-- The body of the loop over the runs. -/
def noteOf (F : FloatText) (x : String × RunDoc V) : Except LoadError Note := do
  let gil ← gilOf x
  return ⟨gil, buildOf F x.2⟩

/-- `states.add(v)`. -/
def addState (states : List Py) (v : Py) : List Py :=
  if states.any fun u => u.eq v then states else states ++ [v]

/-- `gil_states`. -/
def gilStates (notes : List Note) : List ((String × Option String) × List Py) :=
  Dicts.gather (fun states x => addState states x.2) [] Prod.fst (notes.filterMap Note.gil)

/-- `builds`. -/
def builds (notes : List Note) : List String := distinct (notes.filterMap Note.build)

/-- The three checks. -/
def checkRuntimes (F : FloatText) (dir : Directory V) (notes : List Note) :
    Except LoadError Unit :=
  match (gilStates notes).find? fun x => 1 < x.2.length with
  | some (cell, _) => throw (.valueError (dir.path ++ ": " ++ cell.1 ++ "/" ++
      cell.2.getD "None" ++ " mixes enabled and disabled GIL states; " ++
      "split the runs into separate campaigns"))
  | none =>
    if 1 < (builds notes).length then
      throw (.valueError (dir.path ++ ": campaign mixes Python versions or builds; " ++
        "split the runs into separate campaigns"))
    else
      match dir.manifest.identity with
      | none => pure ()
      | some recorded =>
        if builds notes ≠ [] ∧ builds notes ≠ [dumps F (withoutGil recorded)] then
          throw (.valueError (dir.path ++ ": worker runtime differs from the campaign manifest"))
        else pure ()

/-! ## Points and cells -/

/-- Runs the manifest does not announce are still shown: their points come last. -/
def announce (points : List (PointDoc V)) (known : List String) :
    List (RunDoc V) → Except LoadError (List (PointDoc V))
  | [] => return points
  | r :: runs => do
    let point ← require "point" r.point
    let name ← require "name" point.name
    if name ∈ known then announce points known runs
    else announce (points ++ [point]) (known ++ [name]) runs

/-- `by_index`. -/
def byIndex (runs : List (RunDoc V)) : List (ℤ × List (RunDoc V)) :=
  Dicts.gather (fun attempts r => attempts ++ [r]) [] RunDoc.index runs

/-- `sorted(by_index[index], key=...)`. -/
def attemptsAt (runs : List (RunDoc V)) (index : ℤ) : List (RunDoc V) :=
  ((Dicts.get (byIndex runs) index).getD []).mergeSort fun a b => a.attemptNo ≤ b.attemptNo

/-- `sorted(by_index)`. -/
def indices (runs : List (RunDoc V)) : List ℤ := ((byIndex runs).map Prod.fst).mergeSort (· ≤ ·)

/-- `_final_attempts`: the final runs and the retried ones. -/
def finalAttempts (runs : List (RunDoc V)) : List (RunDoc V) × List (RunDoc V) :=
  ((indices runs).flatMap fun index => (attemptsAt runs index).getLast?.toList,
    (indices runs).flatMap fun index => (attemptsAt runs index).dropLast)

structure Cell (V : Type) where
  point : PointDoc V
  client : String
  runs : List (RunDoc V)
  retried : List (RunDoc V)
  unsupported : Option (List String)

/-- The reasons of the first entry for a point. -/
def refused (name : String) : List RefusalDoc → Except LoadError (Option (List String))
  | [] => return none
  | u :: us => do
    let point ← require "point" u.point
    if point = name then
      let reasons ← require "reasons" u.reasons
      return some reasons
    else refused name us

/-- `docs.get(client) or {}`. -/
def docOf (docs : Docs V) (client : String) : ClientDoc V :=
  (Dicts.get docs client).getD ⟨none, none, none⟩

/-- The runs of a point and a client; the names of their points have been read before. -/
def runsOf (docs : Docs V) (name client : String) : List (RunDoc V) :=
  (docOf docs client).runList.filter fun r => r.pointName = some name

/-- The cell of a point and a client, under its key. -/
def cellOf (docs : Docs V) (x : PointDoc V × String) :
    Except LoadError ((String × String) × Cell V) := do
  let name ← require "name" x.1.name
  let final := finalAttempts (runsOf docs name x.2)
  let reasons ← refused name ((docOf docs x.2).unsupported.getD [])
  return ((name, x.2), ⟨x.1, x.2, final.1, final.2, reasons⟩)

/-! ## The campaign -/

structure Campaign (V : Type) where
  name : String
  manifest : ManifestDoc V
  docs : Docs V
  cells : List ((String × String) × Cell V)
  points : List (PointDoc V)
  clients : List String

/-- The clients of the manifest, and then those that it does not announce. -/
def clientsOf (m : ManifestDoc V) (docs : Docs V) : List String :=
  m.clientList ++ (docs.map Prod.fst).filter fun c => c ∉ m.clientList

/-- What follows the checks: the points, the clients and the cells. -/
def assemble (dir : Directory V) (docs : Docs V) : Except LoadError (Campaign V) := do
  let clients := clientsOf dir.manifest docs
  let known ← each (fun p => require "name" p.name) dir.manifest.pointList
  let points ← announce dir.manifest.pointList known ((taggedRuns docs).map Prod.snd)
  let items ← each (cellOf docs) (points.flatMap fun p => clients.map fun c => (p, c))
  return ⟨dir.manifest.campaign.getD dir.name, dir.manifest, docs, Dicts.ofItems items, points,
    clients⟩

/-- `load_campaign`. -/
def loadCampaign (F : FloatText) (dir : Directory V) : Except LoadError (Campaign V) := do
  let docs ← readDocs dir.files
  let notes ← each (noteOf F) (taggedRuns docs)
  checkRuntimes F dir notes
  assemble dir docs

namespace Campaign

/-- `int(self.manifest.get("runs_per_point") or 1)`. -/
def runsPerPoint (c : Campaign V) : ℤ :=
  match c.manifest.runsPerPoint with
  | none => 1
  | some n => if n = 0 then 1 else n

/-- `self.cells[(p["name"], c)].unsupported is None`; every pair has its cell. -/
def supported (c : Campaign V) (p : PointDoc V) (client : String) : Bool :=
  ((Dicts.get c.cells (p.name.getD "", client)).bind Cell.unsupported).isNone

def expectedRuns (c : Campaign V) : ℤ :=
  (c.points.map fun p => c.clients.countP fun client => c.supported p client).sum * c.runsPerPoint

def doneRuns (c : Campaign V) : ℕ := (c.cells.map fun x => x.2.runs.length).sum

/-- `comparable`. -/
def comparable (c : Campaign V) : Bool :=
  (c.manifest.profile.bind ProfileDoc.comparable).getD false && !c.manifest.sampling &&
    !(taggedRuns c.docs).any fun x => "instrumented" ∈ x.2.flags.getD []

end Campaign

/-- **What a campaign that was loaded consists of.** -/
theorem loadCampaign_eq_ok {F : FloatText} {dir : Directory V} {c : Campaign V} :
    loadCampaign F dir = .ok c ↔ ∃ docs notes known points items,
      readDocs dir.files = .ok docs ∧ each (noteOf F) (taggedRuns docs) = .ok notes ∧
      checkRuntimes F dir notes = .ok () ∧
      each (fun p => require "name" p.name) dir.manifest.pointList = .ok known ∧
      announce dir.manifest.pointList known ((taggedRuns docs).map Prod.snd) = .ok points ∧
      each (cellOf docs)
        (points.flatMap fun p => (clientsOf dir.manifest docs).map fun c => (p, c)) = .ok items ∧
      c = ⟨dir.manifest.campaign.getD dir.name, dir.manifest, docs, Dicts.ofItems items, points,
        clientsOf dir.manifest docs⟩ := by
  simp only [loadCampaign, assemble, bind_eq_ok]
  constructor
  · rintro ⟨docs, hdocs, notes, hnotes, _, hcheck, known, hknown, points, hpoints, items, hitems, h⟩
    exact ⟨docs, notes, known, points, items, hdocs, hnotes, hcheck, hknown, hpoints, hitems,
      (Except.ok.inj h).symm⟩
  · rintro ⟨docs, notes, known, points, items, hdocs, hnotes, hcheck, hknown, hpoints, hitems, rfl⟩
    exact ⟨docs, hdocs, notes, hnotes, (), hcheck, known, hknown, points, hpoints, items, hitems,
      rfl⟩

end Report.Files

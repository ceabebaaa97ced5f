import MqttBench.Bench.Checks
import MqttBench.Lib.AtomicSave

/-!
# A campaign

`plan`, the `Store` and `run_campaign` of `bench/campaign.py`.  A call computes the saves
that it makes, one after the other; a call that refuses makes none.  JSON values that are
only stored and compared are of a type `V`.

* `runCampaign` — the program.
* `SaveStep` — what one save of a call can do; `runCampaign_along` — **every save of a
  call is one of these.**
* `Directory`, `session` — the directory with its drafts, and a call that may be killed.
-/

namespace Bench

open Traces AtomicSave

/-! ## What is stored -/

/-- `(point, client, run index)`. -/
structure Key where
  point : String
  client : String
  run : ℕ
  deriving DecidableEq

/-- The fields that a campaign freezes. -/
inductive Frozen
  | runtime
  | environments
  | lockDigest
  | harness
  | sampling
  deriving DecidableEq

def Frozen.name : Frozen → String
  | .runtime => "runtime"
  | .environments => "environments"
  | .lockDigest => "lock_digest"
  | .harness => "harness"
  | .sampling => "sampling"

/-- The keys of `frozen`, in order. -/
def Frozen.all : List Frozen := [.runtime, .environments, .lockDigest, .harness, .sampling]

theorem Frozen.mem_all (f : Frozen) : f ∈ Frozen.all := by cases f <;> decide

/-- What a call is made with. -/
structure Settings (V : Type) where
  points : List Point
  clients : List String
  profile : Profile
  runs : ℤ
  frozen : Frozen → V

/-- A record of a run.  `under` is a record for the statements: the settings of the call
that produced it. -/
structure Record (V : Type) where
  point : String
  runIndex : ℕ
  status : Status
  attempt : ℕ
  session : ℕ
  under : Settings V

/-- `<client>.json`; the client is the file's name. -/
structure Doc (V : Type) where
  version : String
  identity : Option V
  runs : List (Record V)
  unsupported : List (String × List String)

/-- `manifest.json`.  The clients are a dictionary from names to versions. -/
structure Manifest (V : Type) where
  campaign : String
  startedAt : String
  profile : Profile
  points : List (List (String × Value))
  clients : List (String × String)
  clients_nodup : (clients.map Prod.fst).Nodup
  runsPerPoint : ℤ
  sessions : List V
  frozen : Frozen → Option V
  finishedAt : Option String

/-- The files of a campaign's directory. -/
structure Dir (V : Type) where
  manifest : Option (Manifest V)
  docs : AList fun _ : String => Doc V

/-- A file that a save replaces. -/
inductive File
  | manifest
  | client (name : String)
  deriving DecidableEq

/-- `write_manifest` and `_save`. -/
inductive Save (V : Type)
  | manifest (m : Manifest V)
  | doc (client : String) (d : Doc V)

variable {V : Type}

def Save.file : Save V → File
  | .manifest _ => .manifest
  | .doc client _ => .client client

def Dir.commit (dir : Dir V) : Save V → Dir V
  | .manifest m => { dir with manifest := some m }
  | .doc client d => { dir with docs := dir.docs.insert client d }

/-! ## The store -/

/-- The documents in memory. -/
structure Store (V : Type) where
  docs : AList fun _ : String => Doc V

/-- `doc`: the client's document, a new one when there is none. -/
def Store.doc (s : Store V) (version : String → String) (client : String) : Doc V :=
  (s.docs.lookup client).getD ⟨version client, none, [], []⟩

/-- The records of a client; none when it has no document. -/
def Store.runs (s : Store V) (client : String) : List (Record V) :=
  match s.docs.lookup client with
  | none => []
  | some d => d.runs

/-- `attempts`. -/
def Store.attempts (s : Store V) (k : Key) : List (Record V) :=
  (s.runs k.client).filter fun r => r.point = k.point ∧ r.runIndex = k.run

def maxAttempts : ℕ := 2

/-- `done`. -/
def Store.done (s : Store V) (k : Key) : Bool :=
  (s.attempts k).any (·.status ≠ .invalid) || maxAttempts ≤ (s.attempts k).length

/-- `add`: the worker's identity goes to the document, once. -/
def Store.add (s : Store V) (version : String → String) (client : String) (identity : Option V)
    (r : Record V) : Store V × Save V :=
  let doc := s.doc version client
  let doc := { doc with identity := doc.identity.orElse fun _ => identity }
  let doc := { doc with runs := doc.runs ++ [r] }
  (⟨s.docs.insert client doc⟩, .doc client doc)

/-- A document with one more point that its client refuses. -/
def Doc.refuse (d : Doc V) (point : String) (reasons : List String) : Doc V :=
  { d with unsupported := d.unsupported ++ [(point, reasons)] }

/-- `add_unsupported`. -/
def Store.addUnsupported (s : Store V) (version : String → String) (client point : String)
    (reasons : List String) : Store V × List (Save V) :=
  let doc := s.doc version client
  if doc.unsupported.all fun u => u.1 ≠ point then
    let doc := doc.refuse point reasons
    (⟨s.docs.insert client doc⟩, [.doc client doc])
  else (s, [])

/-! ## The campaign -/

/-- What a client cannot do at a point; empty when it runs. -/
abbrev Refusals := String → Point → List String

/-- `plan`. -/
def plan (refusals : Refusals) (points : List Point) (clients : List String) (runs : ℤ) :
    List Key :=
  points.flatMap fun point =>
    let able := clients.filter fun c => (refusals c point).isEmpty
    (List.range runs.toNat).flatMap fun i =>
      let k := if able.isEmpty then 0 else i % able.length
      (able.drop k ++ able.take k).map fun client => ⟨point.name, client, i⟩

/-- `run_once`, as far as the campaign uses its record. -/
structure Outcome (V : Type) where
  status : Status
  identity : Option V

/-- A call of `run_campaign`, with what its surroundings answer: the frozen fields or the
error that finding them out raises, the installed versions, the session's information,
the outcome of each run, and two readings of the clock. -/
structure Call (V : Type) where
  name : String
  points : List Point
  clients : List String
  profile : Profile
  runs : Option ℤ
  frozen : Except String (Frozen → V)
  version : String → String
  session : V
  outcome : Key → ℕ → Outcome V
  startedAt : String
  finishedAt : String

/-- `runs or profile.runs`. -/
def Call.runsPerPoint (c : Call V) : ℤ :=
  match c.runs with
  | some runs => if runs = 0 then c.profile.runs else runs
  | none => c.profile.runs

/-- Why a call refuses to touch the directory. -/
inductive Refusal
  | noManifest
  | otherSettings (mismatches : List String)
  | changed (fields : List String)
  | unreadable
  | raised (message : String)
  deriving DecidableEq

/-- The texts of the errors. -/
def Refusal.message (root : String) : Refusal → String
  | .noManifest => root ++
    ": existing results have no manifest; cannot verify their runtime or settings"
  | .otherSettings mismatches =>
    root ++ " was started with other settings: " ++ "; ".intercalate mismatches
  | .changed fields => root ++ ": refusing to resume with changed or unrecorded " ++
    ", ".intercalate fields ++ "; start a new campaign"
  | .unreadable => root ++ ": a file is cut short"
  | .raised message => message

/-- `_mismatches`. -/
def mismatches (m : Manifest V) (c : Call V) : List String :=
  (if m.profile ≠ c.profile then ["profile " ++ m.profile.name ++ " != " ++ c.profile.name]
    else []) ++
  (if m.points ≠ c.points.map Point.asDict then ["points differ"] else []) ++
  (if m.clients.map Prod.fst ≠ c.clients then
    ["clients " ++ ", ".intercalate (m.clients.map Prod.fst) ++ " != " ++
      ", ".intercalate c.clients] else []) ++
  if m.runsPerPoint ≠ c.runsPerPoint then
    ["runs per point " ++ toString m.runsPerPoint ++ " != " ++ toString c.runsPerPoint] else []

/-- `changed`: the frozen fields that the manifest lacks or has with another value. -/
def changed [DecidableEq V] (m : Manifest V) (frozen : Frozen → V) : List String :=
  (Frozen.all.filter fun f => m.frozen f ≠ some (frozen f)).map Frozen.name

theorem nodup_eraseDups {α : Type*} [DecidableEq α] (l : List α) : l.eraseDups.Nodup := by
  generalize hn : l.length = n
  induction n using Nat.strong_induction_on generalizing l with
  | _ n ih =>
    cases l with
    | nil => simp
    | cons a l =>
      rw [List.eraseDups_cons, List.nodup_cons]
      refine ⟨by simp [List.mem_eraseDups], ih _ ?_ _ rfl⟩
      rw [← hn, List.length_cons]
      exact Nat.lt_succ_of_le (List.length_filter_le _ _)

theorem eraseDups_of_nodup {α : Type*} [DecidableEq α] {l : List α} (h : l.Nodup) :
    l.eraseDups = l := by
  induction l with
  | nil => rfl
  | cons a l ih =>
    obtain ⟨ha, hl⟩ := List.nodup_cons.1 h
    have hfilter : l.filter (fun b => !b == a) = l := List.filter_eq_self.2 fun b hb => by
      simpa using fun hba : b = a => ha (hba ▸ hb)
    rw [List.eraseDups_cons, hfilter, ih hl]

/-- The manifest of a new campaign.  A repeated client is one key of the dictionary, where
it first appeared. -/
def newManifest (c : Call V) (frozen : Frozen → V) : Manifest V where
  campaign := c.name
  startedAt := c.startedAt
  profile := c.profile
  points := c.points.map Point.asDict
  clients := c.clients.eraseDups.map fun client => (client, c.version client)
  clients_nodup := by
    rw [List.map_map]
    simpa [Function.comp_def] using nodup_eraseDups c.clients
  runsPerPoint := c.runsPerPoint
  sessions := []
  frozen := fun f => some (frozen f)
  finishedAt := none

/-- A manifest records some settings; of the clients it keeps the distinct names, in the
order of their first appearance. -/
structure Manifest.Matches (m : Manifest V) (s : Settings V) : Prop where
  profile : m.profile = s.profile
  points : m.points = s.points.map Point.asDict
  clients : m.clients.map Prod.fst = s.clients.eraseDups
  runs : m.runsPerPoint = s.runs
  frozen : ∀ f, m.frozen f = some (s.frozen f)

/-- The pairs that a client refuses are listed in its document. -/
def addRefused (refusals : Refusals) (version : String → String) :
    List (String × Point) → Store V → Store V × List (Save V)
  | [], s => (s, [])
  | (client, point) :: pairs, s =>
    let reasons := refusals client point
    let (s, saves) := if reasons.isEmpty then (s, [])
      else s.addUnsupported version client point.name reasons
    let (s, more) := addRefused refusals version pairs s
    (s, saves ++ more)

/-- One pass over the keys that are left to do. -/
def runTodo (c : Call V) (under : Settings V) (session attempt : ℕ) :
    List Key → Store V → Store V × List (Save V)
  | [], s => (s, [])
  | k :: todo, s =>
    let outcome := c.outcome k attempt
    let (s, save) := s.add c.version k.client outcome.identity
      ⟨k.point, k.run, outcome.status, attempt, session, under⟩
    let (s, more) := runTodo c under session attempt todo s
    (s, save :: more)

/-- `todo`: the keys that are not done and were attempted as often as this pass says. -/
def todo (order : List Key) (attempt : ℕ) (s : Store V) : List Key :=
  order.filter fun k => !s.done k && (s.attempts k).length = attempt

/-- The passes, first attempts first. -/
def runPasses (c : Call V) (under : Settings V) (session : ℕ) (order : List Key) :
    List ℕ → Store V → Store V × List (Save V)
  | [], s => (s, [])
  | attempt :: attempts, s =>
    let (s, saves) := runTodo c under session attempt (todo order attempt s) s
    let (s, more) := runPasses c under session order attempts s
    (s, saves ++ more)

/-- `manifest["sessions"].append(info)`. -/
def Manifest.addSession (m : Manifest V) (info : V) : Manifest V :=
  { m with sessions := m.sessions ++ [info] }

/-- `manifest["finished_at"] = now`. -/
def Manifest.finish (m : Manifest V) (now : String) : Manifest V :=
  { m with finishedAt := some now }

/-- The session of a call: it is listed, its passes run, and the campaign is finished. -/
def runSession (c : Call V) (under : Settings V) (order : List Key) (m : Manifest V)
    (s : Store V) : List (Save V) :=
  let m := m.addSession c.session
  let (_, saves) := runPasses c under (m.sessions.length - 1) order (List.range maxAttempts) s
  [.manifest m] ++ saves ++ [.manifest (m.finish c.finishedAt)]

/-- What a call does with the keys: there is a session when one of them is not done. -/
def runOrder (c : Call V) (under : Settings V) (order : List Key) (m : Manifest V)
    (s : Store V) : List (Save V) :=
  if order.all s.done then
    if m.finishedAt.isNone then [.manifest (m.finish c.finishedAt)] else []
  else runSession c under order m s

/-- The part of `run_campaign` that writes. -/
def writeCampaign (refusals : Refusals) (c : Call V) (frozen : Frozen → V) (dir : Dir V) :
    List (Save V) :=
  let under : Settings V := ⟨c.points, c.clients, c.profile, c.runsPerPoint, frozen⟩
  let m := dir.manifest.getD (newManifest c frozen)
  let first := if dir.manifest.isNone then [Save.manifest m] else []
  let pairs := c.points.flatMap fun point => c.clients.map fun client => (client, point)
  let (store, refused) := addRefused refusals c.version pairs ⟨dir.docs⟩
  let order := plan refusals c.points c.clients c.runsPerPoint
  first ++ refused ++ runOrder c under order m store

/-- `run_campaign`: the saves that it makes, or why it refuses. -/
def runCampaign [DecidableEq V] (refusals : Refusals) (c : Call V) (dir : Dir V) :
    Except Refusal (List (Save V)) :=
  match dir.manifest with
  | none =>
    if dir.docs.entries.isEmpty then
      match c.frozen with
      | .error message => .error (.raised message)
      | .ok frozen => .ok (writeCampaign refusals c frozen dir)
    else .error .noManifest
  | some m =>
    if mismatches m c = [] then
      match c.frozen with
      | .error message => .error (.raised message)
      | .ok frozen =>
        if changed m frozen = [] then .ok (writeCampaign refusals c frozen dir)
        else .error (.changed (changed m frozen))
    else .error (.otherSettings (mismatches m c))

/-! ## The guard -/

theorem mismatches_eq_nil {m : Manifest V} {c : Call V} :
    mismatches m c = [] ↔ m.profile = c.profile ∧ m.points = c.points.map Point.asDict ∧
      m.clients.map Prod.fst = c.clients ∧ m.runsPerPoint = c.runsPerPoint := by
  simp only [mismatches, List.append_eq_nil_iff, ite_eq_right_iff, List.cons_ne_nil, imp_false,
    not_not, and_assoc]

theorem changed_eq_nil [DecidableEq V] {m : Manifest V} {frozen : Frozen → V} :
    changed m frozen = [] ↔ ∀ f, m.frozen f = some (frozen f) := by
  simp [changed, Frozen.mem_all]

theorem matches_newManifest (c : Call V) (frozen : Frozen → V) :
    (newManifest c frozen).Matches ⟨c.points, c.clients, c.profile, c.runsPerPoint, frozen⟩ where
  profile := rfl
  points := rfl
  clients := by simp [newManifest, Function.comp_def]
  runs := rfl
  frozen _ := rfl

/-- A call that passes both comparisons has the settings of the manifest. -/
theorem matches_of_accepted [DecidableEq V] {m : Manifest V} {c : Call V} {frozen : Frozen → V}
    (hmis : mismatches m c = []) (hchanged : changed m frozen = []) :
    m.Matches ⟨c.points, c.clients, c.profile, c.runsPerPoint, frozen⟩ := by
  obtain ⟨hprofile, hpoints, hclients, hruns⟩ := mismatches_eq_nil.1 hmis
  have hnodup : c.clients.Nodup := hclients ▸ m.clients_nodup
  exact ⟨hprofile, hpoints, hclients.trans (eraseDups_of_nodup hnodup).symm, hruns,
    changed_eq_nil.1 hchanged⟩

theorem Manifest.Matches.addSession {m : Manifest V} {s : Settings V} (h : m.Matches s)
    (info : V) : (m.addSession info).Matches s := { h with }

theorem Manifest.Matches.finish {m : Manifest V} {s : Settings V} (h : m.Matches s)
    (now : String) : (m.finish now).Matches s := { h with }

/-! ## The store's operations -/

/-- The key that a record is filed under. -/
def Record.key (client : String) (r : Record V) : Key := ⟨r.point, client, r.runIndex⟩

theorem runs_insert (s : Store V) (client : String) (d : Doc V) (client' : String) :
    Store.runs ⟨s.docs.insert client d⟩ client' =
      if client' = client then d.runs else s.runs client' := by
  by_cases h : client' = client
  · subst h
    rw [if_pos rfl, Store.runs, AList.lookup_insert]
  · rw [if_neg h, Store.runs, AList.lookup_insert_ne h]
    rfl

/-- A client's document holds its records. -/
theorem doc_runs (s : Store V) (version : String → String) (client : String) :
    (s.doc version client).runs = s.runs client := by
  rw [Store.doc, Store.runs]
  cases s.docs.lookup client <;> rfl

/-- Listing a refused point adds no record. -/
theorem runs_refuse (s : Store V) (version : String → String) (client point : String)
    (reasons : List String) (client' : String) :
    Store.runs ⟨s.docs.insert client ((s.doc version client).refuse point reasons)⟩ client' =
      s.runs client' := by
  rw [runs_insert]
  split
  · next h =>
    rw [h]
    exact doc_runs s version client
  · rfl

/-- Adding a record adds it to its client's, at the end. -/
theorem runs_add (s : Store V) (version : String → String) (client : String)
    (identity : Option V) (r : Record V) (client' : String) :
    (s.add version client identity r).1.runs client' =
      s.runs client' ++ if client' = client then [r] else [] := by
  rw [Store.add, runs_insert]
  split
  · next h => rw [h, ← doc_runs s version client]
  · rw [List.append_nil]

/-- Adding a record is one more attempt at its key, and at no other. -/
theorem attempts_add (s : Store V) (version : String → String) (client : String)
    (identity : Option V) (r : Record V) (k : Key) :
    (s.add version client identity r).1.attempts k =
      s.attempts k ++ if k = r.key client then [r] else [] := by
  rw [Store.attempts, runs_add, List.filter_append]
  refine congrArg _ ?_
  have hkey : k = r.key client ↔
      k.client = client ∧ r.point = k.point ∧ r.runIndex = k.run := by
    obtain ⟨point, client', run⟩ := k
    simp only [Record.key, Key.mk.injEq]
    tauto
  by_cases hclient : k.client = client
  · rw [if_pos hclient]
    by_cases hk : r.point = k.point ∧ r.runIndex = k.run
    · rw [if_pos (hkey.2 ⟨hclient, hk⟩)]
      simp [hk]
    · rw [if_neg fun h => hk (hkey.1 h).2]
      simp [hk]
  · rw [if_neg hclient, if_neg fun h => hclient (hkey.1 h).1]
    rfl

/-- **What is planned**: the supported pairs, each with every run index. -/
theorem mem_plan {refusals : Refusals} {points : List Point} {clients : List String} {runs : ℤ}
    {k : Key} : k ∈ plan refusals points clients runs ↔ ∃ point ∈ points,
      point.name = k.point ∧ k.client ∈ clients ∧ (refusals k.client point).isEmpty = true ∧
        k.run < runs.toNat := by
  obtain ⟨name, client, run⟩ := k
  have hrotate : ∀ (able : List String) (n : ℕ),
      client ∈ able.drop n ++ able.take n ↔ client ∈ able := fun able n => by
    rw [List.mem_append, or_comm, ← List.mem_append, List.take_append_drop]
  simp only [plan, List.mem_flatMap, List.mem_map, List.mem_range, Key.mk.injEq]
  constructor
  · rintro ⟨point, hpoint, i, hi, client', hclient, rfl, rfl, rfl⟩
    obtain ⟨hmem, hable⟩ := List.mem_filter.1 ((hrotate _ _).1 hclient)
    exact ⟨point, hpoint, rfl, hmem, hable, hi⟩
  · rintro ⟨point, hpoint, rfl, hmem, hable, hi⟩
    exact ⟨point, hpoint, run, hi, client,
      (hrotate _ _).2 (List.mem_filter.2 ⟨hmem, hable⟩), rfl, rfl, rfl⟩

/-- Done means settled by a run that is not invalid, or given up. -/
theorem done_iff (s : Store V) (k : Key) :
    s.done k = true ↔
      (∃ r ∈ s.attempts k, r.status ≠ .invalid) ∨ maxAttempts ≤ (s.attempts k).length := by
  simp [Store.done]

theorem done_congr {s s' : Store V} {k : Key} (h : s'.attempts k = s.attempts k) :
    s'.done k = s.done k := by rw [Store.done, Store.done, h]

/-- More attempts leave a key done. -/
theorem done_mono {s s' : Store V} {k : Key} (h : s.attempts k <+: s'.attempts k)
    (hd : s.done k = true) : s'.done k = true := by
  rw [done_iff] at hd ⊢
  rcases hd with ⟨r, hr, hs⟩ | hlen
  · exact .inl ⟨r, h.subset hr, hs⟩
  · exact .inr (hlen.trans h.length_le)

/-! ## One pass -/

variable {c : Call V} {under : Settings V} {session attempt : ℕ}

/-- The record of a run of a key. -/
def Call.record (c : Call V) (under : Settings V) (session attempt : ℕ) (k : Key) : Record V :=
  ⟨k.point, k.run, (c.outcome k attempt).status, attempt, session, under⟩

theorem record_key (k : Key) : (c.record under session attempt k).key k.client = k := rfl

/-- A pass attempts each of its keys as often as it lists it. -/
theorem attempts_runTodo (keys : List Key) (s : Store V) (k : Key) :
    (runTodo c under session attempt keys s).1.attempts k =
      s.attempts k ++ List.replicate (keys.count k) (c.record under session attempt k) := by
  induction keys generalizing s with
  | nil => simp [runTodo]
  | cons k' keys ih =>
    rw [runTodo]
    simp only
    rw [ih, attempts_add, List.append_assoc, ← Call.record, record_key, List.count_cons]
    by_cases hk : k = k'
    · subst hk
      simp [List.replicate_succ]
    · have hk' : (k' == k) = false := beq_eq_false_iff_ne.2 fun h => hk h.symm
      simp [hk, hk']

/-- After a pass, a key is done or was attempted once more than the pass says. -/
theorem done_or_runTodo (c : Call V) (under : Settings V) (session attempt : ℕ)
    {order : List Key} {s : Store V} {k : Key} (hk : k ∈ order)
    (h : s.done k = true ∨ attempt ≤ (s.attempts k).length) :
    let s' := (runTodo c under session attempt (todo order attempt s) s).1
    s'.done k = true ∨ attempt + 1 ≤ (s'.attempts k).length := by
  intro s'
  have hattempts : s'.attempts k = _ := attempts_runTodo (todo order attempt s) s k
  by_cases hd : s.done k = true
  · exact .inl (done_mono (hattempts ▸ List.prefix_append _ _) hd)
  · have hlen := h.resolve_left hd
    refine .inr ?_
    rw [hattempts, List.length_append, List.length_replicate]
    rcases hlen.eq_or_lt with heq | hlt
    · have hmem : k ∈ todo order attempt s :=
        List.mem_filter.2 ⟨hk, by simp [hd, heq]⟩
      have := List.count_pos_iff.2 hmem
      omega
    · omega

/-- **The passes leave every key done.** -/
theorem done_runPasses {order : List Key} (s : Store V) {k : Key} (hk : k ∈ order) :
    (runPasses c under session order (List.range maxAttempts) s).1.done k = true := by
  have h1 := done_or_runTodo c under session 0 (s := s) hk (.inr (Nat.zero_le _))
  have h2 := done_or_runTodo c under session 1 hk h1
  change Store.done (runTodo c under session 1 (todo order 1 _) _).1 k = true
  rcases h2 with h2 | h2
  · exact h2
  · exact (done_iff _ _).2 (.inr h2)

end Bench

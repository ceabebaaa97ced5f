import MqttBench.Bench.Checks

set_option mvcgen.warning false

/-!
# One run

`run_once` of `bench/runner.py`: the record is filled in field by field in a `try` block,
and a step that raises leaves it as far as it got.

* `tryBlock`, `runOnce` — the program, over what its steps come to.
* `evaluate_total` — a record whose parties reported all they report can be evaluated.
* `tryBlock_raises` — a block that raised has no worker's result, or no capture.
* `runOnce_raised` — **a run in which the harness failed is `invalid`**, whichever step
  failed.
-/

namespace Bench

open Std.Do Checks Histogram

/-! ## What the parties report -/

/-- The keys of the C peers in the record. -/
inductive PeerKey
  | peer
  | peerSource
  deriving DecidableEq

def PeerKey.name : PeerKey → String
  | .peer => "peer"
  | .peerSource => "peer_source"

/-- The keys of `_peer_plan`, and whether each peer starts before the worker. -/
def peerPlan : Kind → List (PeerKey × Bool)
  | .pub | .rtt => [(.peer, true)]
  | .sub => [(.peer, false)]
  | .duplex => [(.peer, true), (.peerSource, false)]
  | .idle => []

/-- The line of `print_result`, the only one but `ready` that a C peer prints. -/
structure PeerLine where
  error : Option String
  counts : PeerCounts
  receivedWindow : ℤ
  propsSeen : ℤ
  sizeMismatch : ℤ
  latency : Hist

def PeerLine.doc (l : PeerLine) : PeerDoc where
  error := l.error
  sentTotal := some l.counts.sentTotal
  sentWindow := some l.counts.sentWindow
  ackedTotal := some l.counts.ackedTotal
  receivedTotal := some l.counts.receivedTotal
  receivedWindow := some l.receivedWindow
  echoedTotal := some l.counts.echoedTotal
  propsSeen := some l.propsSeen
  sizeMismatch := some l.sizeMismatch
  latency := some l.latency

/-- The result file of `bench/worker.py`: the error, or what `_result` returns. -/
inductive WorkerFile
  | failed (error : String)
  | reported (connectNs : ℤ) (windowNs : Option ℤ) (measure end_ : Option Snapshot)
      (final : Snapshot) (latency : Option Hist) (lag : Option Lag)

def WorkerFile.doc : WorkerFile → WorkerDoc
  | .failed error => { ok := some false, error := some error }
  | .reported connectNs windowNs measure end_ final latency lag =>
    { ok := some true, measure, end_, final := some final, windowNs, connectNs := some connectNs
      latency, lag }

/-- What `SysProbe.snapshot` returns. -/
structure SysSnapshot where
  received : Option ℤ
  sent : Option ℤ
  dropped : Option ℤ
  bytesReceived : Option ℤ
  probeMsgs : ℤ

/-- The type of a counter in the text of a `TypeError`. -/
def typeName : Option ℤ → String
  | some _ => "int"
  | none => "NoneType"

/-- `after - before`. -/
def subtract (after before : Option ℤ) : Except String ℤ :=
  match after, before with
  | some a, some b => .ok (a - b)
  | _, _ => .error (s!"TypeError: unsupported operand type(s) for -: '{typeName after}' and " ++
      s!"'{typeName before}'")

/-- `delta(before, after)`. -/
def delta (before after : SysSnapshot) : Except String Sys := do
  let probe := after.probeMsgs - before.probeMsgs
  let sent ← subtract after.sent before.sent
  let received ← subtract after.received before.received
  return {
    received
    sent := sent - probe
    dropped := some (after.dropped.getD 0 - before.dropped.getD 0)
    bytesReceived := some (after.bytesReceived.getD 0 - before.bytesReceived.getD 0) }

/-! ## The program -/

/-- What the steps of the `try` block come to: a value, or the text of the exception. -/
structure Outcomes where
  /-- `ChildProcess(key, ...)`. -/
  spawnPeer : PeerKey → Except String Unit
  /-- Whether `wait_ready` returned something. -/
  peerReady : PeerKey → Except String Bool
  /-- `proc.stderr or proc.last()`. -/
  peerText : PeerKey → Except String String
  spawnWorker : Except String Unit
  workerReady : Except String Bool
  /-- `worker.finish(5.0)`, and `_worker_error`. -/
  workerError : Except String String
  clientAtReady : Except String Unit
  sysBefore : Except String SysSnapshot
  /-- The schedule and the `GO` lines, and the sleep until `t_measure`. -/
  go : Except String Unit
  atMeasure : Except String Unit
  capture : Except String Unit
  atEnd : Except String Unit
  /-- `_resources` of the two readings, with its `broker_cores`. -/
  resources : Except String (Resources × Option ℚ)
  workerExit : Except String Unit
  peerExit : PeerKey → Except String Unit
  /-- `proc.last()`. -/
  peerLast : PeerKey → Except String (Option PeerLine)
  sysAfter : Except String SysSnapshot
  /-- `_load_json(result_path)`. -/
  workerFile : Except String (Option WorkerFile)
  /-- `_worker_error(result_path, worker)`, once the worker is gone. -/
  workerLost : Except String String
  captureFinish : Except String Unit

/-- The record as far as it is filled in. -/
structure Raw where
  worker : Option WorkerFile := none
  peer : Option PeerLine := none
  peerSource : Option PeerLine := none
  broker : Option Broker := none
  resources : Option Resources := none
  /-- Whether the key `sampling` is there. -/
  sampling : Bool := false
  error : Option String := none

/-- `record[key] = ...` for a C peer. -/
def Raw.setPeer (r : Raw) (key : PeerKey) (line : Option PeerLine) : Raw :=
  match key with
  | .peer => { r with peer := line }
  | .peerSource => { r with peerSource := line }

/-- A program that fills in the record and may raise. -/
abbrev Block := EStateM String Raw

/-- A step outside of the program. -/
def step {α : Type} (outcome : Except String α) : Block α :=
  match outcome with
  | .ok a => pure a
  | .error e => throw e

/-- `start_peers`. -/
def startPeers (o : Outcomes) (beforeWorker : Bool) : List (PeerKey × Bool) → Block Unit
  | [] => pure ()
  | (key, first) :: plan => do
    if first = beforeWorker then
      step (o.spawnPeer key)
      let ready ← step (o.peerReady key)
      if ready = false then
        let text ← step (o.peerText key)
        throw s!"RuntimeError: {key.name} not ready: {text}"
    startPeers o beforeWorker plan

/-- The loop that finishes the peers. -/
def finishPeers (o : Outcomes) : List (PeerKey × Bool) → Block Unit
  | [] => pure ()
  | (key, _) :: plan => do
    step (o.peerExit key)
    let line ← step (o.peerLast key)
    modify fun r => r.setPeer key line
    finishPeers o plan

/-- The worker and the peers are started. -/
def startAll (o : Outcomes) (kind : Kind) : Block Unit := do
  startPeers o true (peerPlan kind)
  step o.spawnWorker
  let ready ← step o.workerReady
  if ready = false then
    let text ← step o.workerError
    throw s!"RuntimeError: worker not ready: {text}"
  startPeers o false (peerPlan kind)

/-- The window is measured, and all are finished. -/
def measureAll (o : Outcomes) (kind : Kind) (sampled : Bool) : Block Unit := do
  step o.clientAtReady
  let sysBefore ← step o.sysBefore
  step o.go
  step o.atMeasure
  if sampled then step o.capture
  step o.atEnd
  let resources ← step o.resources
  modify fun r => { r with resources := some resources.1 }
  step o.workerExit
  finishPeers o (peerPlan kind)
  let sysAfter ← step o.sysAfter
  let sys ← step (delta sysBefore sysAfter)
  modify fun r => { r with broker := some { sys := some sys, cpuCores := resources.2 } }

/-- `_load_json(result_path)`, or a result that says what went wrong. -/
def loadWorker (o : Outcomes) : Block WorkerFile := do
  match ← step o.workerFile with
  | some file => return file
  | none => return .failed (← step o.workerLost)

/-- The worker's result is loaded and the capture is finished. -/
def loadAll (o : Outcomes) (sampled : Bool) : Block Unit := do
  let worker ← loadWorker o
  modify fun r => { r with worker := some worker }
  if sampled then
    step o.captureFinish
    modify fun r => { r with sampling := true }

/-- The `try` block; `sampled` says whether `ctx.sampling` is set. -/
def tryBlock (o : Outcomes) (kind : Kind) (sampled : Bool) : Block Unit := do
  startAll o kind
  measureAll o kind sampled
  loadAll o sampled

/-- The record as `evaluate` reads it; `schedule["measure_s"]` is the profile's, whether the
schedule was set in the block or after it. -/
def Raw.record (r : Raw) (point : Point) (profile : Profile) : RunRecord where
  point
  worker := r.worker.map WorkerFile.doc
  peer := r.peer.map PeerLine.doc
  peerSource := r.peerSource.map PeerLine.doc
  broker := r.broker
  resources := r.resources
  measureS := profile.measureS
  -- `bench/<run_id>/data`, or padded to `ALIAS_TOPIC_BYTES`
  dataTopicBytes := some (if point.topicAlias then 200 else 23)

/-- The record that `run_once` returns. -/
structure Finished where
  status : Status
  checks : List Check := []
  metrics : List (String × Metric) := []
  /-- The histograms that the metrics were computed from. -/
  histograms : List (String × Metric) := []
  flags : List String := []
  reasons : List String := []
  raw : Raw := {}

/-- `sorted(set(...))`. -/
def sortedSet (xs : List String) : List String := xs.dedup.mergeSort fun a b => decide (a ≤ b)

/-- `run_once`; `refusals` is what the client cannot do at the point. -/
def runOnce (refusals : List String) (o : Outcomes) (point : Point) (profile : Profile)
    (sampled : Bool) : Except Failure Finished := do
  if refusals ≠ [] then
    return { status := .unsupported, reasons := refusals }
  let raw := match (tryBlock o point.kind sampled).run {} with
    | .ok _ r => r
    | .error e r => { r with error := some e, worker := some (r.worker.getD (.failed e)) }
  let out ← evaluate (raw.record point profile) profile.comparable
  let kept (e : String × Metric) : Bool := e.1 ∈ ["latency", "latency_rx", "lag"]
  let flags := if profile.comparable then out.flags else sortedSet ("non_comparable" :: out.flags)
  let finished : Finished := {
    status := out.status
    checks := out.checks
    metrics := out.metrics.filter fun e => !kept e
    histograms := out.metrics.filter kept
    flags := if sampled then sortedSet ("non_comparable" :: "instrumented" :: flags) else flags
    raw }
  if sampled ∧ raw.sampling = false then
    return { finished with status := .invalid, reasons := ["sampling_failed"] }
  return finished

/-! ## What a block that raised leaves -/

/-- Nothing was loaded, and nothing sampled. -/
def Raw.Unloaded (r : Raw) : Prop := r.worker = none ∧ r.sampling = false

theorem Raw.Unloaded.setPeer {r : Raw} (h : r.Unloaded) (key : PeerKey) (line : Option PeerLine) :
    (r.setPeer key line).Unloaded := by
  cases key <;> exact h

@[spec]
theorem startPeers_spec (o : Outcomes) (beforeWorker : Bool) (plan : List (PeerKey × Bool)) :
    ⦃fun r => ⌜r.Unloaded⌝⦄ startPeers o beforeWorker plan
    ⦃post⟨fun _ r => ⌜r.Unloaded⌝, fun _ r => ⌜r.Unloaded⌝⟩⦄ := by
  induction plan with
  | nil => mvcgen [startPeers]
  | cons e plan ih => mvcgen [startPeers, step, ih]

@[spec]
theorem finishPeers_spec (o : Outcomes) (plan : List (PeerKey × Bool)) :
    ⦃fun r => ⌜r.Unloaded⌝⦄ finishPeers o plan
    ⦃post⟨fun _ r => ⌜r.Unloaded⌝, fun _ r => ⌜r.Unloaded⌝⟩⦄ := by
  induction plan with
  | nil => mvcgen [finishPeers]
  | cons e plan ih =>
    mvcgen [finishPeers, step, ih]
    exact Raw.Unloaded.setPeer (by assumption) _ _

@[spec]
theorem startAll_spec (o : Outcomes) (kind : Kind) :
    ⦃fun r => ⌜r.Unloaded⌝⦄ startAll o kind
    ⦃post⟨fun _ r => ⌜r.Unloaded⌝, fun _ r => ⌜r.Unloaded⌝⟩⦄ := by
  mvcgen [startAll, step]

@[spec]
theorem measureAll_spec (o : Outcomes) (kind : Kind) (sampled : Bool) :
    ⦃fun r => ⌜r.Unloaded⌝⦄ measureAll o kind sampled
    ⦃post⟨fun _ r => ⌜r.Unloaded⌝, fun _ r => ⌜r.Unloaded⌝⟩⦄ := by
  mvcgen [measureAll, step]

/-- What an exception leaves: no worker's result, or no capture though one was asked for. -/
def Raw.Interrupted (sampled : Bool) (r : Raw) : Prop :=
  r.worker = none ∨ sampled = true ∧ r.sampling = false

theorem Raw.Unloaded.interrupted {r : Raw} (h : r.Unloaded) (sampled : Bool) :
    r.Interrupted sampled := .inl h.1

@[spec]
theorem loadWorker_spec (o : Outcomes) :
    ⦃fun r => ⌜r.Unloaded⌝⦄ loadWorker o
    ⦃post⟨fun _ r => ⌜r.Unloaded⌝, fun _ r => ⌜r.Unloaded⌝⟩⦄ := by
  mvcgen [loadWorker, step]

@[spec]
theorem loadAll_spec (o : Outcomes) (sampled : Bool) :
    ⦃fun r => ⌜r.Unloaded⌝⦄ loadAll o sampled
    ⦃post⟨fun _ _ => ⌜True⌝, fun _ r => ⌜r.Interrupted sampled⌝⟩⦄ := by
  mvcgen [loadAll, step]
  · next hr _ hs _ _ => exact .inr ⟨hs, hr.2⟩
  · intro hr
    exact hr.interrupted sampled

theorem tryBlock_spec (o : Outcomes) (kind : Kind) (sampled : Bool) :
    ⦃fun r => ⌜r.Unloaded⌝⦄ tryBlock o kind sampled
    ⦃post⟨fun _ _ => ⌜True⌝, fun _ r => ⌜r.Interrupted sampled⌝⟩⦄ := by
  mvcgen [tryBlock]
  all_goals exact fun hr => hr.interrupted sampled

/-- A block that raised has loaded no worker's result, or finished no capture. -/
theorem tryBlock_raises {o : Outcomes} {kind : Kind} {sampled : Bool} {e : String} {r : Raw}
    (h : (tryBlock o kind sampled).run {} = .error e r) : r.Interrupted sampled := by
  let left : EStateM.Result String Raw Unit → Prop
    | .ok _ _ => True
    | .error _ r => r.Interrupted sampled
  exact EStateM.of_wp_run_eq h left fun _ => tryBlock_spec o kind sampled {} ⟨rfl, rfl⟩

/-! ## The evaluation of a partial record -/

/-- Who reported without error reported all it reports. -/
structure Complete (record : RunRecord) : Prop where
  worker : ∀ doc, record.worker = some doc → doc.ok = some true → doc.final.isSome
  peer : ∀ doc, record.peer = some doc → doc.error = none → ∃ n, doc.Reports n
  source : ∀ doc, record.peerSource = some doc → doc.error = none → ∃ n, doc.Reports n
  measureS : record.measureS ≠ 0

/-- What `evaluate` reads once every party reported. -/
structure Answered (record : RunRecord) (n : Counts) : Prop where
  measure : record.workerDoc.measure = some n.start
  end_ : record.workerDoc.end_ = some n.stop
  final : record.workerDoc.final = some n.final
  peer : record.point.kind ≠ .idle → record.peerDoc.Reports n.peer
  source : record.point.kind = .duplex → record.sourceDoc.Reports n.source
  sys : record.sys = some n.sys
  windowS : record.windowS ≠ 0

theorem RunRecord.windowS_ne_zero {record : RunRecord} (h : record.measureS ≠ 0) :
    record.windowS ≠ 0 := by
  unfold RunRecord.windowS
  simp only
  split
  · exact h
  · assumption

/-- A peer that completed has reported its counts. -/
theorem completed_reports {party : Option PeerDoc} {label : String}
    (hparty : ∀ doc, party = some doc → doc.error = none → ∃ n, doc.Reports n)
    (h : (completed party label).1 = true) : ∃ n, (party.getD {}).Reports n := by
  cases hp : party with
  | none =>
    rw [hp] at h
    cases h
  | some doc =>
    rw [hp, completed] at h
    cases he : doc.error with
    | none => exact hparty doc hp he
    | some error =>
      rw [he] at h
      cases h

/-- When no report is missing, everything is there. -/
theorem Complete.answered {record : RunRecord} (h : Complete record)
    (hclear : Clear (reportChecks record)) : ∃ n, Answered record n := by
  simp only [reportChecks, clear_append, clear_singleton, forall_const] at hclear
  obtain ⟨⟨⟨hworker, hpeer⟩, hsource⟩, hsys⟩ := hclear
  simp only [Bool.and_eq_true, Option.isSome_iff_exists] at hworker
  obtain ⟨⟨hok, start, hstart⟩, stop, hstop⟩ := hworker
  obtain ⟨final, hfinal⟩ : ∃ final, record.workerDoc.final = some final := by
    cases hw : record.worker with
    | none => simp [RunRecord.workerDoc, hw] at hok
    | some doc =>
      rw [RunRecord.workerDoc, hw] at hok ⊢
      have hdoc : doc.ok = some true := by
        cases hd : doc.ok with
        | none => simp [hd] at hok
        | some b => simpa [hd] using hok
      exact Option.isSome_iff_exists.1 (h.worker doc hw hdoc)
  obtain ⟨sys, hsys⟩ := Option.isSome_iff_exists.1 hsys
  have hpeers : ∃ n, record.point.kind ≠ .idle → record.peerDoc.Reports n := by
    by_cases hk : record.point.kind = .idle
    · exact ⟨⟨0, 0, 0, 0, 0⟩, fun hne => absurd hk hne⟩
    · rw [if_neg hk, clear_singleton] at hpeer
      obtain ⟨n, hn⟩ := completed_reports h.peer (hpeer rfl)
      exact ⟨n, fun _ => hn⟩
  have hsources : ∃ n, record.point.kind = .duplex → record.sourceDoc.Reports n := by
    by_cases hk : record.point.kind = .duplex
    · rw [if_pos hk, clear_singleton] at hsource
      obtain ⟨n, hn⟩ := completed_reports h.source (hsource rfl)
      exact ⟨n, fun _ => hn⟩
    · exact ⟨⟨0, 0, 0, 0, 0⟩, fun hd => absurd hd hk⟩
  obtain ⟨peer, hpeer⟩ := hpeers
  obtain ⟨source, hsource⟩ := hsources
  exact ⟨⟨start, stop, final, peer, source, sys⟩, hstart, hstop, hfinal, hpeer, hsource, hsys,
    RunRecord.windowS_ne_zero h.measureS⟩

namespace Answered

variable {record : RunRecord} {n : Counts}

theorem publishChecks_ok (h : Answered record n) :
    ∃ cs, publishChecks record n.final n.sys = .ok cs := by
  unfold publishChecks
  cases hk : record.point.kind with
  | sub =>
    simp only [(h.peer (by simp [hk])).sentTotal, need_some]
    exact ⟨_, rfl⟩
  | pub | rtt | duplex | idle => exact ⟨_, rfl⟩

theorem deliveryChecks_ok (h : Answered record n) :
    ∃ cs, deliveryChecks record n.final n.sys = .ok cs := by
  unfold deliveryChecks
  cases hk : record.point.kind with
  | sub =>
    simp only
    split <;> exact ⟨_, rfl⟩
  | pub | rtt | duplex =>
    simp only [(h.peer (by simp [hk])).receivedTotal, need_some]
    exact ⟨_, rfl⟩
  | idle => exact ⟨_, rfl⟩

theorem lossChecks_ok (h : Answered record n) :
    ∃ cs, lossChecks record n.final n.sys = .ok cs := by
  unfold lossChecks
  simp only
  split
  · exact ⟨_, rfl⟩
  · cases hk : record.point.kind with
    | idle => exact ⟨_, rfl⟩
    | pub =>
      simp only [(h.peer (by simp [hk])).receivedTotal, need_some]
      exact ⟨_, rfl⟩
    | sub =>
      simp only [(h.peer (by simp [hk])).ackedTotal, need_some]
      split <;> exact ⟨_, rfl⟩
    | rtt =>
      simp only [(h.peer (by simp [hk])).echoedTotal, need_some]
      exact ⟨_, rfl⟩
    | duplex =>
      simp only [(h.peer (by simp [hk])).receivedTotal, (h.source hk).ackedTotal, need_some]
      exact ⟨_, rfl⟩

theorem rateChecks_ok (h : Answered record n) : ∃ cs, rateChecks record = .ok cs := by
  unfold rateChecks
  simp only [windowDelta_ok _ h.measure h.end_]
  split
  · exact ⟨_, rfl⟩
  · cases hk : record.point.kind with
    | pub | rtt | idle => exact ⟨_, rfl⟩
    | sub =>
      simp only [(h.peer (by simp [hk])).sentWindow, need_some]
      exact ⟨_, rfl⟩
    | duplex =>
      simp only [(h.source hk).sentWindow, need_some]
      exact ⟨_, rfl⟩

theorem featureChecks_ok (h : Answered record n) :
    ∃ cs, featureChecks record n.final n.sys = .ok cs := by
  unfold featureChecks
  by_cases hk : record.point.kind = .idle
  · simp only [hk, reduceCtorEq, or_self, false_and, if_false]
    cases record.peerDoc.sizeMismatch <;> exact ⟨_, rfl⟩
  · simp only [(h.peer hk).receivedTotal, need_some]
    cases record.peerDoc.sizeMismatch with
    | none =>
      simp only
      split <;> split <;> exact ⟨_, rfl⟩
    | some bad =>
      simp only
      split <;> split <;> split <;> exact ⟨_, rfl⟩

theorem flags_ok (h : Answered record n) (strict : Bool) :
    ∃ fs, flags record n.sys strict = .ok fs := by
  unfold flags rateOfferReached
  simp only [windowDelta_ok _ h.measure h.end_]
  split
  · split <;> exact ⟨_, rfl⟩
  · exact ⟨_, rfl⟩

end Answered

/-- **`evaluate` is total on what the parties report**, however much of it there is. -/
theorem evaluate_total {record : RunRecord} (h : Complete record) (strict : Bool) :
    ∃ out, evaluate record strict = .ok out := by
  by_cases hbad : status (reportChecks record) = .invalid
  · unfold evaluate
    simp only [if_pos hbad]
    exact ⟨_, rfl⟩
  · have hclear := (status_ne_invalid_iff _).1 hbad
    obtain ⟨n, hn⟩ := h.answered hclear
    obtain ⟨published, hpublished⟩ := hn.publishChecks_ok
    obtain ⟨delivered, hdelivered⟩ := hn.deliveryChecks_ok
    obtain ⟨kept, hkept⟩ := hn.lossChecks_ok
    obtain ⟨held, hheld⟩ := hn.rateChecks_ok
    obtain ⟨features, hfeatures⟩ := hn.featureChecks_ok
    obtain ⟨fs, hflags⟩ := hn.flags_ok strict
    obtain ⟨ms, hmetrics⟩ := metrics_ok hn.measure hn.end_ hn.final hn.sys hn.windowS
    obtain ⟨out, hout, -⟩ := evaluate_ok hclear hn.final hn.sys hpublished hdelivered hkept hheld
      hfeatures hflags hmetrics
    exact ⟨out, hout⟩

/-- Without a worker's result that says `ok` the run is useless. -/
theorem evaluate_invalid {record : RunRecord} (h : record.workerDoc.ok ≠ some true)
    (strict : Bool) :
    ∃ out, evaluate record strict = .ok out ∧ out.status = .invalid := by
  have hbad : status (reportChecks record) = .invalid := by
    by_contra hne
    have hclear := (status_ne_invalid_iff _).1 hne
    simp only [reportChecks, clear_append, clear_singleton, forall_const, Bool.and_eq_true]
      at hclear
    have hok := hclear.1.1.1.1.1
    cases hd : record.workerDoc.ok with
    | none => simp [hd] at hok
    | some b => exact h (by simpa [hd] using hok)
  unfold evaluate
  simp only [if_pos hbad]
  exact ⟨_, rfl, rfl⟩

/-! ## The run -/

theorem Raw.complete (r : Raw) (point : Point) {profile : Profile} (h : profile.measureS ≠ 0) :
    Complete (r.record point profile) where
  worker doc hdoc hok := by
    obtain ⟨file, -, rfl⟩ := Option.map_eq_some_iff.1 hdoc
    cases file with
    | failed error => simp [WorkerFile.doc] at hok
    | reported => rfl
  peer doc hdoc _ := by
    obtain ⟨line, -, rfl⟩ := Option.map_eq_some_iff.1 hdoc
    exact ⟨line.counts, by assumption, rfl, rfl, rfl, rfl, rfl⟩
  source doc hdoc _ := by
    obtain ⟨line, -, rfl⟩ := Option.map_eq_some_iff.1 hdoc
    exact ⟨line.counts, by assumption, rfl, rfl, rfl, rfl, rfl⟩
  measureS := h

/-- **A run in which the harness failed never looks usable.**  Whichever step of the block
raises, `run_once` returns a record that carries the text of the exception and is
`invalid`. -/
theorem runOnce_raised (o : Outcomes) (point : Point) (profile : Profile)
    (hprofile : profile.measureS ≠ 0) (sampled : Bool) (e : String) (r : Raw)
    (h : (tryBlock o point.kind sampled).run {} = .error e r) :
    ∃ out, runOnce [] o point profile sampled = .ok out ∧ out.raw.error = some e ∧
      out.status = .invalid := by
  obtain ⟨raw, hraw⟩ : ∃ raw : Raw, raw =
    { r with error := some e, worker := some (r.worker.getD (.failed e)) } := ⟨_, rfl⟩
  have herror : raw.error = some e := by rw [hraw]
  obtain ⟨out, hout⟩ := evaluate_total (raw.complete point hprofile) profile.comparable
  have hstatus : out.status = .invalid ∨ sampled = true ∧ raw.sampling = false := by
    rcases tryBlock_raises h with hworker | hcapture
    · -- the worker's result is the one that `setdefault` puts
      have hfailed : (raw.record point profile).workerDoc.ok ≠ some true := by
        simp [hraw, hworker, Raw.record, RunRecord.workerDoc, WorkerFile.doc]
      obtain ⟨out', hout', hinvalid⟩ := evaluate_invalid hfailed profile.comparable
      obtain rfl := Except.ok.inj (hout'.symm.trans hout)
      exact .inl hinvalid
    · rw [hraw]
      exact .inr hcapture
  unfold runOnce
  simp only [h, ne_eq, not_true_eq_false, if_false, ← hraw]
  simp only [bind, Except.bind, hout]
  by_cases hcapture : sampled = true ∧ raw.sampling = false
  · simp only [if_pos hcapture]
    exact ⟨_, rfl, herror, rfl⟩
  · simp only [if_neg hcapture]
    exact ⟨_, rfl, herror, hstatus.resolve_right hcapture⟩

/-- A run at which nothing fails but the last step. -/
def lostCapture : Outcomes where
  spawnPeer _ := .ok ()
  peerReady _ := .ok true
  peerText _ := .ok ""
  spawnWorker := .ok ()
  workerReady := .ok true
  workerError := .ok ""
  clientAtReady := .ok ()
  sysBefore := .ok ⟨some 0, some 0, none, none, 0⟩
  go := .ok ()
  atMeasure := .ok ()
  capture := .ok ()
  atEnd := .ok ()
  resources := .ok ({}, none)
  workerExit := .ok ()
  peerExit _ := .ok ()
  peerLast _ := .ok (some ⟨none, ⟨0, 0, 0, 0, 0⟩, 0, 0, 0, ⟨0, 0, 0, 0, 0, []⟩⟩)
  sysAfter := .ok ⟨some 0, some 0, none, none, 0⟩
  workerFile := .ok (some (.reported 0 none (some ⟨0, 0, 0, none⟩) (some ⟨0, 0, 0, none⟩)
    ⟨0, 0, 0, none⟩ none none))
  workerLost := .ok ""
  captureFinish := .error "RuntimeError: Tachyon captured no stacks"

/-- The standard profile, as a sampled campaign has it. -/
theorem runOnce_raised_example :
    ∃ out, runOnce [] lostCapture { name := "pub_qos0_max", kind := .pub, question := "" }
        { name := "standard", warmupS := 2, measureS := 8, drainS := 2, runs := 3
          comparable := false } true = .ok out ∧
      out.raw.error = some "RuntimeError: Tachyon captured no stacks" ∧ out.status = .invalid :=
  runOnce_raised _ _ _ (by norm_num) _ _ _ rfl

end Bench

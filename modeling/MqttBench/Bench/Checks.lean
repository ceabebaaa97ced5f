import MqttBench.Bench.Catalog
import MqttBench.Bench.Histogram
import MqttBench.Lib.Rounding

/-!
# What the counts of a run may be used for

`bench/checks.py`.  Every check compares the counts of two parties that share no code: the
client worker, the C peers and the broker's `$SYS` counters.  A key that is missing where
the program indexes is an error, and so is a division by zero.

* `evaluate` — the program: the checks in its order, the status, the metrics, the flags.
* `Honest` — every harness party did its job, and `k` messages that the broker had sent
  were not read by the client when the run stopped.
* `status_ne_invalid_iff` — a run is usable when no check that blames the harness failed.
* `evaluate_usable_iff` — **what of an honest run with a slow client is held against the
  harness**: a backlog above the tolerance, a loss without drops, a filter missed.
-/

namespace Bench

/-- The status of a run. -/
inductive Status
  | valid
  | notSustained
  | invalid
  | unsupported
  deriving DecidableEq

namespace Checks

open Histogram
open Rounding (roundHalfEven)

/-- `RATE_HELD`. -/
def rateHeld : ℚ := 98 / 100

/-- `BROKER_CPU_LIMIT`. -/
def brokerCpuLimit : ℚ := 85 / 100

/-- `HOST_NOISE_CORES`. -/
def hostNoiseCores : ℚ := 1 / 2

/-- `KERNEL_STATES`. -/
def kernelStates : List String := ["irq", "softirq", "iowait", "steal"]

/-- `KERNEL_STATE_FLOOR`. -/
def kernelStateFloor : ℚ := 5 / 100

/-! ## A raw run -/

/-- What `Run.snapshot` returns. -/
structure Snapshot where
  sent : ℤ
  done : ℤ
  received : ℤ
  unmatched : Option ℤ := none

/-- The histogram of `_lag_histogram`. -/
structure Lag extends Hist where
  unsent : Option ℤ := none

/-- What the worker reports. -/
structure WorkerDoc where
  ok : Option Bool := none
  error : Option String := none
  measure : Option Snapshot := none
  end_ : Option Snapshot := none
  final : Option Snapshot := none
  windowNs : Option ℤ := none
  connectNs : Option ℤ := none
  latency : Option Hist := none
  lag : Option Lag := none

/-- The last line of a C peer. -/
structure PeerDoc where
  error : Option String := none
  sentTotal : Option ℤ := none
  sentWindow : Option ℤ := none
  ackedTotal : Option ℤ := none
  receivedTotal : Option ℤ := none
  receivedWindow : Option ℤ := none
  echoedTotal : Option ℤ := none
  propsSeen : Option ℤ := none
  sizeMismatch : Option ℤ := none
  latency : Option Hist := none

/-- What `sysprobe.delta` returns. -/
structure Sys where
  received : ℤ
  sent : ℤ
  dropped : Option ℤ := none
  bytesReceived : Option ℤ := none

structure Broker where
  sys : Option Sys := none
  cpuCores : Option ℚ := none

/-- What `procstat.process_delta` returns; it sets both counts of context switches. -/
structure ClientUse where
  cpuNs : Option ℤ := none
  cpuUserS : Option ℚ := none
  cpuSysS : Option ℚ := none
  rssStartKb : Option ℤ := none
  rssEndKb : Option ℤ := none
  rssPeakKb : Option ℤ := none
  threads : Option ℤ := none
  /-- `ctx_voluntary` and `ctx_involuntary`. -/
  ctx : Option (ℤ × ℤ) := none

structure Host where
  otherCores : Option ℚ := none
  top : List (String × ℚ) := []
  states : List (String × ℚ) := []
  unattributedCores : Option ℚ := none

structure Resources where
  client : Option ClientUse := none
  host : Option Host := none

/-- One raw run.  The point is recorded by `as_dict`, so that `get` with the default reads
its fields back. -/
structure RunRecord where
  point : Point
  worker : Option WorkerDoc := none
  peer : Option PeerDoc := none
  peerSource : Option PeerDoc := none
  broker : Option Broker := none
  resources : Option Resources := none
  /-- `schedule["measure_s"]`. -/
  measureS : ℚ
  dataTopicBytes : Option ℤ := none

namespace RunRecord

variable (record : RunRecord)

/-- `record.get("worker") or {}`. -/
def workerDoc : WorkerDoc := record.worker.getD {}

/-- `record.get("peer") or {}`. -/
def peerDoc : PeerDoc := record.peer.getD {}

/-- `record.get("peer_source") or {}`. -/
def sourceDoc : PeerDoc := record.peerSource.getD {}

/-- `(record.get("broker") or {}).get("sys")`. -/
def sys : Option Sys := record.broker.bind Broker.sys

/-- `(record.get("broker") or {}).get("cpu_cores")`. -/
def brokerCpu : Option ℚ := record.broker.bind Broker.cpuCores

/-- `(record.get("resources") or {}).get("client") or {}`. -/
def client : ClientUse := (record.resources.bind Resources.client).getD {}

/-- `(record.get("resources") or {}).get("host") or {}`. -/
def host : Host := (record.resources.bind Resources.host).getD {}

/-- `(worker.get("window_ns") or 0) / 1e9 or record["schedule"]["measure_s"]`. -/
def windowS : ℚ :=
  let windowS : ℚ := record.workerDoc.windowNs.getD 0 / 1000000000
  if windowS = 0 then record.measureS else windowS

end RunRecord

/-! ## Texts -/

/-- `f"{q:.<digits>f}"`. -/
def fixed (digits : ℕ) (q : ℚ) : String :=
  let n := (roundHalfEven (|q| * 10 ^ digits)).toNat
  let tail := toString (n % 10 ^ digits)
  (if q < 0 then "-" else "") ++ toString (n / 10 ^ digits) ++
    if digits = 0 then "" else "." ++ "".pushn '0' (digits - tail.length) ++ tail

/-- `noise_causes(host)`. -/
def noiseCauses (host : Host) : String :=
  let top := (host.top.take 3).map fun t => s!"{t.1} {fixed 2 t.2}"
  let states := (host.states.mergeSort fun a b => b.2 ≤ a.2).filterMap fun s =>
    if s.1 ∈ kernelStates ∧ kernelStateFloor ≤ s.2 then some s!"{s.1} {fixed 2 s.2}" else none
  let unattributed := match host.unattributedCores with
    | some cores => if kernelStateFloor ≤ cores then [s!"unattributed {fixed 2 cores}"] else []
    | none => []
  let parts := top ++ states ++ unattributed
  if parts = [] then "" else " (top: " ++ ", ".intercalate parts ++ ")"

/-! ## Checks -/

structure Check where
  name : String
  passed : Bool
  detail : String
  severity : Status := .invalid

/-- `_Checks.status`. -/
def status (items : List Check) : Status :=
  let failed := items.filter fun c => !c.passed
  if failed.any fun c => decide (c.severity = .invalid) then .invalid
  else if failed.isEmpty then .valid
  else .notSustained

/-- Why `evaluate` can raise. -/
inductive Failure
  | missing (key : String)
  | zeroDivision
  deriving DecidableEq

/-- `d[key]`. -/
def need {α : Type} (key : String) : Option α → Except Failure α
  | some v => .ok v
  | none => .error (.missing key)

/-- `a / b`. -/
def div (a b : ℚ) : Except Failure ℚ := if b = 0 then .error .zeroDivision else .ok (a / b)

/-- `tolerance(n)`. -/
def tolerance (n : ℤ) : ℤ := 5 + max 0 n / 2000

/-- `_window_delta(worker, key)`. -/
def windowDelta (worker : WorkerDoc) (key : Snapshot → ℤ) : Except Failure ℤ := do
  return key (← need "end" worker.end_) - key (← need "measure" worker.measure)

/-- `_completed(party, label)`. -/
def completed (party : Option PeerDoc) (label : String) : Bool × String :=
  match party with
  | none => (false, s!"{label} error: no result")
  | some doc =>
    match doc.error with
    | none => (true, s!"{label} reported its counts")
    | some error => (false, s!"{label} error: {error}")

/-- The checks that every party reported. -/
def reportChecks (record : RunRecord) : List Check :=
  let worker := record.workerDoc
  let kind := record.point.kind
  let peer := completed record.peer "peer"
  let source := completed record.peerSource "source"
  [{ name := "worker_completed"
     passed := worker.ok.getD false && worker.measure.isSome && worker.end_.isSome
     detail := match worker.error with
       | some error => if error = "" then "worker reported its counts" else error
       | none => "worker reported its counts" }]
    ++ (if kind = .idle then []
      else [{ name := "peer_completed", passed := peer.1, detail := peer.2 }])
    ++ (if kind = .duplex then
        [{ name := "source_completed", passed := source.1, detail := source.2 }]
      else [])
    ++ [{ name := "broker_counters_read"
          passed := record.sys.isSome
          detail := "fresh $SYS reading before and after the run" }]

/-- `published_by_others`. -/
def publishedByOthers (record : RunRecord) : ℤ :=
  match record.point.kind with
  | .rtt => record.peerDoc.echoedTotal.getD 0
  | .duplex => record.sourceDoc.sentTotal.getD 0
  | _ => 0

/-- The publish side confirmed by the broker. -/
def publishChecks (record : RunRecord) (final : Snapshot) (sys : Sys) :
    Except Failure (List Check) :=
  match record.point.kind with
  | .pub | .rtt | .duplex =>
    let got := sys.received - publishedByOthers record
    let low := final.done - tolerance final.done
    let high := final.sent + tolerance final.sent
    return [
      { name := "broker_confirms_client_publishes"
        passed := decide (low ≤ got ∧ got ≤ high)
        detail := s!"broker received {got} from the client; client sent {final.sent}, " ++
          s!"completed {final.done}" }]
  | .sub => do
    let got := sys.received
    let sent ← need "sent_total" record.peerDoc.sentTotal
    return [
      { name := "broker_confirms_peer_publishes"
        passed := decide (|got - sent| ≤ tolerance sent)
        detail := s!"broker received {got}; peer wrote {sent}" }]
  | .idle => return []

/-- The deliveries confirmed by the broker. -/
def deliveryChecks (record : RunRecord) (final : Snapshot) (sys : Sys) :
    Except Failure (List Check) :=
  let equal (delivered : ℤ) (detail : String) : Check :=
    { name := "broker_confirms_deliveries"
      passed := decide (|sys.sent - delivered| ≤ tolerance delivered)
      detail }
  match record.point.kind with
  | .pub => do
    let delivered ← need "received_total" record.peerDoc.receivedTotal
    return [equal delivered s!"broker sent {sys.sent}; peer received {delivered}"]
  | .sub =>
    let delivered := final.received
    if record.point.rate ≠ 0 then
      return [equal delivered s!"broker sent {sys.sent}; client received {delivered}"]
    else
      -- a client slower than the offer still has megabytes in its socket buffers at t_stop,
      -- so that only receiving more than was sent is wrong
      return [
        { name := "broker_confirms_deliveries"
          passed := decide (delivered ≤ sys.sent + tolerance delivered)
          detail := s!"broker sent {sys.sent}; client received {delivered} by t_stop" }]
  | .rtt | .duplex => do
    let received ← need "received_total" record.peerDoc.receivedTotal
    let other := if record.point.kind = .rtt then "echo" else "sink"
    return [equal (final.received + received)
      (s!"broker sent {sys.sent}; client received {final.received}, " ++
        s!"{other} received {received}")]
  | .idle => return []

/-- Every acknowledged publish reached its subscriber. -/
def lossCheck (name : String) (acked delivered : ℤ) (detail : String) (severity : Status) :
    Check where
  name := name
  passed := decide (acked - tolerance acked ≤ delivered)
  detail := detail
  severity := severity

/-- QoS 1 and 2: the checks of `no_loss` and `no_loss_inbound`. -/
def lossChecks (record : RunRecord) (final : Snapshot) (sys : Sys) :
    Except Failure (List Check) :=
  let dropped := sys.dropped.getD 0
  let peer := record.peerDoc
  let blame : Status := if dropped ≠ 0 then .notSustained else .invalid
  if record.point.qos < 1 then return []
  else
    match record.point.kind with
    | .pub => do
      let delivered ← need "received_total" peer.receivedTotal
      return [lossCheck "no_loss" final.done delivered
        s!"client saw {final.done} completions; peer received {delivered}" .invalid]
    | .sub =>
      if record.point.rate = 0 then return []
      else do
        let acked ← need "acked_total" peer.ackedTotal
        return [lossCheck "no_loss" acked final.received
          (s!"broker acknowledged {acked} from the peer; client received {final.received}; " ++
            s!"broker dropped {dropped}") blame]
    | .rtt => do
      let echoed ← need "echoed_total" peer.echoedTotal
      return [lossCheck "no_loss" echoed final.received
        s!"echo sent {echoed} replies; client received {final.received}" .notSustained]
    | .duplex => do
      let delivered ← need "received_total" peer.receivedTotal
      let acked ← need "acked_total" record.sourceDoc.ackedTotal
      return [
        lossCheck "no_loss" final.done delivered
          s!"client saw {final.done} completions; peer received {delivered}" .invalid,
        lossCheck "no_loss_inbound" acked final.received
          (s!"broker acknowledged {acked} from the source; client received {final.received}; " ++
            s!"broker dropped {dropped}") blame]
    | .idle => return []

/-- At least 98 % of the offer. -/
def heldCheck (name : String) (got : ℤ) (offered : ℚ) (detail : String) (severity : Status) :
    Check where
  name := name
  passed := decide (rateHeld * offered ≤ got)
  detail := detail
  severity := severity

/-- The fixed offer was actually offered and absorbed. -/
def rateChecks (record : RunRecord) : Except Failure (List Check) :=
  let worker := record.workerDoc
  let offered : ℚ := record.point.rate * record.windowS
  let produced : Except Failure (List Check) := do
    let sent ← windowDelta worker Snapshot.sent
    return [heldCheck "offered_rate_held" sent offered
      s!"client published {sent} of {fixed 0 offered} offered in the window" .notSustained]
  let keptUp (peerSent : ℤ) : Except Failure (List Check) := do
    let got ← windowDelta worker Snapshot.received
    return [heldCheck "client_kept_up" got peerSent
      s!"client received {got} of {peerSent} in the window" .notSustained]
  if record.point.rate = 0 then return []
  else
    match record.point.kind with
    | .pub => produced
    | .rtt => do
      let sent ← windowDelta worker Snapshot.sent
      let replies ← windowDelta worker Snapshot.received
      return (← produced) ++ [heldCheck "responses_kept_up" replies sent
        s!"client received {replies} replies to {sent} requests in the window" .notSustained]
    | .sub => do
      let peerSent ← need "sent_window" record.peerDoc.sentWindow
      return [heldCheck "offered_rate_held" peerSent offered
        s!"peer wrote {peerSent} of {fixed 0 offered} offered in the window" .invalid]
        ++ (← keptUp peerSent)
    | .duplex => do
      let client ← produced
      let peerSent ← need "sent_window" record.sourceDoc.sentWindow
      return client ++ [heldCheck "source_rate_held" peerSent offered
        s!"source wrote {peerSent} of {fixed 0 offered} offered in the window" .invalid]
        ++ (← keptUp peerSent)
    | .idle => return []

/-- `_feature_checks`: what the extended points add on top of the counts. -/
def featureChecks (record : RunRecord) (final : Snapshot) (sys : Sys) :
    Except Failure (List Check) := do
  let point := record.point
  let peer := record.peerDoc
  let intact ← match peer.sizeMismatch with
    | some bad =>
      if point.kind = .pub ∨ point.kind = .duplex then do
        let received ← need "received_total" peer.receivedTotal
        pure [{ name := "payloads_intact"
                passed := decide (bad = 0)
                detail := s!"{bad} of {received} payloads had an unexpected length" : Check }]
      else pure []
    | none => pure []
  let unmatched := final.unmatched.getD 0
  let matched : List Check := if point.filters = 0 then []
    else [
      { name := "callbacks_matched"
        passed := decide (unmatched = 0 ∧ 0 < final.received)
        detail := s!"{final.received} messages reached a filter callback, " ++
          s!"{unmatched} the catch-all" }]
  let properties ←
    if point.kind = .pub ∧ point.properties ≠ "none" then do
      let received ← need "received_total" peer.receivedTotal
      let seen := peer.propsSeen.getD 0
      pure [{ name := "properties_delivered"
              passed := decide (received - tolerance received ≤ seen)
              detail := s!"{seen} of {received} messages carried user properties" : Check }]
    else pure []
  let aliased ←
    if point.kind = .pub ∧ point.topicAlias then do
      let received ← need "received_total" peer.receivedTotal
      let ackBytes := received * if point.qos = 1 then 4 else if point.qos = 2 then 8 else 0
      let sent := max 1 final.sent
      let perPublish : ℚ := (sys.bytesReceived.getD 0 - ackBytes : ℤ) / sent
      let limit := point.payload + record.dataTopicBytes.getD 0 / 2
      pure [{ name := "topic_alias_used"
              passed := decide (0 < perPublish ∧ perPublish < limit)
              detail := s!"broker received {fixed 0 perPublish} bytes per client publish; " ++
                s!"the full topic would exceed {limit}" : Check }]
    else pure []
  return intact ++ matched ++ properties ++ aliased

/-- The broker and the host were not the constraint. -/
def limitChecks (record : RunRecord) (strict : Bool) : List Check :=
  (match record.brokerCpu with
    | some cpu =>
      if record.point.rate ≠ 0 ∨ record.point.kind = .idle then
        [{ name := "broker_headroom"
           passed := decide (cpu < brokerCpuLimit)
           detail := s!"broker used {fixed 2 cpu} of its core" }]
      else []
    | none => [])
    ++ match record.host.otherCores with
      | some noise =>
        if strict then
          [{ name := "host_quiet"
             passed := decide (noise ≤ hostNoiseCores)
             detail := s!"{fixed 2 noise} cores busy outside the client, peer and broker" ++
               noiseCauses record.host }]
        else []
      | none => []

/-- `rate_offer_reached(record, window_s)`. -/
def rateOfferReached (record : RunRecord) : Except Failure Bool :=
  let offered := record.peerDoc.sentWindow.getD 0
  if offered ≤ 0 then return false
  else do return decide (rateHeld * offered ≤ (← windowDelta record.workerDoc Snapshot.received))

/-- The flags, in the order in which `evaluate` appends them. -/
def flags (record : RunRecord) (sys : Sys) (strict : Bool) : Except Failure (List String) := do
  let point := record.point
  let capacitySub := point.kind = .sub ∧ point.rate = 0
  let overflow :=
    if 1 ≤ point.qos ∧ capacitySub ∧ sys.dropped.getD 0 ≠ 0 then ["broker_queue_overflow"] else []
  let bound := match record.brokerCpu with
    | some cpu =>
      if ¬ (point.rate ≠ 0 ∨ point.kind = .idle) ∧ brokerCpuLimit ≤ cpu then ["broker_bound"]
      else []
    | none => []
  let noisy := match record.host.otherCores with
    | some noise => if strict = false ∧ hostNoiseCores < noise then ["host_noisy"] else []
    | none => []
  let reached ← if capacitySub then rateOfferReached record else pure false
  return overflow ++ bound ++ noisy ++ if reached then ["offer_bound"] else []

/-! ## Metrics -/

/-- What a metric can be. -/
inductive Metric
  | null
  | int (n : ℤ)
  | num (q : ℚ)
  | hist (h : Hist)
  | lag (h : Lag)
  | summary (entries : List (String × ℚ))

/-- `_per_msg_us(value_s, msgs)`. -/
def perMsgUs (valueS : Option ℚ) (msgs : ℤ) : Metric :=
  match valueS with
  | some value => if msgs ≤ 0 then .null else .num (value * 1000000 / msgs)
  | none => .null

/-- The counts of the window and the number of messages that the costs are divided by. -/
def countMetrics (record : RunRecord) (windowS : ℚ) :
    Except Failure (List (String × Metric) × ℤ) :=
  let worker := record.workerDoc
  let peer := record.peerDoc
  match record.point.kind with
  | .pub => do
    let sent ← windowDelta worker Snapshot.sent
    let completed ← windowDelta worker Snapshot.done
    let delivered := peer.receivedWindow.getD 0
    return ([("client_sent", .int sent), ("client_completed", .int completed),
      ("delivered", .int delivered), ("msgs_per_s", .num (← div delivered windowS))], sent)
  | .sub => do
    let offered := peer.sentWindow.getD 0
    let offeredPerS ← div offered windowS
    let delivered ← windowDelta worker Snapshot.received
    let msgsPerS ← div delivered windowS
    let sys ← need "sys" record.sys
    let final ← need "final" worker.final
    return ([("offered", .int offered), ("offered_per_s", .num offeredPerS),
      ("delivered", .int delivered), ("msgs_per_s", .num msgsPerS),
      ("broker_dropped", .int (sys.dropped.getD 0)),
      ("undelivered_at_stop", .int (max 0 (sys.sent - final.received)))], delivered)
  | .rtt => do
    let requests ← windowDelta worker Snapshot.sent
    let replies ← windowDelta worker Snapshot.received
    return ([("requests", .int requests), ("replies", .int replies),
      ("msgs_per_s", .num (← div replies windowS))], requests)
  | .duplex => do
    let sent ← windowDelta worker Snapshot.sent
    let completed ← windowDelta worker Snapshot.done
    let received ← windowDelta worker Snapshot.received
    -- both directions: the cost per message is per message handled
    let msgs := sent + received
    return ([("client_sent", .int sent), ("client_completed", .int completed),
      ("delivered", .int (peer.receivedWindow.getD 0)),
      ("offered", .int (record.sourceDoc.sentWindow.getD 0)), ("received", .int received),
      ("msgs_per_s", .num (← div msgs windowS))], msgs)
  | .idle => return ([("connect_ms", .num (worker.connectNs.getD 0 / 1000000))], 0)

/-- What the client used. -/
def costMetrics (client : ClientUse) (windowS : ℚ) (msgs : ℤ) :
    Except Failure (List (String × Metric)) := do
  let cpu ← match client.cpuNs with
    | some cpuNs => do
      let cpuS : ℚ := cpuNs / 1000000000
      pure [("cpu_cores", Metric.num (← div cpuS windowS)),
        ("cpu_us_per_msg", perMsgUs (some cpuS) msgs),
        ("cpu_user_us_per_msg", perMsgUs client.cpuUserS msgs),
        ("cpu_sys_us_per_msg", perMsgUs client.cpuSysS msgs)]
    | none => pure []
  let kept := [("rss_start_kb", client.rssStartKb), ("rss_end_kb", client.rssEndKb),
      ("rss_peak_kb", client.rssPeakKb), ("threads", client.threads)].filterMap fun e =>
    e.2.map fun v => (e.1, Metric.int v)
  let switches := match client.ctx with
    | some (voluntary, involuntary) =>
      if msgs = 0 then []
      else [("ctx_switches_per_1k_msgs",
        Metric.num ((voluntary + involuntary : ℤ) * 1000 / msgs))]
    | none => []
  return cpu ++ kept ++ switches

/-- The histograms of a fixed rate and their summaries. -/
def latencyMetrics (record : RunRecord) : List (String × Metric) :=
  let worker := record.workerDoc
  let latency := match record.point.kind with
    | .pub | .duplex => record.peerDoc.latency
    | .sub | .rtt => worker.latency
    | .idle => none
  let both (key : String) (h : Option Hist) : List (String × Metric) :=
    match h with
    | some h => [(key, .hist h), (key ++ "_summary", .summary (summary h))]
    | none => []
  if record.point.rate = 0 then []
  else
    both "latency" latency
      ++ (if record.point.kind = .duplex then both "latency_rx" worker.latency else [])
      ++ match record.point.kind, worker.lag with
        | .pub, some lag | .rtt, some lag | .duplex, some lag =>
          [("lag", .lag lag),
            ("lag_summary", .summary (summary lag.toHist ++ [("unsent", ((lag.unsent.getD 0 : ℤ) : ℚ))]))]
        | _, _ => []

/-- `_metrics(record, window_s)`. -/
def metrics (record : RunRecord) (windowS : ℚ) : Except Failure (List (String × Metric)) := do
  let (counts, msgs) ← countMetrics record windowS
  let costs ← costMetrics record.client windowS msgs
  return [("window_s", .num windowS)] ++ counts ++ costs ++ latencyMetrics record

/-! ## The evaluation -/

structure Evaluation where
  status : Status
  checks : List Check
  metrics : List (String × Metric)
  flags : List String

/-- `evaluate(record, strict=strict)`. -/
def evaluate (record : RunRecord) (strict : Bool) : Except Failure Evaluation := do
  let reported := reportChecks record
  if status reported = .invalid then
    return { status := .invalid, checks := reported, metrics := [], flags := [] }
  let final ← need "final" record.workerDoc.final
  let sys ← need "sys" record.sys
  let published ← publishChecks record final sys
  let delivered ← deliveryChecks record final sys
  let kept ← lossChecks record final sys
  let held ← rateChecks record
  let features ← featureChecks record final sys
  let flags ← flags record sys strict
  let metrics ← metrics record record.windowS
  let checks := reported ++ published ++ delivered ++ kept ++ held ++ features
    ++ limitChecks record strict
  return { status := status checks, checks, metrics, flags }

/-! ## Which failures make a run useless -/

/-- No check that blames the harness failed. -/
def Clear (items : List Check) : Prop := ∀ c ∈ items, c.severity = .invalid → c.passed = true

theorem clear_nil : Clear [] := fun _ hc => absurd hc List.not_mem_nil

theorem clear_append {a b : List Check} : Clear (a ++ b) ↔ Clear a ∧ Clear b := by
  simp only [Clear, List.mem_append, or_imp, forall_and]

theorem clear_cons {c : Check} {items : List Check} :
    Clear (c :: items) ↔ (c.severity = .invalid → c.passed = true) ∧ Clear items := by
  simp only [Clear, List.mem_cons, forall_eq_or_imp]

theorem clear_singleton {c : Check} : Clear [c] ↔ (c.severity = .invalid → c.passed = true) := by
  rw [clear_cons, and_iff_left clear_nil]

/-- **A run is useless when a check that blames the harness failed, and only then.** -/
theorem status_ne_invalid_iff (items : List Check) : status items ≠ .invalid ↔ Clear items := by
  have hany : (items.filter fun c => !c.passed).any (fun c => decide (c.severity = .invalid)) = true
      ↔ ¬ Clear items := by
    simp only [Clear, List.any_eq_true, List.mem_filter, Bool.not_eq_true', decide_eq_true_eq]
    push Not
    constructor
    · rintro ⟨c, ⟨hc, hpassed⟩, hseverity⟩
      exact ⟨c, hc, hseverity, hpassed ▸ Bool.false_ne_true⟩
    · rintro ⟨c, hc, hseverity, hpassed⟩
      exact ⟨c, ⟨hc, Bool.eq_false_of_not_eq_true hpassed⟩, hseverity⟩
  unfold status
  by_cases h : Clear items
  · rw [if_neg fun hbad => hany.1 hbad h]
    split <;> simp [h]
  · rw [if_pos (hany.2 h)]
    simp [h]

/-- The status is one of three. -/
theorem status_usable_iff (items : List Check) :
    (status items = .valid ∨ status items = .notSustained) ↔ Clear items := by
  rw [← status_ne_invalid_iff, status]
  split
  · simp
  · split <;> simp

/-! ## Reading the record -/

@[simp]
theorem need_some {α : Type} (key : String) (v : α) : need key (some v) = .ok v := rfl

theorem div_of_ne {a b : ℚ} (h : b ≠ 0) : div a b = .ok (a / b) := if_neg h

theorem windowDelta_ok {worker : WorkerDoc} {start stop : Snapshot} (key : Snapshot → ℤ)
    (hstart : worker.measure = some start) (hstop : worker.end_ = some stop) :
    windowDelta worker key = .ok (key stop - key start) := by
  rw [windowDelta, hstart, hstop]
  rfl

/-- A run that was measured over a window has its metrics. -/
theorem metrics_ok {record : RunRecord} {windowS : ℚ} {start stop final : Snapshot} {sys : Sys}
    (hstart : record.workerDoc.measure = some start) (hstop : record.workerDoc.end_ = some stop)
    (hfinal : record.workerDoc.final = some final) (hsys : record.sys = some sys)
    (hwindow : windowS ≠ 0) : ∃ m, metrics record windowS = .ok m := by
  have hcounts : ∃ c, countMetrics record windowS = .ok c := by
    unfold countMetrics
    cases record.point.kind with
    | idle => exact ⟨_, rfl⟩
    | _ =>
      simp only [windowDelta_ok _ hstart hstop, div_of_ne hwindow, hfinal, hsys, need_some]
      exact ⟨_, rfl⟩
  obtain ⟨⟨counts, msgs⟩, hcounts⟩ := hcounts
  have hcosts : ∃ c, costMetrics record.client windowS msgs = .ok c := by
    unfold costMetrics
    cases record.client.cpuNs with
    | none => exact ⟨_, rfl⟩
    | some cpuNs =>
      simp only [div_of_ne hwindow]
      exact ⟨_, rfl⟩
  obtain ⟨costs, hcosts⟩ := hcosts
  rw [metrics, hcounts]
  simp only [bind, Except.bind, hcosts]
  exact ⟨_, rfl⟩

/-! ## An honest harness -/

/-- The counters of the line that a C peer ends with. -/
structure PeerCounts where
  sentTotal : ℤ
  sentWindow : ℤ
  ackedTotal : ℤ
  receivedTotal : ℤ
  echoedTotal : ℤ

/-- The peer reported these without error. -/
structure PeerDoc.Reports (doc : PeerDoc) (n : PeerCounts) : Prop where
  error : doc.error = none
  sentTotal : doc.sentTotal = some n.sentTotal
  sentWindow : doc.sentWindow = some n.sentWindow
  ackedTotal : doc.ackedTotal = some n.ackedTotal
  receivedTotal : doc.receivedTotal = some n.receivedTotal
  echoedTotal : doc.echoedTotal = some n.echoedTotal

/-- What the parties of a run counted. -/
structure Counts where
  start : Snapshot
  stop : Snapshot
  final : Snapshot
  peer : PeerCounts
  source : PeerCounts
  sys : Sys

/-- What all publishers wrote. -/
def Counts.written (n : Counts) : Kind → ℤ
  | .pub => n.final.sent
  | .sub => n.peer.sentTotal
  | .rtt => n.final.sent + n.peer.echoedTotal
  | .duplex => n.final.sent + n.source.sentTotal
  | .idle => 0

/-- What all receivers counted. -/
def Counts.delivered (n : Counts) : Kind → ℤ
  | .pub => n.peer.receivedTotal
  | .sub => n.final.received
  | .rtt | .duplex => n.final.received + n.peer.receivedTotal
  | .idle => 0

/-- The C source that feeds the client. -/
def Counts.feeder (n : Counts) : Kind → Option PeerCounts
  | .sub => some n.peer
  | .duplex => some n.source
  | _ => none

/-- **Every harness party did its job** in a fixed-rate run whose client receives, and the
broker had sent `k` messages more than the receivers counted when the run stopped. -/
structure Honest (record : RunRecord) (strict : Bool) (n : Counts) (k : ℤ) : Prop where
  receives : record.point.kind = .sub ∨ record.point.kind = .rtt ∨ record.point.kind = .duplex
  rate_pos : 0 < record.point.rate
  window_pos : 0 < record.windowS
  /-- The worker reported. -/
  worker : ∃ doc, record.worker = some doc ∧ doc.ok = some true ∧ doc.measure = some n.start ∧
    doc.end_ = some n.stop ∧ doc.final = some n.final
  /-- The C peers reported. -/
  peer : ∃ doc, record.peer = some doc ∧ doc.Reports n.peer
  source : record.point.kind = .duplex → ∃ doc, record.peerSource = some doc ∧ doc.Reports n.source
  /-- `$SYS` was read. -/
  sys : record.sys = some n.sys
  /-- The C source wrote its offer. -/
  fed : ∀ c, n.feeder record.point.kind = some c →
    rateHeld * (record.point.rate * record.windowS) ≤ c.sentWindow
  /-- The broker received what the publishers wrote. -/
  received : n.sys.received = n.written record.point.kind
  /-- The broker sent what the receivers counted and what was on the way to the client. -/
  sent : n.sys.sent = n.delivered record.point.kind + k
  backlog_nonneg : 0 ≤ k
  /-- The client's own publishes reconcile. -/
  completed : record.point.kind ≠ .sub → n.final.done ≤ n.final.sent
  arrived : record.point.kind = .duplex → 1 ≤ record.point.qos →
    n.final.done ≤ n.peer.receivedTotal
  intact : record.point.kind = .duplex → ∀ bad, record.peerDoc.sizeMismatch = some bad → bad = 0
  /-- The broker and the host are below their limits. -/
  headroom : ∀ cpu, record.brokerCpu = some cpu → cpu < brokerCpuLimit
  quiet : strict = true → ∀ noise, record.host.otherCores = some noise → noise ≤ hostNoiseCores

/-- What `evaluate` does not hold against the harness: the backlog is within the tolerance;
of the publishes that a source got acknowledged no more than that are missing, unless the
broker dropped some; a filter point received, and every message reached its callback. -/
structure Spared (point : Point) (n : Counts) (k : ℤ) : Prop where
  backlog : k ≤ tolerance (n.delivered point.kind)
  kept : 1 ≤ point.qos → ∀ c, n.feeder point.kind = some c →
    n.sys.dropped.getD 0 ≠ 0 ∨ c.ackedTotal - tolerance c.ackedTotal ≤ n.final.received
  matched : point.filters ≠ 0 → n.final.unmatched.getD 0 = 0 ∧ 0 < n.final.received

theorem tolerance_pos (n : ℤ) : 0 < tolerance n := by
  unfold tolerance
  omega

theorem within_of_le {got done sent : ℤ} (hgot : got = sent) (h : done ≤ sent) :
    done - tolerance done ≤ got ∧ got ≤ sent + tolerance sent := by
  have hdone := tolerance_pos done
  have hsent := tolerance_pos sent
  omega

namespace Honest

variable {record : RunRecord} {strict : Bool} {n : Counts} {k : ℤ}

theorem workerDoc (h : Honest record strict n k) :
    record.workerDoc.ok = some true ∧ record.workerDoc.measure = some n.start ∧
      record.workerDoc.end_ = some n.stop ∧ record.workerDoc.final = some n.final := by
  obtain ⟨doc, hdoc, hreports⟩ := h.worker
  rw [RunRecord.workerDoc, hdoc]
  exact hreports

theorem peerDoc (h : Honest record strict n k) : record.peerDoc.Reports n.peer := by
  obtain ⟨doc, hdoc, hreports⟩ := h.peer
  rw [RunRecord.peerDoc, hdoc]
  exact hreports

theorem sourceDoc (h : Honest record strict n k) (hkind : record.point.kind = .duplex) :
    record.sourceDoc.Reports n.source := by
  obtain ⟨doc, hdoc, hreports⟩ := h.source hkind
  rw [RunRecord.sourceDoc, hdoc]
  exact hreports

theorem completed_of_reports {party : Option PeerDoc} {c : PeerCounts} (label : String)
    (h : ∃ doc, party = some doc ∧ doc.Reports c) : (Checks.completed party label).1 = true := by
  obtain ⟨doc, rfl, hreports⟩ := h
  rw [Checks.completed, hreports.error]

theorem reportChecks_clear (h : Honest record strict n k) : Clear (reportChecks record) := by
  obtain ⟨hok, hstart, hstop, -⟩ := h.workerDoc
  simp only [reportChecks, clear_append, clear_singleton]
  refine ⟨⟨⟨?_, ?_⟩, ?_⟩, ?_⟩
  · intro _
    rw [hok, hstart, hstop]
    rfl
  · split
    · exact clear_nil
    · exact clear_singleton.2 fun _ => completed_of_reports _ h.peer
  · split
    case isTrue hkind => exact clear_singleton.2 fun _ => completed_of_reports _ (h.source hkind)
    case isFalse => exact clear_nil
  · intro _
    rw [h.sys]
    rfl

/-- The publishes that the broker counted are those that were written. -/
theorem publishChecks_clear (h : Honest record strict n k) :
    ∃ cs, publishChecks record n.final n.sys = .ok cs ∧ Clear cs := by
  have hwritten := h.received
  have hpeer := h.peerDoc
  rcases h.receives with hkind | hkind | hkind <;> rw [hkind, Counts.written] at hwritten
  · rw [publishChecks, hkind]
    simp only [hpeer.sentTotal, need_some]
    refine ⟨_, rfl, clear_singleton.2 fun _ => decide_eq_true ?_⟩
    rw [hwritten, sub_self, abs_zero]
    exact (tolerance_pos _).le
  · have hothers : publishedByOthers record = n.peer.echoedTotal := by
      rw [publishedByOthers, hkind, hpeer.echoedTotal]
      rfl
    rw [publishChecks, hkind]
    refine ⟨_, rfl, clear_singleton.2 fun _ => decide_eq_true ?_⟩
    exact within_of_le (by rw [hothers]; omega) (h.completed (by simp [hkind]))
  · have hothers : publishedByOthers record = n.source.sentTotal := by
      rw [publishedByOthers, hkind, (h.sourceDoc hkind).sentTotal]
      rfl
    rw [publishChecks, hkind]
    refine ⟨_, rfl, clear_singleton.2 fun _ => decide_eq_true ?_⟩
    exact within_of_le (by rw [hothers]; omega) (h.completed (by simp [hkind]))

/-- **The backlog is held against the harness above the tolerance.** -/
theorem deliveryChecks_clear_iff (h : Honest record strict n k) :
    ∃ cs, deliveryChecks record n.final n.sys = .ok cs ∧
      (Clear cs ↔ k ≤ tolerance (n.delivered record.point.kind)) := by
  have hsent := h.sent
  have hpeer := h.peerDoc
  have hrate : record.point.rate ≠ 0 := h.rate_pos.ne'
  have hback : ∀ d : ℤ, n.sys.sent = d + k → (|n.sys.sent - d| ≤ tolerance d ↔ k ≤ tolerance d) :=
    fun d hd => by rw [hd, add_sub_cancel_left, abs_of_nonneg h.backlog_nonneg]
  rcases h.receives with hkind | hkind | hkind <;> rw [hkind, Counts.delivered] at hsent <;>
    rw [deliveryChecks, hkind, Counts.delivered]
  · rw [if_pos hrate]
    refine ⟨_, rfl, clear_singleton.trans ?_⟩
    simpa using hback _ hsent
  · simp only [hpeer.receivedTotal, need_some]
    refine ⟨_, rfl, clear_singleton.trans ?_⟩
    simpa using hback _ hsent
  · simp only [hpeer.receivedTotal, need_some]
    refine ⟨_, rfl, clear_singleton.trans ?_⟩
    simpa using hback _ hsent

/-- A loss is held against the harness when the broker dropped nothing. -/
theorem clear_inbound_iff {name detail : String} {acked delivered dropped : ℤ} :
    Clear [lossCheck name acked delivered detail
        (if dropped ≠ 0 then .notSustained else .invalid)] ↔
      dropped ≠ 0 ∨ acked - tolerance acked ≤ delivered := by
  rw [clear_singleton, lossCheck]
  by_cases hd : dropped = 0
  · simp [hd]
  · simp [hd]

theorem lossChecks_clear_iff (h : Honest record strict n k) :
    ∃ cs, lossChecks record n.final n.sys = .ok cs ∧
      (Clear cs ↔ (1 ≤ record.point.qos → ∀ c, n.feeder record.point.kind = some c →
        n.sys.dropped.getD 0 ≠ 0 ∨ c.ackedTotal - tolerance c.ackedTotal ≤ n.final.received)) := by
  have hpeer := h.peerDoc
  have hrate : record.point.rate ≠ 0 := h.rate_pos.ne'
  by_cases hqos : record.point.qos < 1
  · refine ⟨[], ?_, iff_of_true clear_nil fun h1 => absurd h1 (not_le.2 hqos)⟩
    rw [lossChecks, if_pos hqos]
    rfl
  · rw [lossChecks, if_neg hqos, forall_prop_of_true (not_lt.1 hqos)]
    rcases h.receives with hkind | hkind | hkind <;> rw [hkind] <;> simp only [Counts.feeder]
    · rw [if_neg hrate]
      simp only [hpeer.ackedTotal, need_some]
      refine ⟨_, rfl, clear_inbound_iff.trans ?_⟩
      simp
    · simp only [hpeer.echoedTotal, need_some]
      refine ⟨_, rfl, iff_of_true (clear_singleton.2 nofun) nofun⟩
    · simp only [hpeer.receivedTotal, (h.sourceDoc hkind).ackedTotal, need_some]
      refine ⟨_, rfl, clear_cons.trans ((and_iff_right ?_).trans
        (clear_inbound_iff.trans ?_))⟩
      · intro _
        have harrived := h.arrived hkind (not_lt.1 hqos)
        have htol := tolerance_pos n.final.done
        exact decide_eq_true (by omega)
      · simp

/-- A check that reports a slow client is never held against the harness. -/
theorem heldCheck_clear {name detail : String} {got : ℤ} {offered : ℚ} :
    Clear [heldCheck name got offered detail .notSustained] := clear_singleton.2 nofun

theorem rateChecks_clear (h : Honest record strict n k) :
    ∃ cs, rateChecks record = .ok cs ∧ Clear cs := by
  obtain ⟨-, hstart, hstop, -⟩ := h.workerDoc
  have hpeer := h.peerDoc
  have hfed := h.fed
  rw [rateChecks, if_neg h.rate_pos.ne']
  rcases h.receives with hkind | hkind | hkind <;> rw [hkind] at hfed ⊢ <;>
    simp only [windowDelta_ok _ hstart hstop]
  · simp only [hpeer.sentWindow, need_some]
    exact ⟨_, rfl, clear_cons.2 ⟨fun _ => decide_eq_true (hfed _ rfl), heldCheck_clear⟩⟩
  · exact ⟨_, rfl, clear_append.2 ⟨heldCheck_clear, heldCheck_clear⟩⟩
  · simp only [(h.sourceDoc hkind).sentWindow, need_some]
    refine ⟨_, rfl, clear_append.2 ⟨clear_append.2 ⟨heldCheck_clear, ?_⟩, heldCheck_clear⟩⟩
    exact clear_singleton.2 fun _ => decide_eq_true (hfed _ rfl)

theorem featureChecks_clear_iff (h : Honest record strict n k) :
    ∃ cs, featureChecks record n.final n.sys = .ok cs ∧
      (Clear cs ↔ (record.point.filters ≠ 0 →
        n.final.unmatched.getD 0 = 0 ∧ 0 < n.final.received)) := by
  have hpub : record.point.kind ≠ .pub := by
    rcases h.receives with hkind | hkind | hkind <;> simp [hkind]
  have hmatched : ∀ detail : String, Clear (if record.point.filters = 0 then []
      else [{ name := "callbacks_matched"
              passed := decide (n.final.unmatched.getD 0 = 0 ∧ 0 < n.final.received)
              detail }]) ↔
      (record.point.filters ≠ 0 → n.final.unmatched.getD 0 = 0 ∧ 0 < n.final.received) := by
    intro detail
    by_cases hf : record.point.filters = 0
    · simp [hf, clear_nil]
    · simp [hf, clear_singleton]
  have hproperties : ¬ (record.point.kind = .pub ∧ record.point.properties ≠ "none") :=
    fun hp => hpub hp.1
  have haliased : ¬ (record.point.kind = .pub ∧ record.point.topicAlias = true) :=
    fun hp => hpub hp.1
  unfold featureChecks
  simp only [if_neg hproperties, if_neg haliased]
  cases hbad : record.peerDoc.sizeMismatch with
  | none => exact ⟨_, rfl, by simpa [clear_append, clear_nil] using hmatched _⟩
  | some bad =>
    simp only [h.peerDoc.receivedTotal, need_some]
    by_cases hkind : record.point.kind = .pub ∨ record.point.kind = .duplex
    · have hintact := h.intact (hkind.resolve_left hpub) bad hbad
      simp only [if_pos hkind]
      refine ⟨_, rfl, ?_⟩
      simpa [clear_append, clear_cons, clear_nil, hintact] using hmatched _
    · simp only [if_neg hkind]
      exact ⟨_, rfl, by simpa [clear_append, clear_nil] using hmatched _⟩

theorem limitChecks_clear (h : Honest record strict n k) : Clear (limitChecks record strict) := by
  rw [limitChecks, clear_append]
  constructor
  · cases hcpu : record.brokerCpu with
    | none => exact clear_nil
    | some cpu =>
      simp only
      split
      · exact clear_singleton.2 fun _ => decide_eq_true (h.headroom cpu hcpu)
      · exact clear_nil
  · cases hnoise : record.host.otherCores with
    | none => exact clear_nil
    | some noise =>
      simp only
      split
      case isTrue hstrict =>
        exact clear_singleton.2 fun _ => decide_eq_true (h.quiet hstrict noise hnoise)
      case isFalse => exact clear_nil

theorem flags_ok (h : Honest record strict n k) : ∃ fs, flags record n.sys strict = .ok fs := by
  have hcapacity : ¬ (record.point.kind = .sub ∧ record.point.rate = 0) :=
    fun hc => h.rate_pos.ne' hc.2
  unfold flags
  simp only [if_neg hcapacity]
  exact ⟨_, rfl⟩

end Honest

/-- All checks of a run, when none of them raises. -/
theorem evaluate_ok {record : RunRecord} {strict : Bool} {final : Snapshot} {sys : Sys}
    {published delivered kept held features : List Check} {fs : List String}
    {ms : List (String × Metric)} (hreported : Clear (reportChecks record))
    (hfinal : record.workerDoc.final = some final) (hsys : record.sys = some sys)
    (hpublished : publishChecks record final sys = .ok published)
    (hdelivered : deliveryChecks record final sys = .ok delivered)
    (hkept : lossChecks record final sys = .ok kept) (hheld : rateChecks record = .ok held)
    (hfeatures : featureChecks record final sys = .ok features)
    (hflags : flags record sys strict = .ok fs)
    (hmetrics : metrics record record.windowS = .ok ms) :
    ∃ out, evaluate record strict = .ok out ∧ out.status = status (reportChecks record ++ published
      ++ delivered ++ kept ++ held ++ features ++ limitChecks record strict) := by
  unfold evaluate
  simp only [if_neg ((status_ne_invalid_iff _).2 hreported), hfinal, hsys, need_some]
  simp only [bind, Except.bind, hpublished, hdelivered, hkept, hheld, hfeatures, hflags, hmetrics]
  exact ⟨_, rfl, rfl⟩

/-- **The status of an honest run whose client is merely slow.**  It is `valid` or
`not_sustained` exactly when the run is spared. -/
theorem evaluate_usable_iff {record : RunRecord} {strict : Bool} {n : Counts} {k : ℤ}
    (h : Honest record strict n k) :
    ∃ out, evaluate record strict = .ok out ∧
      (out.status = .valid ∨ out.status = .notSustained ↔ Spared record.point n k) := by
  obtain ⟨published, hpublished, hclear₁⟩ := h.publishChecks_clear
  obtain ⟨delivered, hdelivered, hclear₂⟩ := h.deliveryChecks_clear_iff
  obtain ⟨kept, hkept, hclear₃⟩ := h.lossChecks_clear_iff
  obtain ⟨held, hheld, hclear₄⟩ := h.rateChecks_clear
  obtain ⟨features, hfeatures, hclear₅⟩ := h.featureChecks_clear_iff
  obtain ⟨fs, hflags⟩ := h.flags_ok
  obtain ⟨-, hstart, hstop, hfinal⟩ := h.workerDoc
  obtain ⟨ms, hmetrics⟩ := metrics_ok hstart hstop hfinal h.sys h.window_pos.ne'
  obtain ⟨out, hout, hstatus⟩ := evaluate_ok h.reportChecks_clear hfinal h.sys hpublished
    hdelivered hkept hheld hfeatures hflags hmetrics
  refine ⟨out, hout, ?_⟩
  rw [hstatus, status_usable_iff]
  simp only [clear_append, hclear₂, hclear₃, hclear₅, h.reportChecks_clear, hclear₁, hclear₄,
    h.limitChecks_clear, true_and, and_true]
  exact ⟨fun ⟨⟨hback, hloss⟩, hmatched⟩ => ⟨hback, hloss, hmatched⟩,
    fun hs => ⟨⟨hs.backlog, hs.kept⟩, hs.matched⟩⟩

/-! ## A client that lags -/

/-- 24000 messages at 2000 a second, of which the client has read `received` when the run
stops; `k` more are on the way. -/
def laggingCounts (received k : ℤ) : Counts where
  start := { sent := 0, done := 0, received := 2000 }
  stop := { sent := 0, done := 0, received := received }
  final := { sent := 0, done := 0, received := received }
  peer := ⟨24000, 20000, 0, 0, 0⟩
  source := ⟨0, 0, 0, 0, 0⟩
  sys := { received := 24000, sent := received + k, dropped := some 0 }

def laggingRecord (received k : ℤ) : RunRecord where
  point := { name := "sub_fixed", kind := .sub, question := "", rate := 2000 }
  worker := some {
    ok := some true
    measure := some (laggingCounts received k).start
    end_ := some (laggingCounts received k).stop
    final := some (laggingCounts received k).final
    windowNs := some 10000000000 }
  peer := some {
    sentTotal := some 24000
    sentWindow := some 20000
    ackedTotal := some 0
    receivedTotal := some 0
    echoedTotal := some 0 }
  broker := some { sys := some (laggingCounts received k).sys, cpuCores := some (3 / 10) }
  resources := some { host := some { otherCores := some (1 / 10) } }
  measureS := 10

theorem windowS_laggingRecord (received k : ℤ) : (laggingRecord received k).windowS = 10 := by
  simp [RunRecord.windowS, RunRecord.workerDoc, laggingRecord]
  norm_num

theorem honest_lagging (received : ℤ) {k : ℤ} (hk : 0 ≤ k) :
    Honest (laggingRecord received k) true (laggingCounts received k) k where
  receives := .inl rfl
  rate_pos := by norm_num [laggingRecord]
  window_pos := by rw [windowS_laggingRecord]; norm_num
  worker := ⟨_, rfl, rfl, rfl, rfl, rfl⟩
  peer := ⟨_, rfl, rfl, rfl, rfl, rfl, rfl, rfl⟩
  source := nofun
  sys := rfl
  fed := by
    rintro _ ⟨⟩
    rw [windowS_laggingRecord]
    norm_num [rateHeld, laggingRecord, laggingCounts]
  received := rfl
  sent := rfl
  backlog_nonneg := hk
  completed hkind := absurd rfl hkind
  arrived := nofun
  intact := nofun
  headroom := by
    rintro _ ⟨⟩
    norm_num [brokerCpuLimit]
  quiet := by
    rintro - _ ⟨⟩
    norm_num [hostNoiseCores]

theorem evaluate_usable_iff_example :
    ∃ out, evaluate (laggingRecord 22990 10) true = .ok out ∧
      (out.status = .valid ∨ out.status = .notSustained ↔
        Spared (laggingRecord 22990 10).point (laggingCounts 22990 10) 10) :=
  evaluate_usable_iff (honest_lagging 22990 (by decide))

/-- With 1100 messages on the way to the client the harness is blamed. -/
theorem lagging_blamed :
    Honest (laggingRecord 22900 1100) true (laggingCounts 22900 1100) 1100 ∧
      (evaluate (laggingRecord 22900 1100) true).toOption.map Evaluation.status =
        some .invalid :=
  ⟨honest_lagging 22900 (by decide), by decide +kernel⟩

end Checks

end Bench

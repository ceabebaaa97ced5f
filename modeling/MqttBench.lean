import MqttBench.Lib.Base128
import MqttBench.Lib.Watched
import MqttBench.Lib.Framing
import MqttBench.Lib.Tally
import MqttBench.Bench.Histogram
import MqttBench.Peer.Varint
import MqttBench.Peer.Rbuf
import MqttBench.Peer.Latency
import MqttBench.Peer.Publish
import MqttBench.Peer.Bounds
import MqttBench.Peer.Wbuf
import MqttBench.Peer.Receiver
import MqttBench.Lib.Runs
import MqttBench.Peer.SourceReader
import MqttBench.Peer.Source
import MqttBench.Lib.Pacing
import MqttBench.Lib.Spans
import MqttBench.Drive.Offer
import MqttBench.Drive.Awaited
import MqttBench.Drive.Accounting
import MqttBench.Drive.SendTimes
import MqttBench.Drive.Routes
import MqttBench.Lib.Traces
import MqttBench.Adapters.GmqttAsync
import MqttBench.Drive.Nowait
import MqttBench.Lib.Permits
import MqttBench.Drive.CapacitySync
import MqttBench.Drive.CapacityNowait
import MqttBench.Lib.AtomicSave
import MqttBench.Bench.Catalog
import MqttBench.Bench.Checks
import MqttBench.Bench.RunOnce
import MqttBench.Bench.Campaign
import MqttBench.Bench.Sessions
import MqttBench.Report.Data
import MqttBench.Bench.Retries
import MqttBench.Bench.Provenance
import MqttBench.Lib.PyData
import MqttBench.Bench.Resume
import MqttBench.Bench.Merging
import MqttBench.Bench.Buckets
import MqttBench.Bench.Percentile
import MqttBench.Lib.Topics
import MqttBench.Adapters.AsyncBridge
import MqttBench.Bench.Fanout
import MqttBench.Lib.Rotation
import MqttBench.Bench.Plan
import MqttBench.Report.Load
import MqttBench.Bench.Scheduled
import MqttBench.Peer.SourceLoop
import MqttBench.Bench.SysProbe
import MqttBench.Bench.Procstat
import MqttBench.Adapters.MqttiumAsync
import MqttBench.Peer.PropertyScan
import MqttBench.Adapters.WorkerPool
import MqttBench.Adapters.BridgeWakes
import MqttBench.Lib.Dicts
import MqttBench.Lib.Fallible
import MqttBench.Lib.Grouping
import MqttBench.Lib.JsonText
import MqttBench.Report.Files
import MqttBench.Report.Cells
import MqttBench.Report.RunCounts
import MqttBench.Report.Interpreters
import MqttBench.Report.Selection
import MqttBench.Report.Stored
import MqttBench.Lib.Census
import MqttBench.Lib.KeyedFifo
import MqttBench.Lib.NumberText
import MqttBench.Peer.Handshake
import MqttBench.Peer.CommandLine
import MqttBench.Drive.CapacityAwaited
import MqttBench.Drive.Windows
import MqttBench.Drive.Stamps
import MqttBench.Adapters.MqttiumCallback
import MqttBench.Bench.Wiring
import MqttBench.Bench.PacketSizes
import MqttBench.Lib.JsonRead
import MqttBench.Peer.Stdio
import MqttBench.Bench.Children
import MqttBench.Lib.Median
import MqttBench.Report.Ranking
import MqttBench.Bench.Cpus
import MqttBench.Bench.HostTime

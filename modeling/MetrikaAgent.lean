import MetrikaAgent.Run
import MetrikaAgent.Io
import MetrikaAgent.Fingerprint.Sha256
import MetrikaAgent.Fingerprint.Hex
import MetrikaAgent.Fingerprint.Basic
import MetrikaAgent.Fingerprint.Validate
import MetrikaAgent.Watch.Basic
import MetrikaAgent.Watch.Lifecycle
import MetrikaAgent.Watch.Emit
import MetrikaAgent.Watch.TimerLoop
import MetrikaAgent.Watch.TimerState
import MetrikaAgent.Global.StreamRegisterer
import MetrikaAgent.Collector.NetClass
import MetrikaAgent.Collector.Consistency

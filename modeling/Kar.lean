import Kar.Rpc.Interrupted
import Kar.Rpc.WakeUp
import Kar.Rpc.PartitionZero
import Kar.Rpc.Rebalance
import Kar.Rpc.Hosting
import Kar.Rpc.Mesh
import Kar.Rpc.Reentrancy
import Kar.Rpc.Deadlines
import Kar.Rpc.Wire
import Kar.Bindings.Footprint
import Kar.Rpc.Subscriber
import Kar.Runtime.Activation
import Kar.Runtime.SdkReplies
import Kar.Rpc.Results
import Kar.Runtime.Topology
import Kar.Rpc.Shortage
import Kar.Rpc.Handover
import Kar.Debugger.Flows
import Kar.Debugger.Breakpoints
import Kar.Runtime.DebugParser

import CoLib.ByteArray.Refine
import CoLib.Timer.Run
import CoLib.IOManager.Waiters
import CoLib.IOManager.Table
import CoLib.IOManager.Interest
import CoLib.Http.Delivery
import CoLib.Config.Var
import CoLib.Hook.Fcntl
import CoLib.Hook.Shared
import CoLib.Config.Load
import CoLib.Log.Define
import CoLib.Timer.Expiry
import CoLib.Timer.Arming
import CoLib.Timer.Wake
import CoLib.Hook.TimedWait
import CoLib.Hook.Reuse
import CoLib.Http.RoundTrip
import CoLib.Http.FixSize
import CoLib.Http.Servlet
import CoLib.Http.BodySize
import CoLib.Http.Framing
import CoLib.Http.Ranges
import CoLib.Scheduler.Take
import CoLib.Scheduler.Exclusive
import CoLib.Scheduler.Finished
import CoLib.Scheduler.RootFiber
import CoLib.Scheduler.Wakeup
import CoLib.Scheduler.Counters
import CoLib.Scheduler.Quiet
import CoLib.Scheduler.Recycle
import CoLib.Scheduler.Callbacks
import CoLib.Lib.Tokens
import CoLib.Log.Codec
import CoLib.Timer.NextTimer
import CoLib.IOManager.IdleWait
import CoLib.Timer.Reports
import CoLib.Hook.Sleep
import CoLib.Hook.Bounds
import CoLib.Hook.Commands
import CoLib.Hook.ConnectResult
import CoLib.Hook.SocketTimeout
import CoLib.ByteArray.ZeroCopy
import CoLib.Log.Inherit
import CoLib.Http.Method
import CoLib.Http.KeepAlive
import CoLib.Http.Body
import CoLib.Http.Memory
import CoLib.Http.ResponseRoundTrip
import CoLib.ByteArray.Strings
import CoLib.ByteArray.Nodes
import CoLib.Config.Containers
import CoLib.Config.FromString
import CoLib.Uri.Accepted
import CoLib.Uri.Composed
import CoLib.Uri.Grammar
import CoLib.Uri.Machine
import CoLib.Uri.ToString
import CoLib.Net.Lookup
import CoLib.Net.TcpServer
import CoLib.Scheduler.Driver
import CoLib.Scheduler.Stop
import CoLib.Scheduler.Launch
import CoLib.Http.Fields
import CoLib.Http.Server

import AvcTool.Lib.Transition
import AvcTool.Lib.Handles
import AvcTool.Lib.Multimap
import AvcTool.Lib.LinkedCells
import AvcTool.Lib.LockOrder
import AvcTool.Lib.Ownership
import AvcTool.Lib.RefCount
import AvcTool.Lib.SharedObjects
import AvcTool.Network.LockHierarchy
import AvcTool.Thread.PoolShutdown
import AvcTool.Poller.TaskOrder
import AvcTool.Util.Semphore
import AvcTool.Util.StampThread
import AvcTool.Error.CplxError
import AvcTool.Error.ErrorMemory
import AvcTool.Thread.TaskCancelable
import AvcTool.Thread.TaskMemory
import AvcTool.Thread.TaskExecutorGetter
import AvcTool.Thread.ThreadLoadCounter
import AvcTool.Thread.LoadAccounting
import AvcTool.Thread.LoadRace
import AvcTool.Thread.LoadQueries
import AvcTool.Thread.ThreadPool
import AvcTool.Thread.PoolQueue
import AvcTool.Poller.EventTable
import AvcTool.Poller.RunLoop
import AvcTool.Poller.Dispatch
import AvcTool.Poller.KernelMirror
import AvcTool.Poller.DescriptorReuse
import AvcTool.Poller.TaskQueue
import AvcTool.Poller.PollerNet
import AvcTool.Poller.Shutdown
import AvcTool.Poller.Confinement
import AvcTool.Poller.DelayTask
import AvcTool.Poller.TimerPass
import AvcTool.Poller.DelayRun
import AvcTool.Thread.Cancellation
import AvcTool.Thread.TaskExecutor
import AvcTool.Thread.ThrowingTask
import AvcTool.Timer.Timer
import AvcTool.Log.LogChannel
import AvcTool.Log.AsyncLogWriter
import AvcTool.Log.LogStatements
import AvcTool.Network.Buffer
import AvcTool.Network.BufferCapacity
import AvcTool.Network.BufferList
import AvcTool.Network.BufferSendTo
import AvcTool.Network.BufferSendMsg
import AvcTool.Network.Socket
import AvcTool.Network.SendOverloads
import AvcTool.Network.SendQueue
import AvcTool.Network.EntryQueue
import AvcTool.Network.SendResult
import AvcTool.Network.Datagrams
import AvcTool.Network.Receive
import AvcTool.Network.ReceiveLength
import AvcTool.Network.UdpSystem
import AvcTool.Network.FlushRace
import AvcTool.Network.FlushTurn
import AvcTool.Network.Rebind
import AvcTool.Network.DescriptorOwner
import AvcTool.Network.OpenSocket
import AvcTool.Network.Lifetimes
import AvcTool.Network.DnsCache
import AvcTool.Network.DnsThreads
import AvcTool.Network.SockUtil
import AvcTool.Network.DomainIp
import AvcTool.Poller.EpollWrapper
import AvcTool.Poller.PipeWrapper

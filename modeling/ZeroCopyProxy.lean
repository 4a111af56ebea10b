import ZeroCopyProxy.Verified.Resumption
import ZeroCopyProxy.Verified.Threads
import ZeroCopyProxy.Verified.PrefixCode
import ZeroCopyProxy.Verified.Chunks
import ZeroCopyProxy.Verified.Interleaving
import ZeroCopyProxy.Ports.Posix
import ZeroCopyProxy.Ports.Kernel
import ZeroCopyProxy.Ports.Frame
import ZeroCopyProxy.Ports.TranscHeader
import ZeroCopyProxy.Ports.ProxyRelay
import ZeroCopyProxy.Ports.ProxyFlags
import ZeroCopyProxy.Ports.ProxyStream
import ZeroCopyProxy.Ports.ProxyDuplex
import ZeroCopyProxy.Ports.ProxySendSplit
import ZeroCopyProxy.Ports.ProxyPool
import ZeroCopyProxy.Ports.ProxyRequests
import ZeroCopyProxy.Ports.ProxyResponses
import ZeroCopyProxy.Ports.ServerLoop
import ZeroCopyProxy.Ports.ServerBody
import ZeroCopyProxy.Ports.ServerBounds
import ZeroCopyProxy.Ports.ServerEcho
import ZeroCopyProxy.Ports.ServerSendSplit
import ZeroCopyProxy.Ports.HeaderSplit
import ZeroCopyProxy.Ports.ThreadPool
import ZeroCopyProxy.Verified.Counting
import ZeroCopyProxy.Ports.PoolQueue
import ZeroCopyProxy.Ports.PoolCounters
import ZeroCopyProxy.Ports.PoolWait
import ZeroCopyProxy.Ports.ProxyCapacity
import ZeroCopyProxy.Ports.JmpMessage
import ZeroCopyProxy.Ports.StreamFraming
import ZeroCopyProxy.Ports.ClientLoop
import ZeroCopyProxy.Verified.FreeSlots
import ZeroCopyProxy.Ports.ProxyConn
import ZeroCopyProxy.Ports.ProxySystem
import ZeroCopyProxy.Ports.ProxyAdmission
import ZeroCopyProxy.Ports.ProxyDescriptors
import ZeroCopyProxy.Ports.ProxyLifetime
import ZeroCopyProxy.Ports.ServerStack
import ZeroCopyProxy.Ports.ServerStale
import ZeroCopyProxy.Verified.DoubleList
import ZeroCopyProxy.Ports.FdList
import ZeroCopyProxy.Ports.FdListRuns
import ZeroCopyProxy.Ports.FdListMisses
import ZeroCopyProxy.Ports.WorkList
import ZeroCopyProxy.Ports.WorkListRuns
import ZeroCopyProxy.Ports.WorkListDelete
import ZeroCopyProxy.Ports.PoolInit
import ZeroCopyProxy.Verified.History
import ZeroCopyProxy.Ports.ServerClose
import ZeroCopyProxy.Verified.Stages
import ZeroCopyProxy.Ports.ProxyCleanup
import ZeroCopyProxy.Ports.ProxyTransient
import ZeroCopyProxy.Ports.JmpDecode
import ZeroCopyProxy.Ports.ClientSession
import ZeroCopyProxy.Ports.ClientBounds
import ZeroCopyProxy.Ports.ClientShows
import ZeroCopyProxy.Ports.ProxyInit
import ZeroCopyProxy.Ports.ClientServer
import ZeroCopyProxy.Ports.ServerProgress
import ZeroCopyProxy.Ports.ProxyByteOrder
import ZeroCopyProxy.Ports.Shutdown
import ZeroCopyProxy.Ports.ServerMain
import ZeroCopyProxy.Ports.EndpointInit
import ZeroCopyProxy.Ports.PoolWakeups
import ZeroCopyProxy.Ports.ClientProxyServer
import ZeroCopyProxy.Ports.ProxyConnRelay
import ZeroCopyProxy.Ports.ProxyDispatch
import ZeroCopyProxy.Ports.ProxyWedge

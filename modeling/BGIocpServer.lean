import BGIocpServer.Kit.Reaches
import BGIocpServer.Kit.Tally
import BGIocpServer.Kit.Packed
import BGIocpServer.Kit.Framer
import BGIocpServer.Kit.Chain
import BGIocpServer.Buffer
import BGIocpServer.ReadPath
import BGIocpServer.Object
import BGIocpServer.Socket
import BGIocpServer.WriteQueue
import BGIocpServer.SendSide
import BGIocpServer.SendInvariant
import BGIocpServer.SendSteps
import BGIocpServer.SendFifo
import BGIocpServer.BufferPool
import BGIocpServer.Server
import BGIocpServer.Lifecycle
import BGIocpServer.RWLock
import BGIocpServer.RWLockExclusion
import BGIocpServer.RWLockWakeup
import BGIocpServer.Kit.PriorityQueue
import BGIocpServer.TimerThread
import BGIocpServer.TimerGuard
import BGIocpServer.TimerScan
import BGIocpServer.TimerWait
import BGIocpServer.Slots
import BGIocpServer.SlotSteps
import BGIocpServer.SlotLogin
import BGIocpServer.SlotPlayers
import BGIocpServer.SlotRefs
import BGIocpServer.SlotHandles
import BGIocpServer.ObjectSteps
import BGIocpServer.CloseOnce
import BGIocpServer.WorkerThread
import BGIocpServer.TimerStock
import BGIocpServer.TimerObject
import BGIocpServer.TimerSystem
import BGIocpServer.TimerLedger
import BGIocpServer.TimerRefs
import BGIocpServer.PoolSteps
import BGIocpServer.StressClient
import BGIocpServer.PoolLists
import BGIocpServer.CreateSteps
import BGIocpServer.CreateOnce
import BGIocpServer.ObjectFree
import BGIocpServer.DeadLock
import BGIocpServer.LogManager
import BGIocpServer.LogRun
import BGIocpServer.SendSizes
import BGIocpServer.Process
import BGIocpServer.GameWorld
import BGIocpServer.LoginOn
import BGIocpServer.SendFailures
import BGIocpServer.PlayerRefs
import BGIocpServer.CreateAlone
import BGIocpServer.PoolPeak
import BGIocpServer.ClientLoop
import BGIocpServer.RegistryLock
import BGIocpServer.LogFiles
import BGIocpServer.PendingLock
import BGIocpServer.LogConsole
import BGIocpServer.LogTable
import BGIocpServer.Kit.TextStream
import BGIocpServer.ConfigManager
import BGIocpServer.ConfigLines
import BGIocpServer.Kit.Layout
import BGIocpServer.Protocol
import BGIocpServer.Delivery
import BGIocpServer.EndToEnd
import BGIocpServer.Session
import BGIocpServer.Conversation
import BGIocpServer.Kit.Simulation
import BGIocpServer.Kit.Mutex
import BGIocpServer.SpinLock
import BGIocpServer.SpinPool
import BGIocpServer.MainConfig
import BGIocpServer.AcceptLoop
import BGIocpServer.SendRegions
import BGIocpServer.SendAtomic

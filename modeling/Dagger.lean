import Dagger.HttpServer
import Dagger.ServerDelivery
import Dagger.CloseCalls
import Dagger.DeferredClose
import Dagger.CallbackOrder
import Dagger.WakeUp
import Dagger.Dispatch
import Dagger.Accept
import Dagger.IdleConnections
import Dagger.Timer
import Dagger.TimerRegistry
import Dagger.CancelledTimers
import Dagger.Logger
import Dagger.LoggerMutex
import Dagger.LogConservation
import Dagger.LogShutdown
import Dagger.HttpParse
import Dagger.RtspServer
import Dagger.Descriptors
import Dagger.Segmentation
import Dagger.TaskOrder
import Dagger.CloseCallback
import Dagger.Eviction
import Dagger.WheelTicks
import Dagger.EventLoopPool
import Dagger.FailedWrite
import Dagger.Compaction
import Dagger.RequestHead
import Dagger.OwnerMark
import Dagger.ReadErrors
import Dagger.FatalReads
import Dagger.LengthPrefix
import Dagger.SpuriousReads
import Dagger.Growth
import Dagger.LogBounds
import Dagger.TimerDelays
import Dagger.DecimalText
import Dagger.FixedLength
import Dagger.AddressParsing
import Dagger.ResetTask
import Dagger.TimerCopies
import Dagger.StopWakeUps
import Dagger.AcceptErrors
import Dagger.MutualExclusion
import Dagger.SpinLock
import Dagger.HttpResponse
import Dagger.FairRuns
import Dagger.Link
import Dagger.Echo
import Dagger.PingPong
import Dagger.TaskLiveness
import Dagger.SharedLoop
import Dagger.WriteLiveness
import Dagger.HttpSession
import Dagger.LogLiveness
import Dagger.SpinLiveness
import Dagger.SpinCounter
import Dagger.RoundRobin
import Dagger.PoolRuns

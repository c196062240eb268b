import SideProjects.Lib.SortedMap
import SideProjects.Lib.Runs
import SideProjects.Orderbook
import SideProjects.OrderbookTrace
import SideProjects.PriceTime
import SideProjects.Proofs.OrderbookRep
import SideProjects.Proofs.OrderbookMatch
import SideProjects.Proofs.OrderbookCalls
import SideProjects.Proofs.OrderbookSweep
import SideProjects.Proofs.OrderbookLedger
import SideProjects.Proofs.OrderbookRounds
import SideProjects.Proofs.OrderbookPositive
import SideProjects.Proofs.OrderbookDepth
import SideProjects.OrderbookMirror
import SideProjects.Proofs.OrderbookMirror
import SideProjects.Lib.Ring
import SideProjects.Spsc
import SideProjects.Proofs.Spsc
import SideProjects.Proofs.SpscBounds
import SideProjects.Lib.Fair
import SideProjects.SpscMain
import SideProjects.Proofs.SpscMain
import SideProjects.SpinLock
import SideProjects.Proofs.SpinLock
import SideProjects.Proofs.SpinLockFair
import SideProjects.Workers
import SideProjects.Proofs.Workers
import SideProjects.Proofs.WorkersFair
import SideProjects.Lib.BigEndian
import SideProjects.LogStore
import SideProjects.Proofs.LogStore
import SideProjects.Proofs.LogStoreFaults
import SideProjects.Proofs.LogStoreRead
import SideProjects.Proofs.LogStoreCrash
import SideProjects.Lib.Base64
import SideProjects.Lib.Json
import SideProjects.Lib.Linearization
import SideProjects.LogServer
import SideProjects.Proofs.LogServer
import SideProjects.CronJobController
import SideProjects.Proofs.CronJobCalls
import SideProjects.Proofs.CronJobConcurrency
import SideProjects.Proofs.CronJobSchedule
import SideProjects.Proofs.CronJobOnce
import SideProjects.Proofs.CronJobStart
import SideProjects.Proofs.CronJobCleanUp
import SideProjects.CronJobWebhook
import SideProjects.Proofs.CronJobWebhook
import SideProjects.Proofs.CronJobSettled
import SideProjects.Proofs.CronJobExactlyOnce
import SideProjects.Proofs.CronJobBounded
import SideProjects.Lib.FloatOrder
import SideProjects.StochasticVolatility
import SideProjects.Proofs.StochasticVolatility
import SideProjects.Proofs.StochasticVolatilityLoops
import SideProjects.Proofs.Particles
import SideProjects.Lib.Logged
import SideProjects.StochasticVolatilityMachine
import SideProjects.Proofs.StochasticVolatilityMachine
import SideProjects.Distributions
import SideProjects.Proofs.Distributions
import SideProjects.Lib.Interpolation
import SideProjects.UtilFuns
import SideProjects.Proofs.UtilFuns
import SideProjects.Lib.While
import SideProjects.Lib.LowBit
import SideProjects.Fenwick
import SideProjects.Proofs.Fenwick
import SideProjects.Proofs.FenwickWidth
import SideProjects.MinimumStackQueue
import SideProjects.Proofs.MinimumStackQueue
import SideProjects.OrderResource
import SideProjects.Proofs.OrderResource
import SideProjects.OrderLifecycle
import SideProjects.Proofs.OrderLifecycle
import SideProjects.Proofs.OrderbookWork
import SideProjects.Proofs.OrderbookSlices
import SideProjects.Proofs.SpscHistory
import SideProjects.Lib.Recurrence
import SideProjects.Lib.Twister
import SideProjects.MorePacketMath
import SideProjects.PacketRandomEngine
import SideProjects.Proofs.MorePacketMath
import SideProjects.Proofs.PacketRandomEngine
import SideProjects.Proofs.ParallelRandomEngine

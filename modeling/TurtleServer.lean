import TurtleServer.Lib.Runs
import TurtleServer.Lib.KeyedQueue
import TurtleServer.Lib.Map
import TurtleServer.Lib.LinkedHeap
import TurtleServer.Lib.Lru
import TurtleServer.Lib.LruRecency
import TurtleServer.Lib.Frames
import TurtleServer.Lib.Fields
import TurtleServer.Lib.Paths
import TurtleServer.Lib.Monitor
import TurtleServer.Lib.Descriptors
import TurtleServer.Core.Basic
import TurtleServer.Core.Timer
import TurtleServer.Core.TimerPending
import TurtleServer.Core.TimerPruning
import TurtleServer.Core.TimerFiring
import TurtleServer.Core.TimerWakeUp
import TurtleServer.Core.Looper
import TurtleServer.Core.LooperRound
import TurtleServer.Core.LooperSync
import TurtleServer.Core.LooperKickOut
import TurtleServer.Core.LooperIsolation
import TurtleServer.Core.Polling
import TurtleServer.Core.EdgeTrigger
import TurtleServer.Core.EdgeTriggerReading
import TurtleServer.Core.Reactors
import TurtleServer.Core.ReactorOwnership
import TurtleServer.Core.ReactorSafety
import TurtleServer.Core.Cache
import TurtleServer.Core.CacheInvariant
import TurtleServer.Core.CacheRefinement
import TurtleServer.Core.CacheReaders
import TurtleServer.Core.Connection
import TurtleServer.Core.RobustWrite
import TurtleServer.Core.SocketOwnership
import TurtleServer.Core.ThreadPool
import TurtleServer.Core.ThreadPoolTasks
import TurtleServer.Core.ThreadPoolExit
import TurtleServer.Core.ThreadPoolWakeUps
import TurtleServer.Core.ServerStart
import TurtleServer.Log.Logger
import TurtleServer.Log.LoggerInvariant
import TurtleServer.Log.LoggerFlush
import TurtleServer.Log.LoggerExit
import TurtleServer.Log.LoggerWaits
import TurtleServer.Http.Utils
import TurtleServer.Http.Splitting
import TurtleServer.Http.Message
import TurtleServer.Http.ResponseHeads
import TurtleServer.Http.Headers
import TurtleServer.Http.RequestLanguage
import TurtleServer.Http.Server
import TurtleServer.Http.CgiArguments
import TurtleServer.Http.CgiRuns
import TurtleServer.Http.Stream
import TurtleServer.Http.Confinement
import TurtleServer.Http.Fragmentation
import TurtleServer.Http.CacheSizes
import TurtleServer.Http.CacheHits
import TurtleServer.Http.Exchanges
import TurtleServer.Http.Survival
import TurtleServer.Http.Closing
import TurtleServer.Http.EndOfStream
import TurtleServer.Http.SendFailures
import TurtleServer.Http.Framing
import TurtleServer.Http.HeadRequests
import TurtleServer.Http.Interleaving
import TurtleServer.Http.Client
import TurtleServer.Http.WholeServer
import TurtleServer.Core.EdgeTriggerRest
import TurtleServer.Http.Completion
import TurtleServer.Demo.EchoServer
import TurtleServer.Core.Mutexes

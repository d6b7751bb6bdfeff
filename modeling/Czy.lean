import Czy.Proofs.ByteQueue
import Czy.Proofs.BufferIndices
import Czy.Proofs.ReadFd
import Czy.Proofs.TypedMessages
import Czy.Proofs.Prepending
import Czy.Proofs.PointerWindow
import Czy.Proofs.Registration
import Czy.Proofs.WriteInterest
import Czy.Proofs.GracefulShutdown
import Czy.Proofs.ConnectionUp
import Czy.Proofs.ConnectionOwnership
import Czy.Proofs.Teardown
import Czy.Proofs.FunctorQueue
import Czy.Proofs.Wakeup
import Czy.Proofs.LoopQuit
import Czy.Proofs.TimerSets
import Czy.Proofs.ExpiryCycle
import Czy.Proofs.TimerArming
import Czy.Proofs.ExpiredTimers
import Czy.Proofs.TimerReset
import Czy.Proofs.DueTimer
import Czy.Proofs.LoggingBackEnd
import Czy.Proofs.JulianDay
import Czy.Proofs.UtcTime
import Czy.Proofs.LocalTime
import Czy.Proofs.ZoneFile
import Czy.Proofs.ConnectorSockets
import Czy.Proofs.Latch
import Czy.Proofs.BoundedQueue
import Czy.Proofs.ThreadStart
import Czy.Proofs.LoopThreadStart
import Czy.Proofs.LogRolling
import Czy.Proofs.ConfigRoundTrip
import Czy.Proofs.RuleInForce
import Czy.Proofs.LogLines
import Czy.Proofs.EventDispatch
import Czy.Proofs.WriteComplete
import Czy.Proofs.ReadToggle
import Czy.Proofs.IntegerFormat
import Czy.Proofs.LogStream
import Czy.Proofs.LogTime
import Czy.Proofs.ConfigSafety
import Czy.Proofs.ConfigParsing
import Czy.Proofs.LoopPool
import Czy.Proofs.StringPiece
import Czy.Proofs.WrittenBytes
import Czy.Proofs.ConnectionNames
import Czy.Proofs.FormatSI
import Czy.Proofs.Compaction
import Czy.Proofs.ReadSchedule
import Czy.Proofs.ReadSmallFile
import Czy.Proofs.ProcName
import Czy.Proofs.IsoDate
import Czy.Proofs.TimeStampText
import Czy.Proofs.LogFileNames
import Czy.Proofs.LogFreshness
import Czy.Proofs.FormatOrder
import Czy.Proofs.AcceptorProgress
import Czy.Proofs.ZoneFileTime
import Czy.Proofs.FileRoundTrip
import Czy.Proofs.ConnectorBackoff
import Czy.Proofs.TimerProcess
import Czy.Proofs.TimerRuns
import Czy.Proofs.LineInput
import Czy.Proofs.PolledEvents
import Czy.Proofs.ConnectionLifetime

import Lseb.Common.Exception
import Lseb.Common.DataFormat
import Lseb.Common.Range
import Lseb.Common.Utility
import Lseb.Foundation.Run
import Lseb.Foundation.RingCount
import Lseb.Foundation.MarkedQueue
import Lseb.Foundation.Bags
import Lseb.Foundation.PendingMap
import Lseb.Foundation.Stateful
import Lseb.Foundation.OrderedChannel
import Lseb.Foundation.Ledger
import Lseb.Foundation.Wrapping
import Lseb.Foundation.RingWalk
import Lseb.Common.Traversal
import Lseb.Common.BufferRun
import Lseb.Common.MemoryPool
import Lseb.Common.PoolRun
import Lseb.Generator.LengthGenerator
import Lseb.Generator.Generator
import Lseb.Generator.Layout
import Lseb.Generator.SelfDescription
import Lseb.Generator.LayoutRun
import Lseb.Transport.Socket
import Lseb.Transport.WorkRequests
import Lseb.Transport.Lossless
import Lseb.Transport.Endpoints
import Lseb.Transport.DestroyedOnce
import Lseb.Ru.Controller
import Lseb.Ru.Accumulator
import Lseb.Ru.Accounting
import Lseb.Ru.Multievent
import Lseb.Ru.AccumulatorRuns
import Lseb.Ru.Availability
import Lseb.Ru.RingCursors
import Lseb.Ru.ReleaseOrder
import Lseb.Ru.ReadoutUnit
import Lseb.Ru.Assignment
import Lseb.Ru.Connect
import Lseb.Ru.Acquisition
import Lseb.Ru.Polling
import Lseb.Ru.Custody
import Lseb.Ru.Places
import Lseb.Main
import Lseb.Startup
import Lseb.Ru.ChunkBound
import Lseb.Ru.Node
import Lseb.Ru.Progress
import Lseb.Bu.BuilderUnit
import Lseb.Bu.Phases
import Lseb.Bu.Checking
import Lseb.Bu.Conservation
import Lseb.Bu.Circulation
import Lseb.Bu.ByteCount
import Lseb.Bu.Allocation
import Lseb.System.Network
import Lseb.System.Serving
import Lseb.System.Agreement
import Lseb.Foundation.Lockstep
import Lseb.Foundation.Leading
import Lseb.Foundation.Gathering
import Lseb.System.Building
import Lseb.System.Portability
import Lseb.System.Progress
import Lseb.System.Skew
import Lseb.System.Refinement
import Lseb.Test.Bandwidth
import Lseb.Test.BandwidthRun
import Lseb.Foundation.Words
import Lseb.Foundation.Dialogue
import Lseb.Launcher.KeyVals
import Lseb.Launcher.Messages
import Lseb.Launcher.Wire
import Lseb.Launcher.Lines
import Lseb.Launcher.Pmi
import Lseb.Launcher.Conversation
import Lseb.Launcher.Exchange
import Lseb.Launcher.Job
import Lseb.Launcher.Manager
import Lseb.Launcher.JobRun
import Lseb.Foundation.Ownership
import Lseb.Foundation.Unwinding
import Lseb.Transport.Fabric
import Lseb.Transport.FabricRun
import Lseb.Transport.FabricClosing
import Lseb.Transport.FabricListen

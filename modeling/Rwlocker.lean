import Rwlocker.Basis.ReadersWriter
import Rwlocker.Basis.Tally
import Rwlocker.Basis.Transition
import Rwlocker.Basis.WakeLoop
import Rwlocker.Basis.Monitor
import Rwlocker.Queues
import Rwlocker.State
import Rwlocker.Mixins
import Rwlocker.LockClass
import Rwlocker.System
import Rwlocker.Signals
import Rwlocker.Books
import Rwlocker.WellFormed
import Rwlocker.Move
import Rwlocker.Ledger
import Rwlocker.HandOff
import Rwlocker.HandOffMove
import Rwlocker.Phases
import Rwlocker.NoLostWakeup
import Rwlocker.Effects
import Rwlocker.Downgrade
import Rwlocker.Callback
import Rwlocker.Condition
import Rwlocker.WaitMove
import Rwlocker.Calls
import Rwlocker.NoMissedSignal
import Rwlocker.Cancellation
import Rwlocker.DowngradedBlock
import Rwlocker.Deed
import Rwlocker.LateReaders
import Rwlocker.Drain
import Rwlocker.LeftOut
import Rwlocker.Ownership
import Rwlocker.AsNew
import Rwlocker.Residue
import Rwlocker.Restore
import Rwlocker.Timeouts
import Rwlocker.ReentrantVariant
import Rwlocker.WriterOrder
import Rwlocker.Misuse
import Rwlocker.ReaderSignals
import Rwlocker.ConditionGate
import Rwlocker.NestedWait
import Rwlocker.QueueHistory
import Rwlocker.Settling
import Rwlocker.Deadlock
import Rwlocker.Blocks
import Rwlocker.Transactions
import Rwlocker.BlockDiscipline
import Rwlocker.Serializable
import Rwlocker.Completion
import Rwlocker.ExamplePrograms
import Rwlocker.ImageQueue
import Rwlocker.ImageQueueServed
import Rwlocker.Overtaking
import Rwlocker.WaitFor
import Rwlocker.Probing
import Rwlocker.Stores
import Rwlocker.ConfigCache
import Rwlocker.ConfigCacheRefresh

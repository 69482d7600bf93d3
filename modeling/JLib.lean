import JLib.LTS.Runs
import JLib.LTS.Custody
import JLib.LTS.Handoff
import JLib.LTS.Ledger
import JLib.LTS.Balance
import JLib.LTS.Conserved
import JLib.LTS.Scan
import JLib.LTS.Lone
import JLib.LTS.Stock
import JLib.LTS.Lent
import JLib.Loops.Partition
import JLib.Rings.Wrapped
import JLib.Graphs.Kahn
import JLib.Links.Chain
import JLib.Links.Adjacent
import JLib.Links.Segment
import JLib.Links.Spelled
import JLib.Links.Fifo
import JLib.Intervals.Tiling
import JLib.Bits.Word
import JLib.Bits.Cyclic
import JLib.Cancel.Token
import JLib.Cancel.Scopes
import JLib.Cancel.Table
import JLib.Cancel.Walk
import JLib.Cancel.Forest
import JLib.Sync.Waiter
import JLib.Semaphore.Model
import JLib.Semaphore.Custody
import JLib.Semaphore.Permits
import JLib.Semaphore.Roles
import JLib.Semaphore.Stage
import JLib.Semaphore.Eager
import JLib.Mutex.Model
import JLib.Mutex.Custody
import JLib.Mutex.Ownership
import JLib.Mutex.Fifo
import JLib.Mutex.Bare
import JLib.Mutex.Exclusive
import JLib.Mutex.Eager
import JLib.CondVar.Model
import JLib.CondVar.Custody
import JLib.CondVar.Lifetime
import JLib.CondVar.Held
import JLib.CondVar.Stage
import JLib.CondVar.Standing
import JLib.CondVar.Delivery
import JLib.CondVar.Eager
import JLib.Sync.Eager
import JLib.WaitGroup.Model
import JLib.WaitGroup.Custody
import JLib.WaitGroup.Zero
import JLib.WaitGroup.Settle
import JLib.WaitGroup.Exact
import JLib.WaitGroup.Lifetime
import JLib.Range.Model
import JLib.Range.Splits
import JLib.Range.Hidden
import JLib.Bands.Word
import JLib.Bands.Writers
import JLib.Bands.Room
import JLib.Placement.Model
import JLib.Placement.Pick
import JLib.Placement.Lands
import JLib.Timer.Model
import JLib.Timer.Occupancy
import JLib.Timer.Events
import JLib.Timer.Shape
import JLib.Timer.Wheel
import JLib.Timer.Table
import JLib.Timer.Pass
import JLib.Timer.Queue
import JLib.Timer.Sight
import JLib.Timer.Wakeup
import JLib.Timer.Restart
import JLib.Timer.Order
import JLib.Timer.Scan
import JLib.Timer.Overflow
import JLib.Timer.Generation
import JLib.Timer.History
import JLib.Timer.Early
import JLib.Timer.Handles
import JLib.MPSCQueue.Model
import JLib.MPSCQueue.Chain
import JLib.MPSCQueue.Fifo
import JLib.MPSCQueue.Quiescent
import JLib.TaskDeque.Model
import JLib.TaskDeque.Held
import JLib.TaskDeque.Exact
import JLib.TaskDeque.Vetted
import JLib.TaskDeque.Growth
import JLib.TaskDAG.Model
import JLib.TaskDAG.Announced
import JLib.TaskDAG.Held
import JLib.TaskDAG.Reclaim
import JLib.TaskDAG.Book
import JLib.TaskDAG.External
import JLib.TaskDAG.Build
import JLib.TaskDAG.Cycle
import JLib.TaskDAG.Once
import JLib.TaskDAG.Countdown
import JLib.TaskDAG.Complete
import JLib.TaskDAG.Gates
import JLib.Worker.Model
import JLib.Worker.Search
import JLib.Dispatch.Model
import JLib.Dispatch.Direct
import JLib.Promotion.Model
import JLib.Promotion.Shed
import JLib.Discard.Model
import JLib.Discard.Unstarted
import JLib.CurrentTask.Model
import JLib.CurrentTask.Polls
import JLib.Fiber.Model
import JLib.Fiber.Resume
import JLib.FiberPool.Arena
import JLib.FiberPool.Caches
import JLib.FiberPool.Lookup
import JLib.Registry.Model
import JLib.Registry.Chain
import JLib.Registry.Account
import JLib.Registry.Cleanup
import JLib.Registry.Reclaim
import JLib.Registry.Fls
import JLib.Park.Model
import JLib.Park.Pass
import JLib.Park.Asleep
import JLib.Park.Lost
import JLib.Epochs.Model
import JLib.Epochs.Safe
import JLib.Epochs.Garbage
import JLib.Epochs.Bags
import JLib.Epochs.Conserved
import JLib.Hazard.Model
import JLib.Hazard.Safe
import JLib.Hazard.Bags
import JLib.Hazard.Conserved
import JLib.Hazard.Guards
import JLib.Hazard.Swap
import JLib.SlabPool.Model
import JLib.SlabPool.Places
import JLib.SlabPool.Slots
import JLib.TaskAllocator.Model
import JLib.TaskAllocator.Routing
import JLib.Event.Model
import JLib.Event.Once
import JLib.Event.Signal
import JLib.Event.Pools
import JLib.DirectEvent.Model
import JLib.DirectEvent.Sound
import JLib.DirectEvent.Own
import JLib.Io.Result
import JLib.IoStream.Model
import JLib.IoStream.Serial
import JLib.IoStream.Resume
import JLib.IoReactor.Model
import JLib.IoReactor.Places
import JLib.IoReactor.Stop
import JLib.IoReactor.ShortSend
import JLib.IoReactor.Submission
import JLib.IoReactor.Finality
import JLib.IoReactor.Targets
import JLib.IoReactor.Accounting
import JLib.IoAcceptor.Model
import JLib.IoAcceptor.Sockets
import JLib.IoAcceptor.Teardown
import JLib.IoAcceptor.Waiters
import JLib.IoAcceptor.Eject
import JLib.ParallelFor.Model
import JLib.ParallelFor.Acts
import JLib.ParallelFor.Array
import JLib.ParallelFor.Once
import JLib.ParallelFor.Calls
import JLib.ParallelFor.Cursor
import JLib.Ingress.Model
import JLib.Ingress.Depth
import JLib.Lanes.Model
import JLib.Lanes.Owner
import JLib.Primitives.Model
import JLib.Primitives.Drain
import JLib.Topology.Model
import JLib.Topology.Tables
import JLib.Quiesce.Model
import JLib.Quiesce.Sound
import JLib.Floor.Model
import JLib.Floor.Workers
import JLib.Floor.Awake
import JLib.Floor.Wave
import JLib.Intake.Model
import JLib.CompletionPort.Model
import JLib.CompletionPort.Answers
import JLib.CompletionPort.Delivered
import JLib.CompletionPort.Stop
import JLib.CompletionPort.Wakeups
import JLib.Intake.Attended

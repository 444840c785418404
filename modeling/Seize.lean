import Seize.Lib.Run
import Seize.Lib.CallStack
import Seize.Lib.Ledger
import Seize.Lib.Count
import Seize.Lib.DisjointLists
import Seize.Lib.Potential
import Seize.Lib.StoreBuffer
import Seize.Lib.Linearize
import Seize.Raw.State
import Seize.Raw.Step
import Seize.Raw.Invariant
import Seize.Raw.Moves
import Seize.Raw.Stacks
import Seize.Raw.Batches
import Seize.Raw.Lists
import Seize.Raw.Retire
import Seize.Raw.Preserve
import Seize.Raw.Reach
import Seize.Raw.Check
import Seize.Raw.Defined
import Seize.Raw.Lives
import Seize.Raw.Tended
import Seize.Raw.Counts
import Seize.Raw.Grace
import Seize.Raw.Objects
import Seize.Raw.Protect
import Seize.Raw.Books
import Seize.Raw.Conserve
import Seize.Raw.Reserve
import Seize.Raw.Intact
import Seize.Raw.Attempt
import Seize.Raw.Failure
import Seize.Raw.Defer
import Seize.Raw.Toll
import Seize.Raw.Sweep
import Seize.Raw.Blocks
import Seize.Raw.Amortize
import Seize.Raw.Backlog
import Seize.Raw.Membarrier
import Seize.Raw.Buffered
import Seize.Raw.Client
import Seize.Tls.ThreadId
import Seize.Tls.Local
import Seize.Tls.Moves
import Seize.Tls.Invariant
import Seize.Tls.Refine
import Seize.Tls.Capacity
import Seize.Tls.Drop
import Seize.Tls.Iterate
import Seize.Guard.Step
import Seize.Guard.Moves
import Seize.Guard.Reentrant
import Seize.Guard.Active
import Seize.Guard.Failure
import Seize.Guard.Lawful
import Seize.Guard.Defer
import Seize.Guard.Calm
import Seize.Guard.Cascade
import Seize.Guard.ReclaimAll
import Seize.Guard.Release
import Seize.PressureStack.Step
import Seize.PressureStack.Invariant
import Seize.PressureStack.Collect
import Seize.PressureStack.Preserve
import Seize.PressureStack.Nodes
import Seize.PressureStack.Linear
import Seize.PressureStack.LockFree

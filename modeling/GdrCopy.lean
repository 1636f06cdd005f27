import GdrCopy.Lib.Runs
import GdrCopy.Lib.Words
import GdrCopy.Driver.Kernel
import GdrCopy.Driver.Handles
import GdrCopy.Driver.Coalesce
import GdrCopy.Driver.Events
import GdrCopy.Driver.Refine
import GdrCopy.Driver.Tracking
import GdrCopy.Driver.ByHandle
import GdrCopy.Driver.Translate
import GdrCopy.Driver.Isolation
import GdrCopy.Api.Gdrapi
import GdrCopy.Api.Agree
import GdrCopy.Driver.Pinning
import GdrCopy.Driver.Munmap
import GdrCopy.Driver.Mapping
import GdrCopy.Driver.Represent
import GdrCopy.Driver.Faults
import GdrCopy.Driver.Processes
import GdrCopy.Api.Simd
import GdrCopy.Api.Copy
import GdrCopy.Lib.Locks
import GdrCopy.Lib.Places
import GdrCopy.Threads.Invariant
import GdrCopy.Threads.Preserve
import GdrCopy.Threads.Reach
import GdrCopy.Threads.Lifetime
import GdrCopy.Threads.Accounting
import GdrCopy.Threads.Deadlock
import GdrCopy.Threads.Discipline
import GdrCopy.Threads.Races
import GdrCopy.Threads.Sections
import GdrCopy.Threads.Drain
import GdrCopy.Lib.Shared
import GdrCopy.Threads.Atomic
import GdrCopy.Threads.Linear
import GdrCopy.Driver.Splitting
import GdrCopy.Driver.Views
import GdrCopy.Driver.Physical
import GdrCopy.Driver.Served
import GdrCopy.Api.Skew
import GdrCopy.Api.PinFail
import GdrCopy.Api.MapV2
import GdrCopy.Api.Lifecycle
import GdrCopy.Driver.Orderly
import GdrCopy.Api.Contract
import GdrCopy.Api.Close
import GdrCopy.Api.Fences
import GdrCopy.Lib.Accesses
import GdrCopy.Lib.Paging
import GdrCopy.Api.Aligned
import GdrCopy.Api.Datapath
import GdrCopy.Lib.Strtoull
import GdrCopy.Tools.Sizes
import GdrCopy.Lib.Blocks
import GdrCopy.Tools.Shim
import GdrCopy.Tools.ShimBlocks
import GdrCopy.Tools.ShimSmall
import GdrCopy.Tools.Slices
import GdrCopy.Driver.Exhaustion
import GdrCopy.Tools.CopyRange
import GdrCopy.Tools.Lockstep
import GdrCopy.Tools.Handshake
import GdrCopy.Tools.Rounds
import GdrCopy.Threads.Handles

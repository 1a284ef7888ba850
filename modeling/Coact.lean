import Coact.Queue.Tickets
import Coact.Hsm.Configuration
import Coact.Hsm.Walks
import Coact.Breaker.Sustained
import Coact.Breaker.Trips
import Coact.Breaker.Atomic
import Coact.Monitor.Retention
import Coact.Monitor.Peak
import Coact.Admission.Spacing
import Coact.Ao.Binding
import Coact.Pipeline.Exclusion
import Coact.Pipeline.Wake
import Coact.Pipeline.Fifo
import Coact.Pipeline.Direct
import Coact.Pipeline.Rejection
import Coact.Pipeline.Disabled
import Coact.Pipeline.Breakers
import Coact.Pool.Words
import Coact.Pool.DoubleRelease
import Coact.Pool.Batching
import Coact.Staging.Refinement
import Coact.Staging.Aging
import Coact.Staging.Leases
import Coact.Staging.Reserve
import Coact.Coro.Handles
import Coact.Coro.Completion
import Coact.Coro.Reentry
import Coact.Timer.Ids
import Coact.Timer.Hint
import Coact.Diag.Writer
import Coact.Diag.Compact
import Coact.Executor.Locking
import Coact.Executor.Semaphore
import Coact.Executor.Stack
import Coact.Coro.Counting
import Coact.Policy.TokenBucket
import Coact.Pool.Profiles
import Coact.Policy.MergeCell
import Coact.Queue.Spsc
import Coact.FreeRtos.SoftIrq
import Coact.FreeRtos.Handover
import Coact.FreeRtos.Once
import Coact.FreeRtos.Start
import Coact.FreeRtos.Rollback
import Coact.Runtime
import Coact.Pal.Clock
import Coact.Pal.Timeout
import Coact.Periph.RegCache

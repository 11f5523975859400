import ExecutionPolicy.Foundation.StepSystem
import ExecutionPolicy.Foundation.TaskPool
import ExecutionPolicy.Foundation.Linearization
import ExecutionPolicy.Foundation.Interleaving
import ExecutionPolicy.Foundation.History
import ExecutionPolicy.Foundation.Checked
import ExecutionPolicy.Foundation.Float64
import ExecutionPolicy.Foundation.Scan
import ExecutionPolicy.Foundation.Sharing
import ExecutionPolicy.Foundation.Decay
import ExecutionPolicy.Foundation.Scramble
import ExecutionPolicy.Time
import ExecutionPolicy.Arithmetic
import ExecutionPolicy.Core.SplitMix
import ExecutionPolicy.Core.Tokio
import ExecutionPolicy.Core.ManualClock
import ExecutionPolicy.Breaker.Runtime
import ExecutionPolicy.Breaker.Traffic
import ExecutionPolicy.Breaker.Circuit
import ExecutionPolicy.Breaker.Episodes
import ExecutionPolicy.Breaker.Cooldown
import ExecutionPolicy.Breaker.Operations
import ExecutionPolicy.Breaker.Threads
import ExecutionPolicy.Breaker.Atomicity
import ExecutionPolicy.Breaker.SlidingWindow
import ExecutionPolicy.Breaker.Overflow
import ExecutionPolicy.Concurrency.Semaphore
import ExecutionPolicy.Concurrency.WakeUps
import ExecutionPolicy.Retry.Policy
import ExecutionPolicy.Retry.Delays
import ExecutionPolicy.Retry.Budget
import ExecutionPolicy.Retry.Atomicity
import ExecutionPolicy.Engine.Plan
import ExecutionPolicy.Engine.Builder
import ExecutionPolicy.Engine.Pipeline
import ExecutionPolicy.Engine.Arming
import ExecutionPolicy.Engine.Stretch
import ExecutionPolicy.Engine.System
import ExecutionPolicy.Engine.Hops
import ExecutionPolicy.Engine.Invocations
import ExecutionPolicy.Engine.Attempts
import ExecutionPolicy.Engine.Deadline
import ExecutionPolicy.Engine.Report
import ExecutionPolicy.Engine.RetryAfter
import ExecutionPolicy.Engine.Charges
import ExecutionPolicy.Engine.Permits
import ExecutionPolicy.Engine.LiveOperations
import ExecutionPolicy.Engine.QueueAdmission
import ExecutionPolicy.Engine.Traffic
import ExecutionPolicy.Engine.Refinement
import ExecutionPolicy.Engine.Recovery
import ExecutionPolicy.Engine.Votes
import ExecutionPolicy.Engine.TerminalEvents
import ExecutionPolicy.Engine.StateEvents
import ExecutionPolicy.Engine.Diagnostics
import ExecutionPolicy.Engine.Boxed
import ExecutionPolicy.Engine.Amplification
import ExecutionPolicy.Engine.Chronicle
import ExecutionPolicy.Engine.Overflow
import ExecutionPolicy.Engine.Lateness
import ExecutionPolicy.Router.Member
import ExecutionPolicy.Router.Pick
import ExecutionPolicy.Router.Choose
import ExecutionPolicy.Router.Sampling
import ExecutionPolicy.Router.Uniformity
import ExecutionPolicy.Router.ScanOrder
import ExecutionPolicy.Router.Run
import ExecutionPolicy.Router.Fleet
import ExecutionPolicy.Router.Ledger
import ExecutionPolicy.Router.Ownership
import ExecutionPolicy.Router.Contract
import ExecutionPolicy.Router.MemberCalls
import ExecutionPolicy.Router.Unavailable
import ExecutionPolicy.Router.ParkHint
import ExecutionPolicy.Router.Scores
import ExecutionPolicy.Router.InFlight
import ExecutionPolicy.Router.Rotation
import ExecutionPolicy.Router.Pool
import ExecutionPolicy.Router.Turns
import ExecutionPolicy.Router.Shares
import ExecutionPolicy.Router.Meter
import ExecutionPolicy.Router.HalfLife
import ExecutionPolicy.Router.FailingFast
import ExecutionPolicy.Router.CheckedSampling
import ExecutionPolicy.Router.Twins
import ExecutionPolicy.Stall
import ExecutionPolicy.Stall.Silence
import ExecutionPolicy.Engine.Parallel
import ExecutionPolicy.Engine.Protocol
import ExecutionPolicy.Engine.Overlap
import ExecutionPolicy.Engine.OverlapRetries
import ExecutionPolicy.Engine.OwnWork
import ExecutionPolicy.Engine.Serial

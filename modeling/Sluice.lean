import Sluice.Api.Dashboard
import Sluice.Api.Handler
import Sluice.Api.Limiter
import Sluice.Api.RateLimit
import Sluice.Api.Router
import Sluice.Api.ScheduleHandler
import Sluice.Api.Server
import Sluice.Calendar.Gregorian
import Sluice.Coordination.Service
import Sluice.Job.Backoff
import Sluice.Job.Json
import Sluice.Job.Model
import Sluice.Memory.Slice
import Sluice.Proofs.Attempts
import Sluice.Proofs.Cancelled
import Sluice.Proofs.Confidential
import Sluice.Proofs.Consistency
import Sluice.Proofs.Copies
import Sluice.Proofs.DeadLetters
import Sluice.Proofs.Deadlocks
import Sluice.Proofs.Drain
import Sluice.Proofs.DuePolls
import Sluice.Proofs.Durations
import Sluice.Proofs.Election
import Sluice.Proofs.Expansion
import Sluice.Proofs.Fencing
import Sluice.Proofs.Integrity
import Sluice.Proofs.Interrupted
import Sluice.Proofs.Lanes
import Sluice.Proofs.Linearizable
import Sluice.Proofs.Lookahead
import Sluice.Proofs.Migrations
import Sluice.Proofs.NextRun
import Sluice.Proofs.Paging
import Sluice.Proofs.Partitions
import Sluice.Proofs.Payloads
import Sluice.Proofs.Priorities
import Sluice.Proofs.Queue
import Sluice.Proofs.QueueDepth
import Sluice.Proofs.RateLimit
import Sluice.Proofs.Reaper
import Sluice.Proofs.Reconciler
import Sluice.Proofs.Refresh
import Sluice.Proofs.RetryDelay
import Sluice.Proofs.Router
import Sluice.Proofs.RunTable
import Sluice.Proofs.Shares
import Sluice.Proofs.Shuffle
import Sluice.Proofs.Shutdown
import Sluice.Proofs.Storage.Rows
import Sluice.Proofs.Storage.Runs
import Sluice.Proofs.Storage.Scans
import Sluice.Proofs.Storage.Schedules
import Sluice.Proofs.Storage.Specs
import Sluice.Proofs.Submissions
import Sluice.Proofs.System.Activations
import Sluice.Proofs.System.Addressed
import Sluice.Proofs.System.Backoff
import Sluice.Proofs.System.Cluster
import Sluice.Proofs.System.Counters
import Sluice.Proofs.System.Crew
import Sluice.Proofs.System.Deadlines
import Sluice.Proofs.System.Deletions
import Sluice.Proofs.System.Delivery
import Sluice.Proofs.System.Due
import Sluice.Proofs.System.Endings
import Sluice.Proofs.System.Executions
import Sluice.Proofs.System.Frames
import Sluice.Proofs.System.Heartbeats
import Sluice.Proofs.System.History
import Sluice.Proofs.System.Idempotency
import Sluice.Proofs.System.Lifecycle
import Sluice.Proofs.System.OpenRuns
import Sluice.Proofs.System.Outcomes
import Sluice.Proofs.System.Overlap
import Sluice.Proofs.System.Plant
import Sluice.Proofs.System.Processing
import Sluice.Proofs.System.Provenance
import Sluice.Proofs.System.Reads
import Sluice.Proofs.System.Reaping
import Sluice.Proofs.System.Recovery
import Sluice.Proofs.System.Retries
import Sluice.Proofs.System.Scheduled
import Sluice.Proofs.System.Success
import Sluice.Proofs.System.Written
import Sluice.Proofs.Tiling
import Sluice.Proofs.Timezones
import Sluice.Queue.Calls
import Sluice.Queue.Dequeue
import Sluice.Queue.Drain
import Sluice.Queue.Redis
import Sluice.Queue.Shuffle
import Sluice.Random.Order
import Sluice.Relational.Agree
import Sluice.Relational.Counts
import Sluice.Relational.Deadlock
import Sluice.Relational.Earned
import Sluice.Relational.Event
import Sluice.Relational.Interrupt
import Sluice.Relational.Paging
import Sluice.Relational.Partitioned
import Sluice.Relational.Query
import Sluice.Relational.RowLock
import Sluice.Relational.Rows
import Sluice.Relational.Serializable
import Sluice.Relational.Session
import Sluice.Relational.Table
import Sluice.Scheduler.Cron
import Sluice.Scheduler.Election
import Sluice.Scheduler.Partitions
import Sluice.Scheduler.Passes
import Sluice.Scheduler.Tasks
import Sluice.Storage.Claims
import Sluice.Storage.Control
import Sluice.Storage.Op
import Sluice.Storage.RunTable
import Sluice.Storage.Scans
import Sluice.Storage.Schema
import Sluice.Storage.Statements
import Sluice.Storage.Tenants
import Sluice.System.Cluster
import Sluice.System.Crew
import Sluice.System.Intake
import Sluice.System.Plant
import Sluice.System.Trace
import Sluice.System.World
import Sluice.Text.Decimal
import Sluice.Transition.After
import Sluice.Transition.Endless
import Sluice.Transition.Run
import Sluice.Worker.Loop
import Sluice.Worker.Process
import Sluice.Worker.Refresh
import Sluice.Worker.Webhook

import SamtaDashboard.Data.Values
import SamtaDashboard.Data.Json
import SamtaDashboard.Data.Text
import SamtaDashboard.Data.Words
import SamtaDashboard.Data.Numerals
import SamtaDashboard.Data.Lowercase
import SamtaDashboard.Data.Pieces
import SamtaDashboard.Lib.Broadcast
import SamtaDashboard.Lib.Chunks
import SamtaDashboard.Lib.Drain
import SamtaDashboard.Lib.EventFold
import SamtaDashboard.Lib.Faulty
import SamtaDashboard.Lib.Outbox
import SamtaDashboard.Lib.Tokens
import SamtaDashboard.Lib.Transition
import SamtaDashboard.Lib.Watch
import SamtaDashboard.Events.Envelope
import SamtaDashboard.Events.Codec
import SamtaDashboard.Events.Writes
import SamtaDashboard.Domain.Entities
import SamtaDashboard.Infra.Persistence
import SamtaDashboard.Infra.AppendExact
import SamtaDashboard.Infra.Transactions
import SamtaDashboard.Infra.Replay
import SamtaDashboard.Infra.ReplayFaults
import SamtaDashboard.Application.Worker
import SamtaDashboard.Application.Harness
import SamtaDashboard.Application.Executors
import SamtaDashboard.Application.Accounting
import SamtaDashboard.Application.EffortText
import SamtaDashboard.Application.RunState
import SamtaDashboard.Application.WorkerLoop
import SamtaDashboard.Application.BatchShape
import SamtaDashboard.Application.TickMemory
import SamtaDashboard.Application.TickRecords
import SamtaDashboard.Application.ItemLoop
import SamtaDashboard.Application.Planner
import SamtaDashboard.Application.Decomposition
import SamtaDashboard.Application.Orchestrator
import SamtaDashboard.Application.AppendRetry
import SamtaDashboard.Replays.Rebuild
import SamtaDashboard.Replays.RebuildTables
import SamtaDashboard.Api.Routes
import SamtaDashboard.Api.EffortCost
import SamtaDashboard.Api.RouteFaults
import SamtaDashboard.Api.LiveStream
import SamtaDashboard.Api.ReadRoutes
import SamtaDashboard.Scripts.WorkerIds
import SamtaDashboard.System.WellFormed
import SamtaDashboard.System.Interleaving
import SamtaDashboard.System.Commits
import SamtaDashboard.System.Schedule
import SamtaDashboard.System.History
import SamtaDashboard.System.RunLog
import SamtaDashboard.System.Clock
import SamtaDashboard.System.ReadPaths
import SamtaDashboard.System.Fence
import SamtaDashboard.System.AtMostOnce
import SamtaDashboard.System.ReadBack
import SamtaDashboard.System.Ownership
import SamtaDashboard.System.Affinity
import SamtaDashboard.System.Completion
import SamtaDashboard.System.ReplayAgreement
import SamtaDashboard.System.ItemLifecycle
import SamtaDashboard.System.Stuck
import SamtaDashboard.System.Retry
import SamtaDashboard.System.RebuildAgreement
import SamtaDashboard.System.Service
import SamtaDashboard.System.Projections
import SamtaDashboard.System.Board
import SamtaDashboard.System.RowWriters
import SamtaDashboard.System.TickReplay
import SamtaDashboard.System.Faults
import SamtaDashboard.System.Ledger
import SamtaDashboard.System.Controls
import SamtaDashboard.System.Decisions
import SamtaDashboard.System.Partitions
import SamtaDashboard.System.Orphans
import SamtaDashboard.System.TickSize
import SamtaDashboard.System.EffortRange
import SamtaDashboard.System.FailedMutations
import SamtaDashboard.System.RunStart
import SamtaDashboard.System.CostHistory
import SamtaDashboard.System.Finishes
import SamtaDashboard.System.Recovery
import SamtaDashboard.System.Backing
import SamtaDashboard.System.ReadCut
import SamtaDashboard.System.Workspaces
import SamtaDashboard.System.LiveFeed
import SamtaDashboard.System.CreatedRuns
import SamtaDashboard.System.FreshReads
import SamtaDashboard.System.CurrentRows
import SamtaDashboard.System.RunPlaces
import SamtaDashboard.System.Window
import SamtaDashboard.System.Progress
import SamtaDashboard.Dashboard.Page
import SamtaDashboard.System.QuietPage
import SamtaDashboard.Application.Startup

import SamtaDashboard.Data.Values

/-!
# `domain::entities`

The records that the planner, the dispatcher and the two projection tables use. The status of a
work item is one of the five literals that the replays write; the status of a run is a text,
because a `RunStatusChanged` event may carry any.
-/

namespace SamtaDashboard

/-- The status literals of a replayed or projected work item. -/
inductive ItemStatus where
  | assigned
  | running
  | completed
  | failed
  | blocked
  deriving DecidableEq

structure WorkItem where
  id : Uuid
  runId : Uuid
  description : String
  assignedAgentId : Option Uuid
  status : String

structure AgentInstance where
  id : Uuid
  profileId : Uuid
  status : String

/-- `AgentRunProjection`, a row of `agent_runs_projection`. -/
structure AgentRunProjection where
  runId : Uuid
  workspaceId : Uuid
  status : String
  totalCost : F64
  effortPoints : Int
  updatedAt : Time

/-- `WorkItemProjection`, a row of `work_items_projection`. -/
structure WorkItemProjection where
  itemId : Uuid
  runId : Uuid
  status : ItemStatus
  assignedAgentId : Option Uuid
  deriving DecidableEq

end SamtaDashboard

import SamtaDashboard.Data.Json

/-!
# `events::envelope`

The eleven kinds of events and the envelope they travel in. The classifiers at the end name what
the replays and the stores read from a payload.
-/

namespace SamtaDashboard

inductive EventType where
  | workspaceCreated
  | agentProfileCreated
  | runStarted
  | runStatusChanged
  | workItemAssigned
  | workItemStarted
  | workItemCompleted
  | workItemFailed
  | progressChunkEmitted
  | blockerEncountered
  | runCompleted
  deriving DecidableEq

/-- `EventType::as_str`. -/
def EventType.asStr : EventType → String
  | .workspaceCreated => "workspace_created"
  | .agentProfileCreated => "agent_profile_created"
  | .runStarted => "run_started"
  | .runStatusChanged => "run_status_changed"
  | .workItemAssigned => "work_item_assigned"
  | .workItemStarted => "work_item_started"
  | .workItemCompleted => "work_item_completed"
  | .workItemFailed => "work_item_failed"
  | .progressChunkEmitted => "progress_chunk_emitted"
  | .blockerEncountered => "blocker_encountered"
  | .runCompleted => "run_completed"

inductive EventPayload where
  | workspaceCreated (name : String)
  | agentProfileCreated (name role : String) (costCap : F64)
  | runStarted (workspaceId : Uuid) (objective : String)
  | runStatusChanged (runId : Uuid) (status : String) (reason : Option String)
  | workItemAssigned (runId itemId agentId : Uuid)
  | workItemStarted (runId itemId agentId : Uuid)
  | workItemCompleted (runId itemId : Uuid) (effort : I32) (cost : F64)
  | workItemFailed (runId itemId : Uuid) (reason : String)
  | progressChunkEmitted (runId itemId : Uuid) (effort : I32) (cost : F64)
  | blockerEncountered (runId itemId : Uuid) (reason : String)
  | runCompleted (runId : Uuid) (summary : String)
  deriving DecidableEq

structure EventEnvelope where
  id : Uuid
  occurredAt : Time
  actorId : Uuid
  resourceId : Uuid
  correlationId : Option Uuid
  causationId : Option Uuid
  revision : Int
  metadata : Json
  payload : EventPayload

namespace EventPayload

/-- The type of a payload, as `EventEnvelope::event_type` finds it. -/
def eventType : EventPayload → EventType
  | workspaceCreated .. => .workspaceCreated
  | agentProfileCreated .. => .agentProfileCreated
  | runStarted .. => .runStarted
  | runStatusChanged .. => .runStatusChanged
  | workItemAssigned .. => .workItemAssigned
  | workItemStarted .. => .workItemStarted
  | workItemCompleted .. => .workItemCompleted
  | workItemFailed .. => .workItemFailed
  | progressChunkEmitted .. => .progressChunkEmitted
  | blockerEncountered .. => .blockerEncountered
  | runCompleted .. => .runCompleted

/-! ### Classifiers -/

/-- The run that a payload names in a `run_id` field. -/
def runId? : EventPayload → Option Uuid
  | runStatusChanged runId .. | workItemAssigned runId .. | workItemStarted runId .. => some runId
  | workItemCompleted runId .. | workItemFailed runId .. | progressChunkEmitted runId .. => some runId
  | blockerEncountered runId .. | runCompleted runId .. => some runId
  | _ => none

/-- The item that a payload names. -/
def itemId? : EventPayload → Option Uuid
  | workItemAssigned _ itemId _ | workItemStarted _ itemId _ => some itemId
  | workItemCompleted _ itemId .. | workItemFailed _ itemId _ => some itemId
  | progressChunkEmitted _ itemId .. | blockerEncountered _ itemId _ => some itemId
  | _ => none

/-- The payload marks item `i` as completed. -/
def completes (i : Uuid) : EventPayload → Bool
  | workItemCompleted _ itemId .. => itemId = i
  | _ => false

/-- The payload assigns item `i`. -/
def assigns (i : Uuid) : EventPayload → Bool
  | workItemAssigned _ itemId _ => itemId = i
  | _ => false

def isRunStarted : EventPayload → Bool
  | runStarted .. => true
  | _ => false

/-- The statuses that the control operations write. -/
def controlStatuses : List String := ["running", "paused", "cancelled"]

/-- The payload is of a kind that some writer uses, with a status that some writer uses. -/
def isWritten : EventPayload → Bool
  | runStatusChanged _ status _ => status ∈ controlStatuses
  | blockerEncountered .. => false
  | _ => true

/-- The payload is of a kind that the orchestrator writes. -/
def isOrchestrated : EventPayload → Bool
  | workspaceCreated .. | agentProfileCreated .. => true
  | runStarted .. | runStatusChanged .. | workItemAssigned .. => true
  | _ => false

/-- The payload records a step of an item's execution. -/
def isExecution : EventPayload → Bool
  | workItemStarted .. | workItemCompleted .. | workItemFailed .. | progressChunkEmitted .. => true
  | _ => false

/-- The effort and the cost that a payload adds to its run. -/
def charge? : EventPayload → Option (I32 × F64)
  | workItemCompleted _ _ effort cost | progressChunkEmitted _ _ effort cost => some (effort, cost)
  | _ => none

/-- The cost a payload carries is a number. -/
def costIsFinite : EventPayload → Bool
  | agentProfileCreated _ _ cost => cost.isFinite
  | workItemCompleted _ _ _ cost | progressChunkEmitted _ _ _ cost => cost.isFinite
  | _ => true

/-! ### How the kinds exclude each other -/

variable {p : EventPayload} {i : Uuid}

theorem isExecution_of_completes (h : p.completes i) : p.isExecution := by
  cases p <;> first | rfl | cases h

theorem isOrchestrated_of_assigns (h : p.assigns i) : p.isOrchestrated := by
  cases p <;> first | rfl | cases h

theorem isOrchestrated_of_isExecution (h : p.isExecution) : p.isOrchestrated = false := by
  cases p <;> first | rfl | cases h

theorem isExecution_of_isOrchestrated (h : p.isOrchestrated) : p.isExecution = false := by
  cases p <;> first | rfl | cases h

theorem completes_of_assigns (h : p.assigns i) : p.completes i = false := by
  cases p <;> first | rfl | cases h

end EventPayload

def payloads (events : List EventEnvelope) : List EventPayload := events.map (·.payload)

@[simp] theorem payloads_nil : payloads [] = [] := rfl

@[simp] theorem payloads_cons (e : EventEnvelope) (events : List EventEnvelope) :
    payloads (e :: events) = e.payload :: payloads events := rfl

@[simp] theorem payloads_append (a b : List EventEnvelope) :
    payloads (a ++ b) = payloads a ++ payloads b :=
  List.map_append

/-- `EventEnvelope::event_type`. -/
def EventEnvelope.eventType (e : EventEnvelope) : EventType := e.payload.eventType

end SamtaDashboard

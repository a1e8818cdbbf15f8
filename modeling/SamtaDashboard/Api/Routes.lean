import SamtaDashboard.Application.Orchestrator

/-!
# `api::routes`

The handlers that change something, as functions on the database. `now` is the clock of the
statement that writes a projection row. The cost history of a run is at the end.
-/

namespace SamtaDashboard

/-- `StatusCode`, as far as the handlers use it. -/
inductive StatusCode where
  | internalServerError
  | notFound
  deriving DecidableEq

abbrev HttpError := StatusCode × String

structure CreateRunRequest where
  workspaceId : Uuid
  objective : String
  targetItemCount : Option UInt16
  agentCount : Option UInt16

structure RunActionResponse where
  runId : Uuid
  status : String
  applied : Bool
  deriving DecidableEq

/-! ### Statements on the projection tables -/

/-- `upsert_run_projection`: the totals are reset. -/
def upsertNewRun (store : ProjectionStore) (runId workspaceId : Uuid) (status : String)
    (updatedAt : Time) : ProjectionStore :=
  store.upsertRunProjection ⟨runId, workspaceId, status, .zero, 0, updatedAt⟩

def syncProjectionStatus (store : ProjectionStore) (runId : Uuid) (workspaceId : Option Uuid)
    (status : String) (now : Time) : Except HttpError ProjectionStore :=
  match workspaceId, store.runs runId with
  | _, some row => .ok (store.upsertRunProjection { row with status := status, updatedAt := now })
  | some workspaceId, none =>
    .ok (store.upsertRunProjection ⟨runId, workspaceId, status, .zero, 0, now⟩)
  | none, none => .error (.notFound, "run projection not found")

def fetchRunStatusOnly (store : ProjectionStore) (runId : Uuid) : Except HttpError String :=
  match store.runs runId with
  | some row => .ok row.status
  | none => .error (.notFound, "run not found")

/-- `fetch_run_workspace`: of several `run_started` rows the first one committed. -/
def fetchRunWorkspace (log : EventLog) (runId : Uuid) : Except HttpError (Option Uuid) :=
  let rows := (stream log runId).map EventRow.ofEnvelope
  match rows.find? fun row =>
      row.eventType = "run_started" && (row.payload.get "workspace_id").isSome with
  | none => .ok none
  | some row =>
    match (row.payload.get "workspace_id").bind Json.asStr with
    | none => .ok none
    | some text =>
      match Uuid.parseStr text with
      | .ok workspaceId => .ok (some workspaceId)
      | .error message => .error (.internalServerError, message)

/-! ### Handlers

A handler gives back its response and the database it leaves, also when it fails. -/

def createRun (draws : Draws) (now : Time) (request : CreateRunRequest) (db : Db) :
    Except HttpError Uuid × Db :=
  match startRun draws db.log request.workspaceId request.objective
      (request.targetItemCount.filter (0 < ·)) (request.agentCount.filter (0 < ·)) with
  | .error message => (.error (.internalServerError, message), db)
  | .ok (id, log) =>
    (.ok id, { log := log, store := upsertNewRun db.store id request.workspaceId "running" now })

/-- The end of a control handler, after the orchestrator said whether it changed the run. -/
def runAction (runId : Uuid) (status : String) (workspaceId : Option Uuid) (now : Time)
    (changed : Bool) (db : Db) : Except HttpError RunActionResponse × Db :=
  if changed then
    match syncProjectionStatus db.store runId workspaceId status now with
    | .error error => (.error error, db)
    | .ok store => (.ok ⟨runId, status, true⟩, { db with store := store })
  else
    match fetchRunStatusOnly db.store runId with
    | .error error => (.error error, db)
    | .ok runStatus => (.ok ⟨runId, runStatus, false⟩, db)

/-- The handler of a control operation that does not look up the workspace. -/
def controlHandler (operation : Draws → EventLog → Uuid → Except String (Bool × EventLog))
    (status : String) (draws : Draws) (now : Time) (runId : Uuid) (db : Db) :
    Except HttpError RunActionResponse × Db :=
  match operation draws db.log runId with
  | .error message => (.error (.internalServerError, message), db)
  | .ok (changed, log) => runAction runId status none now changed { db with log := log }

/-- `pause_run`. -/
def pauseRunHandler (draws : Draws) (now : Time) (runId : Uuid) (db : Db) :
    Except HttpError RunActionResponse × Db :=
  controlHandler pauseRun "paused" draws now runId db

/-- `resume_run`. -/
def resumeRunHandler (draws : Draws) (now : Time) (runId : Uuid) (db : Db) :
    Except HttpError RunActionResponse × Db :=
  controlHandler resumeRun "running" draws now runId db

/-- `cancel_run`. -/
def cancelRunHandler (draws : Draws) (now : Time) (runId : Uuid) (db : Db) :
    Except HttpError RunActionResponse × Db :=
  controlHandler cancelRun "cancelled" draws now runId db

/-- `retry_run`: it looks up the workspace in the log after the append. -/
def retryRunHandler (draws : Draws) (order : List Uuid) (now : Time) (runId : Uuid) (db : Db) :
    Except HttpError RunActionResponse × Db :=
  match retryRun draws order db.log runId with
  | .error message => (.error (.internalServerError, message), db)
  | .ok (false, log) => runAction runId "running" none now false { db with log := log }
  | .ok (true, log) =>
    match fetchRunWorkspace log runId with
    | .error error => (.error error, { db with log := log })
    | .ok workspaceId => runAction runId "running" workspaceId now true { db with log := log }

/-! ### The cost history -/

/-- `extract_effort_cost`: an unknown event type is replaced by the type in the details, again and
again, so the recursion gets fuel; `none` means that it ran out. -/
def extractEffortCost : Nat → String → Json → Option (I32 × F64)
  | 0, _, _ => none
  | fuel + 1, eventType, details =>
    if eventType = "progress_chunk_emitted" ∨ eventType = "work_item_completed" then
      some (I32.wrap (((details.get "effort").bind Json.asI64).getD 0),
        ((details.get "cost").bind Json.asF64).getD .zero)
    else if eventType ∈ ["work_item_started", "work_item_assigned", "work_item_failed",
        "blocker_encountered", "run_started", "run_completed", "run_status_changed",
        "workspace_created", "agent_profile_created"] then
      some (I32.wrap 0, .zero)
    else
      match (details.get "type").bind Json.asStr with
      | some payloadEventType => extractEffortCost fuel payloadEventType details
      | none => some (I32.wrap 0, .zero)

structure CostEffortHistoryPoint where
  revision : Int
  occurredAt : Time
  totalCost : F64
  totalEffort : Int

/-- The locals of `build_cost_effort_history`. -/
structure HistoryState where
  totalCost : F64
  totalEffort : Int
  points : List CostEffortHistoryPoint

/-- The closure of `build_cost_effort_history` on one row. -/
def addHistoryPoint (fuel : Nat) (state : HistoryState) (row : EventRow) : Option HistoryState :=
  (extractEffortCost fuel row.eventType row.payload).map fun (deltaEffort, deltaCost) =>
    if deltaEffort.val = 0 ∧ deltaCost = .zero then state
    else
      let totalEffort := state.totalEffort + deltaEffort.val
      let totalCost := state.totalCost.add deltaCost
      ⟨totalCost, totalEffort,
        state.points ++ [⟨row.revision, row.occurredAt, totalCost, totalEffort⟩]⟩

/-- `build_cost_effort_history` on the rows of a timeline. -/
def buildCostEffortHistory (fuel : Nat) (rows : List EventRow) :
    Option (List CostEffortHistoryPoint) :=
  (rows.foldlM (addHistoryPoint fuel) ⟨.zero, 0, []⟩).map (·.points)

end SamtaDashboard

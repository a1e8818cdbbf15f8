import SamtaDashboard.Api.Routes
import Mathlib.Data.List.Nodup

/-!
# `api::routes`: the handlers that read

A handler that reads makes one statement after the other, each in a transaction of its own, so each
sees the database at its own time. `seen k` is what the statement with number `k` sees, or the error that
the database gives it. A statement without `ORDER BY` gives the rows as they are scanned, and the times
that `to_char` formats stay times.
-/

namespace SamtaDashboard

/-- What a statement sees: the log, and the rows of the two tables in the order of a scan. -/
structure DbView where
  log : EventLog
  runs : List AgentRunProjection
  items : List WorkItemProjection

/-- The scans give every row of the tables once. -/
structure DbView.Shows (view : DbView) (log : EventLog) (store : ProjectionStore) : Prop where
  log : view.log = log
  runIds : (view.runs.map (·.runId)).Nodup
  runs : ∀ row, row ∈ view.runs ↔ store.runs row.runId = some row
  itemIds : (view.items.map (·.itemId)).Nodup
  items : ∀ row, row ∈ view.items ↔ store.items row.itemId = some row

/-- What the statements of a handler see. -/
abbrev Statements := Nat → Except String DbView

/-- The result of a statement, with `.map_err(..)`. -/
def Statements.query {α : Type} (seen : Statements) (k : Nat) (f : DbView → α) :
    Except HttpError α :=
  match seen k with
  | .ok view => .ok (f view)
  | .error message => .error (.internalServerError, message)

/-! ### `list_workspaces` -/

structure WorkspaceResponse where
  id : Uuid
  name : String
  deriving DecidableEq

/-- The `ORDER BY` of `list_workspaces`: by id, the latest first. -/
def workspaceLe (a b : EventRow) : Prop :=
  a.resourceId.bits.toNat < b.resourceId.bits.toNat ∨
    a.resourceId = b.resourceId ∧ b.occurredAt ≤ a.occurredAt

instance : DecidableRel workspaceLe := fun _ _ => inferInstanceAs (Decidable (_ ∨ _))

/-- `DISTINCT ON (resource_id)`: for each id the first row. -/
def distinctOnResource : List EventRow → List EventRow
  | [] => []
  | row :: rows => row :: (distinctOnResource rows).filter (·.resourceId ≠ row.resourceId)

/-- The column `payload->>'name'`, which the handler decodes as a text that is not null. -/
def workspaceName (row : EventRow) : Except String String :=
  match (row.payload.get "name").bind Json.asStr with
  | some name => .ok name
  | none => .error "unexpected null; try decoding as an `Option`"

def workspaceRow (row : EventRow) : Except String WorkspaceResponse := do
  let name ← workspaceName row
  return ⟨row.resourceId, name⟩

def listWorkspaces (seen : Statements) : Except HttpError (List WorkspaceResponse) := do
  let rows ← seen.query 0 fun view =>
    distinctOnResource (((view.log.map EventRow.ofEnvelope).filter
      (·.eventType = "workspace_created")).insertionSort workspaceLe)
  (rows.mapM workspaceRow).mapError fun message => (.internalServerError, message)

/-! ### `projection_status` and `overview_metrics` -/

structure ProjectionStatusResponse where
  eventCount : Nat
  runProjectionCount : Nat
  deriving DecidableEq

def projectionStatus (seen : Statements) : Except HttpError ProjectionStatusResponse := do
  let eventCount ← seen.query 0 (·.log.length)
  let runProjectionCount ← seen.query 1 (·.runs.length)
  return ⟨eventCount, runProjectionCount⟩

structure OverviewMetricsResponse where
  totalEvents : Nat
  eventStreamCount : Nat
  totalWorkspaces : Nat
  totalRuns : Nat
  runningRuns : Nat
  completedRuns : Nat
  blockedRuns : Nat
  totalWorkItems : Nat
  lastEventAt : Option Time
  deriving DecidableEq

def overviewMetrics (seen : Statements) : Except HttpError OverviewMetricsResponse := do
  let totalEvents ← seen.query 0 (·.log.length)
  let eventStreamCount ← seen.query 1 fun view => (view.log.map (·.resourceId)).dedup.length
  let totalWorkspaces ← seen.query 2 fun view =>
    (((view.log.map EventRow.ofEnvelope).filter (·.eventType = "workspace_created")).map
      (·.resourceId)).dedup.length
  let totalRuns ← seen.query 3 (·.runs.length)
  let runningRuns ← seen.query 4 (·.runs.countP (·.status = "running"))
  let completedRuns ← seen.query 5 (·.runs.countP (·.status = "completed"))
  let blockedRuns ← seen.query 6 (·.runs.countP (·.status = "blocked"))
  let totalWorkItems ← seen.query 7 (·.items.length)
  let lastEventAt ← seen.query 8 fun view => (view.log.map (·.occurredAt)).max?
  return ⟨totalEvents, eventStreamCount, totalWorkspaces, totalRuns, runningRuns, completedRuns,
    blockedRuns, totalWorkItems, lastEventAt⟩

/-! ### `list_runs` and `run_status` -/

structure RunSummaryResponse where
  runId : Uuid
  workspaceId : Uuid
  status : String
  totalCost : F64
  effortPoints : Int
  updatedAt : Time

def RunSummaryResponse.ofRow (row : AgentRunProjection) : RunSummaryResponse :=
  ⟨row.runId, row.workspaceId, row.status, row.totalCost, row.effortPoints, row.updatedAt⟩

/-- `list_runs`: the rows with the latest update first. -/
def listRuns (seen : Statements) : Except HttpError (List RunSummaryResponse) := do
  let rows ← seen.query 0 (·.runs.insertionSort fun a b => b.updatedAt ≤ a.updatedAt)
  return rows.map .ofRow

structure TimelineEventResponse where
  revision : Int
  eventType : String
  occurredAt : Time
  details : Json

def TimelineEventResponse.ofRow (row : EventRow) : TimelineEventResponse :=
  ⟨row.revision, row.eventType, row.occurredAt, row.payload⟩

/-- `RunStatusResponse`; there is no cost history if `build_cost_effort_history` does not end. -/
structure RunStatusResponse where
  runId : Uuid
  workspaceId : Uuid
  status : String
  totalCost : F64
  effortPoints : Int
  streamEventCount : Nat
  streamRevision : Int
  latestEventType : Option String
  latestEventAt : Option Time
  updatedAt : Time
  workItems : List WorkItemProjection
  timeline : List TimelineEventResponse
  costEffortHistory : Option (List CostEffortHistoryPoint)

/-- The rows of a stream, `ORDER BY revision ASC`. -/
def timelineRows (log : EventLog) (runId : Uuid) : List EventRow :=
  ((stream log runId).insertionSort (·.revision ≤ ·.revision)).map EventRow.ofEnvelope

/-- The row of a stream, `ORDER BY revision DESC LIMIT 1`. -/
def latestRow (log : EventLog) (runId : Uuid) : Option EventRow :=
  (((stream log runId).insertionSort fun a b => b.revision ≤ a.revision).map EventRow.ofEnvelope).head?

/-- The answer of `run_status`; `fuel` bounds the recursion of `extract_effort_cost`. -/
def RunStatusResponse.of (fuel : Nat) (row : AgentRunProjection) (streamEventCount : Nat)
    (latestEvent : Option EventRow) (workItems : List WorkItemProjection) (rows : List EventRow) :
    RunStatusResponse where
  runId := row.runId
  workspaceId := row.workspaceId
  status := row.status
  totalCost := row.totalCost
  effortPoints := row.effortPoints
  streamEventCount := streamEventCount
  streamRevision := (latestEvent.map (·.revision)).getD 0
  latestEventType := latestEvent.map (·.eventType)
  latestEventAt := latestEvent.map (·.occurredAt)
  updatedAt := row.updatedAt
  workItems := workItems
  timeline := rows.map .ofRow
  costEffortHistory := buildCostEffortHistory fuel rows

def runStatus (fuel : Nat) (seen : Statements) (runId : Uuid) : Except HttpError RunStatusResponse := do
  let projectionRow ← seen.query 0 (·.runs.find? (·.runId = runId))
  match projectionRow with
  | none => throw (.notFound, "run not found")
  | some row =>
    let streamEventCount ← seen.query 1 fun view => (stream view.log row.runId).length
    let latestEvent ← seen.query 2 fun view => latestRow view.log row.runId
    let workItems ← seen.query 3 (·.items.filter (·.runId = row.runId))
    let rows ← seen.query 4 fun view => timelineRows view.log row.runId
    return .of fuel row streamEventCount latestEvent workItems rows

/-! ### What the statements give -/

section statements

variable {seen : Statements} {views : Nat → DbView} {view : DbView}

@[simp] theorem Statements.query_of_ok {α : Type} {k : Nat} (h : seen k = .ok view)
    (f : DbView → α) : seen.query k f = .ok (f view) := by
  rw [query, h]

theorem runStatus_eq (h : ∀ k < 5, seen k = .ok (views k)) (fuel : Nat) (runId : Uuid) :
    runStatus fuel seen runId =
      match (views 0).runs.find? (·.runId = runId) with
      | none => .error (.notFound, "run not found")
      | some row => .ok (.of fuel row (stream (views 1).log row.runId).length
          (latestRow (views 2).log row.runId) ((views 3).items.filter (·.runId = row.runId))
          (timelineRows (views 4).log row.runId)) := by
  rw [runStatus, Statements.query_of_ok (h 0 (by omega))]
  show (match (views 0).runs.find? (·.runId = runId) with | none => _ | some row => _) = _
  split
  · rfl
  · rw [Statements.query_of_ok (h 1 (by omega)), Statements.query_of_ok (h 2 (by omega)),
      Statements.query_of_ok (h 3 (by omega)), Statements.query_of_ok (h 4 (by omega))]
    rfl

end statements

/-! ### Streams without gaps -/

section ordered

variable {log : EventLog} {r : Uuid} {n : Int}

theorem Consecutive.eq_of_revision {events : List EventEnvelope} (h : Consecutive n events)
    {a b : EventEnvelope} (ha : a ∈ events) (hb : b ∈ events) (hrevision : a.revision = b.revision) :
    a = b :=
  List.inj_on_of_nodup_map (List.pairwise_map.mpr (h.pairwise.imp fun hlt => ne_of_lt hlt)) ha hb
    hrevision

theorem Consecutive.timelineRows_eq (h : Consecutive n (stream log r)) :
    timelineRows log r = (stream log r).map EventRow.ofEnvelope := by
  have hsorted : (stream log r).Pairwise (·.revision ≤ ·.revision) := h.pairwise.imp le_of_lt
  rw [timelineRows, hsorted.insertionSort_eq]

theorem Consecutive.latestRow_eq (h : Consecutive n (stream log r)) :
    latestRow log r = (stream log r).getLast?.map EventRow.ofEnvelope := by
  have hdescending : (stream log r).reverse.Pairwise fun a b => b.revision ≤ a.revision :=
    List.pairwise_reverse.mpr (h.pairwise.imp le_of_lt)
  have hperm : ((stream log r).insertionSort fun a b => b.revision ≤ a.revision).Perm
      (stream log r).reverse :=
    (List.perm_insertionSort _ _).trans (List.reverse_perm _).symm
  have hreverse : ((stream log r).insertionSort fun a b => b.revision ≤ a.revision) =
      (stream log r).reverse := by
    refine hperm.eq_of_pairwise (fun a b ha hb hab hba => ?_) (List.pairwise_insertionSort _ _)
      hdescending
    have hmem := fun {x} hx => (List.perm_insertionSort
      (fun a b : EventEnvelope => b.revision ≤ a.revision) (stream log r)).mem_iff (a := x) |>.mp hx
    exact h.eq_of_revision (hmem ha) (List.mem_reverse.mp hb) (le_antisymm hba hab)
  rw [latestRow, hreverse, List.head?_map, List.head?_reverse]

end ordered

end SamtaDashboard

import SamtaDashboard.Infra.Persistence

/-!
# `infra::replay`: the projection rebuild

`rebuildProjections` folds `load_all` into one row for each run and one for each item, clears the
tables and writes the rows; the iteration orders of the two maps are arguments. The rows themselves
stand for `RunProjectionState` and `ItemProjectionState`, which have the same fields.
-/

namespace SamtaDashboard

/-- `run_states` and `item_states`. -/
structure RebuildState where
  runStates : HashMap AgentRunProjection
  itemStates : HashMap WorkItemProjection

namespace RebuildState

/-- What `or_insert_with` creates for a run without an entry. -/
def newRun (runId : Uuid) (status : String) (at_ : Time) : AgentRunProjection :=
  ⟨runId, Uuid.nil, status, .zero, 0, at_⟩

/-- `run_states.entry(run_id).or_insert_with(..)`, and then `f` on the entry. -/
def withRun (state : RebuildState) (runId : Uuid) (status : String) (at_ : Time)
    (f : AgentRunProjection → AgentRunProjection) : HashMap AgentRunProjection :=
  state.runStates.insert runId
    (f ((state.runStates.lookup runId).getD (newRun runId status at_)))

/-- `item_states.entry(item_id).or_insert_with(..)` and then `item.status = status`. -/
def withItem (state : RebuildState) (itemId runId : Uuid) (status : ItemStatus) :
    HashMap WorkItemProjection :=
  state.itemStates.insert itemId
    { (state.itemStates.lookup itemId).getD ⟨itemId, runId, status, none⟩ with status := status }

/-- One iteration of the loop over the events. -/
def apply (state : RebuildState) (e : EventEnvelope) : RebuildState :=
  match e.payload with
  | .runStarted workspaceId _ =>
    { state with
      runStates := state.runStates.insert e.resourceId
        ⟨e.resourceId, workspaceId, "running", .zero, 0, e.occurredAt⟩ }
  | .runStatusChanged runId status _ =>
    { state with
      runStates := state.withRun runId status e.occurredAt
        ({ · with status := status, updatedAt := e.occurredAt }) }
  | .progressChunkEmitted runId _ effort cost =>
    { state with
      runStates := state.withRun runId "running" e.occurredAt fun row =>
        { row with
          totalCost := row.totalCost.add cost
          effortPoints := row.effortPoints + effort.val
          status := "running"
          updatedAt := e.occurredAt } }
  | .workItemAssigned runId itemId agentId =>
    { itemStates := state.itemStates.insert itemId
        { (state.itemStates.lookup itemId).getD ⟨itemId, runId, .assigned, some agentId⟩ with
          status := .assigned
          assignedAgentId := some agentId }
      runStates := state.withRun runId "running" e.occurredAt id }
  | .workItemStarted runId itemId _ =>
    { itemStates := state.withItem itemId runId .running
      runStates := state.withRun runId "running" e.occurredAt id }
  | .workItemCompleted runId itemId effort cost =>
    { itemStates := state.withItem itemId runId .completed
      runStates := state.withRun runId "running" e.occurredAt fun row =>
        { row with
          status := "running"
          updatedAt := e.occurredAt
          totalCost := row.totalCost.add cost
          effortPoints := row.effortPoints + effort.val } }
  | .workItemFailed runId itemId _ =>
    { itemStates := state.withItem itemId runId .failed
      runStates := state.withRun runId "blocked" e.occurredAt
        ({ · with status := "blocked", updatedAt := e.occurredAt }) }
  | .blockerEncountered runId itemId _ =>
    { itemStates := state.withItem itemId runId .blocked
      runStates := state.withRun runId "blocked" e.occurredAt
        ({ · with status := "blocked", updatedAt := e.occurredAt }) }
  | .runCompleted runId _ =>
    { state with
      runStates := state.withRun runId "completed" e.occurredAt
        ({ · with status := "completed", updatedAt := e.occurredAt }) }
  | .workspaceCreated _ | .agentProfileCreated .. => state

/-- The loop over the events. -/
def fromEvents (events : List EventEnvelope) : RebuildState := events.foldl apply ⟨∅, ∅⟩

end RebuildState

/-- `rebuild_projections` on the loaded events. -/
def rebuildProjections (runOrder itemOrder : List Uuid) (events : List EventEnvelope)
    (store : ProjectionStore) : ProjectionStore × Nat :=
  let state := RebuildState.fromEvents events
  let store := (runOrder.filterMap state.runStates.lookup).foldl
    ProjectionStore.upsertRunProjection store.clear
  let store := (itemOrder.filterMap state.itemStates.lookup).foldl
    ProjectionStore.upsertWorkItemProjection store
  (store, state.runStates.entries.length)

/-- `store'` is a possible result of `rebuild_projections` on this log. -/
def Rebuilds (log : EventLog) (store store' : ProjectionStore) : Prop :=
  ∃ events runOrder itemOrder, LoadAll log (.ok events) ∧
    (RebuildState.fromEvents events).runStates.IsOrder runOrder ∧
    (RebuildState.fromEvents events).itemStates.IsOrder itemOrder ∧
    store' = (rebuildProjections runOrder itemOrder events store).1

end SamtaDashboard

import SamtaDashboard.Application.Worker

/-!
# `application::harness` and `application::cost_tracker`: results and what they cost

`eventsForExecution` turns the result of one execution into events: `Started`, then either
`Completed` and a `ProgressChunk` with half of the effort and cost, or `Failed`. `calculateRunCost` reads
a cost of the run back from them.
-/

namespace SamtaDashboard

structure ExecutionContext where
  runId : Uuid
  itemId : Uuid
  agentId : Uuid
  description : String

structure ExecutionResult where
  success : Bool
  effort : I32
  cost : F64
  summary : Option String
  error : Option String

/-- `AgentExecutor::execute`. -/
abbrev AgentExecutor := ExecutionContext → Except String ExecutionResult

/-- The effort of the progress chunk: `(result.effort / 2).max(1)`. -/
def ExecutionResult.chunkEffort (result : ExecutionResult) : I32 :=
  (result.effort.div 2).max ⟨1, by decide⟩

def eventsForExecution (worker : Worker) (stamp : Nat → Stamp) (runId itemId : Uuid)
    (revision : Int) (agentId : Uuid) (result : ExecutionResult) : List EventEnvelope :=
  let started := worker.itemStartedEvent (stamp 0) runId itemId revision agentId
  if result.success then
    [started,
      worker.itemCompletedEvent (stamp 1) runId itemId (revision + 1) result.effort result.cost
        agentId,
      worker.progressChunkEvent (stamp 2) runId itemId (revision + 2) result.chunkEffort
        result.cost.half agentId]
  else
    [started,
      worker.itemFailedEvent (stamp 1) runId itemId (revision + 1)
        (result.error.getD "executor failed")]

theorem one_le_chunkEffort (result : ExecutionResult) : 1 ≤ result.chunkEffort.val :=
  I32.le_max_right _ _

/-- `CostTracker::calculate_run_cost`: it sums the progress chunks only. -/
def calculateRunCost (events : List EventEnvelope) : F64 :=
  F64.sum (events.filterMap fun e =>
    match e.payload with
    | .progressChunkEmitted _ _ _ cost => some cost
    | _ => none)

end SamtaDashboard

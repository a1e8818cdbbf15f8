import SamtaDashboard.Events.Envelope

/-!
# `application::worker`: the event constructors of a worker

Every `Uuid::new_v4()` and `Utc::now()` of the code is an argument here, a `Stamp` for each event.
-/

namespace SamtaDashboard

/-- The id and the time of a new event. -/
structure Stamp where
  id : Uuid
  now : Time

structure Worker where
  agentId : Uuid

/-- The envelope all constructors build. -/
def newEnvelope (stamp : Stamp) (actorId resourceId : Uuid) (revision : Int)
    (payload : EventPayload) : EventEnvelope where
  id := stamp.id
  occurredAt := stamp.now
  actorId := actorId
  resourceId := resourceId
  correlationId := none
  causationId := none
  revision := revision
  metadata := .null
  payload := payload

namespace Worker

/-- `item_started_event`: the payload carries the worker's own id, the actor is `agentId`. -/
def itemStartedEvent (worker : Worker) (stamp : Stamp) (runId itemId : Uuid) (revision : Int)
    (agentId : Uuid) : EventEnvelope :=
  newEnvelope stamp agentId runId revision (.workItemStarted runId itemId worker.agentId)

def itemCompletedEvent (_ : Worker) (stamp : Stamp) (runId itemId : Uuid) (revision : Int)
    (effort : I32) (cost : F64) (agentId : Uuid) : EventEnvelope :=
  newEnvelope stamp agentId runId revision (.workItemCompleted runId itemId effort cost)

def progressChunkEvent (_ : Worker) (stamp : Stamp) (runId itemId : Uuid) (revision : Int)
    (effort : I32) (cost : F64) (agentId : Uuid) : EventEnvelope :=
  newEnvelope stamp agentId runId revision (.progressChunkEmitted runId itemId effort cost)

def completeEvent (worker : Worker) (stamp : Stamp) (runId : Uuid) (revision : Int)
    (totalCompletedItems : Nat) : EventEnvelope :=
  newEnvelope stamp worker.agentId runId revision
    (.runCompleted runId s!"worker completed run after {totalCompletedItems} items")

def itemFailedEvent (worker : Worker) (stamp : Stamp) (runId itemId : Uuid) (revision : Int)
    (reason : String) : EventEnvelope :=
  newEnvelope stamp worker.agentId runId revision (.workItemFailed runId itemId reason)

end Worker

end SamtaDashboard

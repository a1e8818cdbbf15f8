import SamtaDashboard.Application.Harness
import SamtaDashboard.Application.RunState
import SamtaDashboard.Infra.Persistence

/-!
# `bin/worker.rs`: one iteration of the loop over the runs

`advanceRun` is the body of `for (run_id, state) in run_states.iter_mut()` up to the append: the item
loop and the completion event. The iteration order of the item map is the argument `order`, the ids
and times drawn are `stamp 0`, `stamp 1`, …, and the executor is a function of its context.

The append with rebased revisions and the projection writes follow; `TickInput.tick` is one turn of
`main`'s loop on a database that nobody else writes.
-/

namespace SamtaDashboard

/-- The values `main` reads before its loop. -/
structure LoopConfig where
  worker : Worker
  executor : AgentExecutor
  maxItemsPerLoop : Nat
  itemAffinity : Bool

/-- The locals of one iteration; `reads` counts the stamps drawn. -/
structure LoopState where
  state : RunState
  runEvents : List EventEnvelope
  nextRevision : Int
  reads : Nat

namespace LoopConfig

variable (config : LoopConfig) (stamp : Nat → Stamp) (order : List Uuid) (runId : Uuid)

/-- The closure that selects an item. -/
def eligible (item : ItemState) : Bool :=
  item.status = .assigned &&
    (!config.itemAffinity || item.assignedAgentId = some config.worker.agentId)

/-- `state.items.iter().find(..)`. -/
def nextItem (state : RunState) : Option Uuid :=
  order.find? fun itemId => (state.items.lookup itemId).any config.eligible

/-- The context of an execution: the item's agent, or the worker if it has none. -/
def context (state : RunState) (itemId : Uuid) : ExecutionContext where
  runId := runId
  itemId := itemId
  agentId := (state.itemAgent itemId).getD config.worker.agentId
  description := s!"item-{itemId.toText}"

/-- `item_state.status = status`, if the item has an entry. -/
def markItem (items : HashMap ItemState) (itemId : Uuid) (status : ItemStatus) :
    HashMap ItemState :=
  items.modify itemId ({ · with status := status })

/-- The arm of the loop for an executor error. -/
def recordError (s : LoopState) (itemId : Uuid) (message : String) : LoopState where
  state := { s.state with
    items := markItem s.state.items itemId .failed
    status := "blocked" }
  runEvents := s.runEvents ++
    [config.worker.itemFailedEvent (stamp s.reads) runId itemId (s.nextRevision + 1) message]
  nextRevision := s.nextRevision + 1
  reads := s.reads + 1

/-- What a result changes in the run's state before the revision and the time are set. -/
def applyResult (state : RunState) (itemId : Uuid) (result : ExecutionResult) : RunState :=
  if result.success then
    { state with
      items := markItem state.items itemId .completed
      totalCost := state.totalCost.add result.cost
      effortPoints := state.effortPoints + result.effort.val }
  else { state with items := markItem state.items itemId .failed, status := "blocked" }

/-- The rest of the loop's body for an executor result. -/
def recordResult (s : LoopState) (itemId agentId : Uuid) (result : ExecutionResult) : LoopState :=
  let events := eventsForExecution config.worker (fun k => stamp (s.reads + k)) runId itemId
    (s.nextRevision + 1) agentId result
  let revision := (events.getLast?.map (·.revision)).getD (s.nextRevision + 1)
  let reads := s.reads + events.length
  let state := applyResult s.state itemId result
  { state := { state with
      latestRevision := revision
      updatedAt := (stamp reads).now
      status := if state.status = "blocked" then "blocked" else "running" }
    runEvents := s.runEvents ++ events
    nextRevision := revision
    reads := reads + 1 }

/-- The body of the `while` loop once an item is selected: the item is set running and executed. -/
def executeItem (s : LoopState) (itemId : Uuid) : LoopState :=
  let ctx := config.context runId s.state itemId
  let running := { s with
    state := { s.state with items := markItem s.state.items itemId .running } }
  match config.executor ctx with
  | .error message => config.recordError stamp runId running itemId message
  | .ok result => config.recordResult stamp runId running itemId ctx.agentId result

/-- The `while` loop; the first argument is `max_items_per_loop - processed_count`. -/
def itemLoop : Nat → LoopState → LoopState
  | 0, s => s
  | remaining + 1, s =>
    match config.nextItem order s.state with
    | none => s
    | some itemId => itemLoop remaining (config.executeItem stamp runId s itemId)

/-- The completion event after the loop. -/
def finishRun (s : LoopState) : LoopState :=
  if s.state.allItemsCompleted ∧ s.state.status ≠ "completed" then
    let revision := s.nextRevision + 1
    { state := { s.state with
        status := "completed"
        latestRevision := revision
        updatedAt := (stamp (s.reads + 1)).now }
      runEvents := s.runEvents ++
        [config.worker.completeEvent (stamp s.reads) runId revision s.state.completedItemCount]
      nextRevision := revision
      reads := s.reads + 2 }
  else s

/-- The locals on entry. -/
def enterRun (state : RunState) : LoopState where
  state := state
  runEvents := []
  nextRevision := state.latestRevision
  reads := 0

/-- The guards at the top of the iteration. -/
def skips (state : RunState) : Bool :=
  state.workspaceId.isNil || state.status ≠ "running" || state.items.values.isEmpty

/-- One iteration up to the append: the state in memory and the batch. -/
def advanceRun (state : RunState) : RunState × List EventEnvelope :=
  if skips state then (state, [])
  else
    let s := config.finishRun stamp runId
      (config.itemLoop stamp order runId config.maxItemsPerLoop (enterRun state))
    (s.state, s.runEvents)

end LoopConfig

/-! ### Appending and projecting -/

def withRebasedRevisions (events : List EventEnvelope) (latestRevision : Int) :
    List EventEnvelope :=
  events.mapIdx fun index event => { event with revision := latestRevision + index + 1 }

/-- The revision an append is based on: `events.last().map_or(0, |event| event.revision)`. -/
def lastRevision (events : List EventEnvelope) : Int :=
  (events.getLast?.map (·.revision)).getD 0

/-- One attempt of `append_events_with_retry`. -/
def appendAttempt (log : EventLog) (runId : Uuid) (baseEvents : List EventEnvelope) :
    Except String EventLog := do
  let events ← load log runId
  append log runId (withRebasedRevisions baseEvents (lastRevision events))

/-- `append_events_with_retry` without other writers; `retries` is `max_attempts - attempt`. -/
def appendEventsWithRetry (log : EventLog) (runId : Uuid) (baseEvents : List EventEnvelope) :
    Nat → Except String EventLog
  | 0 => appendAttempt log runId baseEvents
  | retries + 1 =>
    match appendAttempt log runId baseEvents with
    | .ok log' => .ok log'
    | .error _ => appendEventsWithRetry log runId baseEvents retries

def itemStatusFromPayload (payload : EventPayload) (fallbackAgentId : Option Uuid) :
    Option (Uuid × ItemStatus × Option Uuid) :=
  match payload with
  | .workItemAssigned _ itemId agentId => some (itemId, .assigned, some agentId)
  | .workItemStarted _ itemId agentId => some (itemId, .running, some agentId)
  | .workItemCompleted _ itemId .. => some (itemId, .completed, fallbackAgentId)
  | .workItemFailed _ itemId _ => some (itemId, .failed, fallbackAgentId)
  | .blockerEncountered _ itemId _ => some (itemId, .blocked, fallbackAgentId)
  | _ => none

/-- The item whose agent `update_run_projections` looks up; it skips every other event. -/
def projectedItem? : EventPayload → Option Uuid
  | .workItemCompleted _ itemId .. | .workItemFailed _ itemId _ => some itemId
  | .workItemStarted _ itemId _ | .workItemAssigned _ itemId _ => some itemId
  | .progressChunkEmitted _ itemId .. => some itemId
  | _ => none

/-- The loop of `update_run_projections` on one event. -/
def projectEvent (state : RunState) (runId : Uuid) (store : ProjectionStore)
    (e : EventEnvelope) : ProjectionStore :=
  match projectedItem? e.payload with
  | none => store
  | some i =>
    match itemStatusFromPayload e.payload (state.itemAgent i) with
    | some (itemId, status, assignedAgentId) =>
      store.upsertWorkItemProjection ⟨itemId, runId, status, assignedAgentId⟩
    | none => store

def updateRunProjections (state : RunState) (store : ProjectionStore) (runId : Uuid)
    (runEvents : List EventEnvelope) : ProjectionStore :=
  let store := runEvents.foldl (projectEvent state runId) store
  if state.workspaceId.isNil then store
  else
    store.upsertRunProjection
      ⟨runId, state.workspaceId, state.status, state.totalCost, state.effortPoints,
        state.updatedAt⟩

/-- What one tick of a worker gets from outside: the iteration orders of the run map and of the item
maps, and the ids and times drawn for each run. -/
structure TickInput where
  config : LoopConfig
  appendMaxAttempts : Nat
  runOrder : List Uuid
  itemOrder : Uuid → List Uuid
  stamp : Uuid → Nat → Stamp

/-- One iteration over the runs, with its append and its projection writes. -/
def TickInput.visitRun (input : TickInput) (runStates : HashMap RunState) (db : Db)
    (runId : Uuid) : Db :=
  match runStates.lookup runId with
  | none => db
  | some state =>
    let (state, runEvents) :=
      input.config.advanceRun (input.stamp runId) (input.itemOrder runId) runId state
    if runEvents.isEmpty then db
    else
      match appendEventsWithRetry db.log runId runEvents (input.appendMaxAttempts - 1) with
      | .error _ => db
      | .ok log =>
        { log := log, store := updateRunProjections state db.store runId runEvents }

/-- One tick after `load_all` gave `events`, without other writers. -/
def TickInput.tick (input : TickInput) (events : List EventEnvelope) (db : Db) : Db :=
  input.runOrder.foldl (input.visitRun (runStatesFromEvents events)) db

/-! ### What an append with rebased revisions does -/

section rebase

variable {events : List EventEnvelope} {latest : Int}

theorem withRebasedRevisions_cons (e : EventEnvelope) :
    withRebasedRevisions (e :: events) latest =
      { e with revision := latest + 1 } :: withRebasedRevisions events (latest + 1) := by
  simp only [withRebasedRevisions, List.mapIdx_cons, Nat.cast_zero, add_zero, List.cons.injEq,
    true_and]
  congr 1
  funext index event
  simp only [Nat.cast_add, Nat.cast_one, EventEnvelope.mk.injEq, true_and, and_true]
  omega

theorem consecutive_withRebasedRevisions :
    Consecutive latest (withRebasedRevisions events latest) := by
  induction events generalizing latest with
  | nil => trivial
  | cons e events ih =>
    rw [withRebasedRevisions_cons]
    exact ⟨rfl, ih⟩

theorem map_withRebasedRevisions {α : Type} (f : EventEnvelope → α)
    (hf : ∀ (e : EventEnvelope) (revision : Int), f { e with revision := revision } = f e) :
    (withRebasedRevisions events latest).map f = events.map f := by
  induction events generalizing latest with
  | nil => rfl
  | cons e events ih => rw [withRebasedRevisions_cons, List.map_cons, hf, ih, List.map_cons]

end rebase

theorem GapFree.lastRevision_eq {log : EventLog} (h : GapFree log) (r : Uuid) :
    lastRevision (stream log r) = (stream log r).length := by
  have hcons := h r
  unfold lastRevision
  cases hs : stream log r using List.reverseRecOn with
  | nil => rfl
  | append_singleton events e =>
    rw [hs] at hcons
    obtain ⟨-, hlast, -⟩ := consecutive_append.mp hcons
    simp [hlast]

/-- The rows that an append of `base` to stream `r` adds. -/
def appendedRows (log : EventLog) (r : Uuid) (base : List EventEnvelope) : List EventEnvelope :=
  (withRebasedRevisions base (stream log r).length).map (bindTo r)

theorem GapFree.append_appendedRows {log : EventLog} (h : GapFree log) (r : Uuid)
    (base : List EventEnvelope) : GapFree (log ++ appendedRows log r base) := by
  intro r'
  rw [stream_append, appendedRows, stream_map_bindTo, consecutive_append]
  refine ⟨h r', ?_⟩
  split
  · subst r'
    rw [zero_add]
    exact consecutive_bindTo.mpr consecutive_withRebasedRevisions
  · trivial

/-- Trying again changes nothing when nobody else writes. -/
theorem appendEventsWithRetry_eq (log : EventLog) (r : Uuid) (base : List EventEnvelope)
    (retries : Nat) : appendEventsWithRetry log r base retries = appendAttempt log r base := by
  induction retries with
  | zero => rfl
  | succ retries ih =>
    rw [appendEventsWithRetry]
    cases h : appendAttempt log r base with
    | ok log' => rfl
    | error message => exact ih.trans h

/-- An append with rebased revisions adds the whole batch or nothing; it fails only on an unreadable
stream or on ids that exist already. -/
theorem GapFree.appendAttempt_eq_ok {log log' : EventLog} (h : GapFree log) {r : Uuid}
    {base : List EventEnvelope} :
    appendAttempt log r base = .ok log' ↔
      (∀ e ∈ stream log r, e.payload.costIsFinite = true) ∧
        log' = log ++ appendedRows log r base ∧ (base.map (·.id)).Nodup ∧
          ∀ e ∈ base, ∀ x ∈ log, x.id ≠ e.id := by
  unfold appendAttempt
  constructor
  · intro hok
    cases hload : load log r with
    | error message =>
      rw [hload] at hok
      cases hok
    | ok evs =>
      rw [hload] at hok
      obtain ⟨rfl, hfin⟩ := h.load_eq_ok.mp hload
      obtain ⟨hlog, -, hnodup, hfresh⟩ := append_eq_ok.mp hok
      rw [map_withRebasedRevisions _ fun _ _ => rfl] at hnodup
      rw [h.lastRevision_eq] at hlog hfresh
      refine ⟨hfin, hlog, hnodup, fun e he x hx heq => ?_⟩
      have hid : e.id ∈ (withRebasedRevisions base (stream log r).length).map (·.id) := by
        rw [map_withRebasedRevisions _ fun _ _ => rfl]
        exact List.mem_map_of_mem he
      obtain ⟨y, hy, hye⟩ := List.mem_map.mp hid
      exact hfresh y hy x hx (heq.trans hye.symm)
  · rintro ⟨hfin, rfl, hnodup, hfresh⟩
    rw [h.load_eq_ok.mpr ⟨rfl, hfin⟩]
    show append log r _ = _
    rw [h.lastRevision_eq, append_eq_ok, h.latestRevision_eq]
    refine ⟨rfl, consecutive_withRebasedRevisions, ?_, fun y hy x hx heq => ?_⟩
    · rwa [map_withRebasedRevisions _ fun _ _ => rfl]
    · have hid := List.mem_map_of_mem (f := (·.id)) hy
      rw [map_withRebasedRevisions _ fun _ _ => rfl] at hid
      obtain ⟨e, he, hey⟩ := List.mem_map.mp hid
      exact hfresh e he x hx (heq.trans hey.symm)

theorem payloads_appendedRows (log : EventLog) (r : Uuid) (base : List EventEnvelope) :
    payloads (appendedRows log r base) = payloads base := by
  unfold payloads appendedRows
  rw [List.map_map]
  exact map_withRebasedRevisions _ fun _ _ => rfl

end SamtaDashboard

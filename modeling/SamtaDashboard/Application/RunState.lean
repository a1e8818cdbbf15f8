import SamtaDashboard.Domain.Entities
import SamtaDashboard.Events.Writes

/-!
# `bin/worker.rs`: the worker's replay

`runStatesFromEvents` folds all events into one `RunState` for each run. The entry of a run is the
fold of `RunState.apply` over the events of that run (`lookup_runStatesFromEvents`). Each of its
fields is the last write of, or the total over, what the events write to it: the status
(`status_replayRun`), the status and the agent of an item (`lookup_items_replayRun`) and the totals.
-/

namespace SamtaDashboard

open EventFold

structure ItemState where
  status : ItemStatus
  assignedAgentId : Option Uuid
  deriving DecidableEq

structure RunState where
  workspaceId : Uuid
  status : String
  totalCost : F64
  effortPoints : Int
  latestRevision : Int
  updatedAt : Time
  items : HashMap ItemState

namespace RunState

def completedItemCount (state : RunState) : Nat :=
  state.items.values.countP (·.status = .completed)

def allItemsCompleted (state : RunState) : Bool :=
  !state.items.values.isEmpty && state.items.values.all (·.status = .completed)

/-- The entry that `or_insert_with` creates at a run's first event. -/
def initial (e : EventEnvelope) : RunState where
  workspaceId := Uuid.nil
  status := "pending"
  totalCost := .zero
  effortPoints := 0
  latestRevision := 0
  updatedAt := e.occurredAt
  items := ∅

/-- `item.status = status`, on an entry that starts as `ItemState::default()`. -/
def setStatus (state : RunState) (itemId : Uuid) (status : ItemStatus) : HashMap ItemState :=
  state.items.insert itemId ⟨status, (state.items.lookup itemId).bind (·.assignedAgentId)⟩

/-- The `match` of `run_states_from_events`. -/
def applyPayload (state : RunState) : EventPayload → RunState
  | .runStarted workspaceId _ => { state with workspaceId := workspaceId, status := "running" }
  | .workItemAssigned _ itemId agentId =>
    { state with items := state.items.insert itemId ⟨.assigned, some agentId⟩ }
  | .workItemStarted _ itemId agentId =>
    { state with items := state.items.insert itemId ⟨.running, some agentId⟩ }
  | .workItemCompleted _ itemId effort cost =>
    { state with
      items := state.setStatus itemId .completed
      totalCost := state.totalCost.add cost
      effortPoints := state.effortPoints + effort.val }
  | .workItemFailed _ itemId _ =>
    { state with items := state.setStatus itemId .failed, status := "blocked" }
  | .progressChunkEmitted _ _ effort cost =>
    { state with
      totalCost := state.totalCost.add cost
      effortPoints := state.effortPoints + effort.val }
  | .runStatusChanged _ status _ => { state with status := status }
  | .runCompleted .. => { state with status := "completed" }
  | .blockerEncountered .. => { state with status := "blocked" }
  | .workspaceCreated _ | .agentProfileCreated .. => state

/-- One iteration of `run_states_from_events` on the run's entry. -/
def apply (state : RunState) (e : EventEnvelope) : RunState :=
  { state with
    latestRevision := max state.latestRevision e.revision
    updatedAt := e.occurredAt }.applyPayload e.payload

end RunState

def runIdForEvent (e : EventEnvelope) : Option Uuid :=
  match e.payload with
  | .runStarted .. => some e.resourceId
  | payload => payload.runId?

/-- The entry of a run after one of its events. -/
def runEntry (e : EventEnvelope) (entry : Option RunState) : RunState :=
  (entry.getD (RunState.initial e)).apply e

def runStatesFromEvents (events : List EventEnvelope) : HashMap RunState :=
  events.foldl (applyAt runIdForEvent runEntry) ∅

/-- The events of one run, as the worker groups them. -/
def runEvents (events : List EventEnvelope) (runId : Uuid) : List EventEnvelope :=
  events.filter (runIdForEvent · = some runId)

/-- The replay of one run's events; there is no entry without an event. -/
def replayRun : List EventEnvelope → Option RunState
  | [] => none
  | e :: events => some (events.foldl RunState.apply ((RunState.initial e).apply e))

theorem lookup_runStatesFromEvents (events : List EventEnvelope) (runId : Uuid) :
    (runStatesFromEvents events).lookup runId = replayRun (runEvents events runId) := by
  have hsome : ∀ (evs : List EventEnvelope) (state : RunState),
      evs.foldl (fun entry e => some (runEntry e entry)) (some state) =
        some (evs.foldl RunState.apply state) := by
    intro evs
    induction evs with
    | nil => intro state; rfl
    | cons e evs ih => intro state; exact ih (state.apply e)
  rw [runStatesFromEvents, lookup_foldl_filter, AList.lookup_empty]
  show (runEvents events runId).foldl _ none = _
  cases runEvents events runId with
  | nil => rfl
  | cons e evs => exact hsome evs _

/-! ### What the replay computes -/

theorem filterMap_charge_payloads (events : List EventEnvelope) :
    events.filterMap (fun e => e.payload.charge?) =
      (payloads events).filterMap EventPayload.charge? := by
  rw [payloads, List.filterMap_map]
  rfl

namespace RunState

/-- The status of item `i`, if it has an entry. -/
def itemStatus (state : RunState) (i : Uuid) : Option ItemStatus :=
  (state.items.lookup i).map (·.status)

/-- The agent of item `i`, if it has an entry and an agent. -/
def itemAgent (state : RunState) (i : Uuid) : Option Uuid :=
  (state.items.lookup i).bind (·.assignedAgentId)

theorem lookup_items (state : RunState) (i : Uuid) :
    state.items.lookup i = (state.itemStatus i).map fun status => ⟨status, state.itemAgent i⟩ := by
  unfold itemStatus itemAgent
  cases state.items.lookup i <;> rfl

theorem lookup_setStatus (state : RunState) (itemId i : Uuid) (status : ItemStatus) :
    (state.setStatus itemId status).lookup i =
      if itemId = i then some ⟨status, state.itemAgent i⟩ else state.items.lookup i := by
  unfold setStatus
  by_cases h : itemId = i
  · subst h
    rw [if_pos rfl, AList.lookup_insert]
    rfl
  · rw [if_neg h, AList.lookup_insert_ne (Ne.symm h)]

theorem status_apply (state : RunState) (e : EventEnvelope) :
    (state.apply e).status = e.payload.workerStatus?.getD state.status := by
  unfold apply
  cases e.payload <;> rfl

theorem workspaceId_apply (state : RunState) (e : EventEnvelope) :
    (state.apply e).workspaceId = e.payload.workspace?.getD state.workspaceId := by
  unfold apply
  cases e.payload <;> rfl

theorem itemStatus_apply (state : RunState) (e : EventEnvelope) (i : Uuid) :
    (state.apply e).itemStatus i =
      ((e.payload.itemStatus? i).map some).getD (state.itemStatus i) := by
  unfold apply itemStatus
  cases e.payload with
  | workItemAssigned r j a | workItemStarted r j a =>
    by_cases h : j = i
    · subst h
      simp [applyPayload, EventPayload.itemStatus?]
    · simp [applyPayload, EventPayload.itemStatus?, h, AList.lookup_insert_ne (Ne.symm h)]
  | workItemCompleted r j f c | workItemFailed r j m =>
    by_cases h : j = i <;> simp [applyPayload, EventPayload.itemStatus?, lookup_setStatus, h]
  | _ => rfl

theorem itemAgent_apply (state : RunState) (e : EventEnvelope) (i : Uuid) :
    (state.apply e).itemAgent i =
      ((e.payload.itemAgent? i).map some).getD (state.itemAgent i) := by
  unfold apply itemAgent
  cases e.payload with
  | workItemAssigned r j a | workItemStarted r j a =>
    by_cases h : j = i
    · subst h
      simp [applyPayload, EventPayload.itemAgent?]
    · simp [applyPayload, EventPayload.itemAgent?, h, AList.lookup_insert_ne (Ne.symm h)]
  | workItemCompleted r j f c | workItemFailed r j m =>
    by_cases h : j = i <;>
      simp [applyPayload, EventPayload.itemAgent?, lookup_setStatus, h, itemAgent]
  | _ => rfl

theorem totalCost_apply (state : RunState) (e : EventEnvelope) :
    (state.apply e).totalCost =
      e.payload.charge?.elim state.totalCost fun charge => state.totalCost.add charge.2 := by
  unfold apply
  cases e.payload <;> rfl

theorem effortPoints_apply (state : RunState) (e : EventEnvelope) :
    (state.apply e).effortPoints =
      e.payload.charge?.elim state.effortPoints fun charge =>
        state.effortPoints + charge.1.val := by
  unfold apply
  cases e.payload <;> rfl

theorem latestRevision_apply (state : RunState) (e : EventEnvelope) :
    (state.apply e).latestRevision = max state.latestRevision e.revision := by
  unfold apply
  cases e.payload <;> rfl

section foldl

variable (events : List EventEnvelope) (state : RunState)

theorem status_foldl_apply : (events.foldl apply state).status =
    (lastWrite EventPayload.workerStatus? (payloads events)).getD state.status := by
  rw [foldl_register (g := RunState.status) status_apply,
    lastWrite_payloads EventPayload.workerStatus?]

theorem workspaceId_foldl_apply : (events.foldl apply state).workspaceId =
    (lastWrite EventPayload.workspace? (payloads events)).getD state.workspaceId := by
  rw [foldl_register (g := RunState.workspaceId) workspaceId_apply,
    lastWrite_payloads EventPayload.workspace?]

theorem itemStatus_foldl_apply (i : Uuid) : (events.foldl apply state).itemStatus i =
    (lastWrite (EventPayload.itemStatus? i) (payloads events)).or (state.itemStatus i) := by
  rw [foldl_register (g := (RunState.itemStatus · i)) fun s x => itemStatus_apply s x i,
    lastWrite_map, lastWrite_payloads (EventPayload.itemStatus? i)]
  cases lastWrite (EventPayload.itemStatus? i) _ <;> rfl

theorem itemAgent_foldl_apply (i : Uuid) : (events.foldl apply state).itemAgent i =
    (lastWrite (EventPayload.itemAgent? i) (payloads events)).or (state.itemAgent i) := by
  rw [foldl_register (g := (RunState.itemAgent · i)) fun s x => itemAgent_apply s x i,
    lastWrite_map, lastWrite_payloads (EventPayload.itemAgent? i)]
  cases lastWrite (EventPayload.itemAgent? i) _ <;> rfl

theorem totalCost_foldl_apply : (events.foldl apply state).totalCost =
    ((payloads events).filterMap EventPayload.charge?).foldl
      (fun cost charge => cost.add charge.2) state.totalCost := by
  rw [foldl_total (g := RunState.totalCost)
    (c := fun (cost : F64) (charge : I32 × F64) => cost.add charge.2)
    fun x _ s => totalCost_apply s x, filterMap_charge_payloads]

theorem effortPoints_foldl_apply : (events.foldl apply state).effortPoints =
    state.effortPoints + chargedEffort (payloads events) := by
  rw [foldl_total (g := RunState.effortPoints)
    (c := fun (effort : Int) (charge : I32 × F64) => effort + charge.1.val)
    fun x _ s => effortPoints_apply s x, filterMap_charge_payloads, foldl_effort, chargedEffort_eq_sum]

theorem latestRevision_foldl_apply : (events.foldl apply state).latestRevision =
    (events.map (·.revision)).foldl max state.latestRevision := by
  induction events generalizing state with
  | nil => rfl
  | cons e events ih => rw [List.foldl_cons, ih, latestRevision_apply, List.map_cons, List.foldl_cons]

end foldl

end RunState

theorem replayRun_eq_some {events : List EventEnvelope} {state : RunState}
    (h : replayRun events = some state) :
    ∃ e rest, events = e :: rest ∧ state = events.foldl RunState.apply (RunState.initial e) := by
  cases events with
  | nil => cases h
  | cons e rest => exact ⟨e, rest, rfl, by simpa [replayRun] using h.symm⟩

theorem replayRun_isSome {events : List EventEnvelope} :
    (replayRun events).isSome ↔ events ≠ [] := by
  cases events <;> simp [replayRun]

variable {events : List EventEnvelope} {state : RunState}

theorem replayRun_append (h : replayRun events = some state) (rows : List EventEnvelope) :
    replayRun (events ++ rows) = some (rows.foldl RunState.apply state) := by
  cases events with
  | nil => cases h
  | cons e rest =>
    obtain rfl := Option.some.inj h
    rw [List.cons_append, replayRun, List.foldl_append]

theorem status_replayRun (h : replayRun events = some state) :
    state.status = (lastWrite EventPayload.workerStatus? (payloads events)).getD "pending" := by
  obtain ⟨e, rest, -, rfl⟩ := replayRun_eq_some h
  exact RunState.status_foldl_apply ..

theorem workspaceId_replayRun (h : replayRun events = some state) :
    state.workspaceId =
      (lastWrite EventPayload.workspace? (payloads events)).getD Uuid.nil := by
  obtain ⟨e, rest, -, rfl⟩ := replayRun_eq_some h
  exact RunState.workspaceId_foldl_apply ..

theorem lastWrite_of_running (h : replayRun events = some state) (hrunning : state.status = "running") :
    lastWrite EventPayload.workerStatus? (payloads events) = some "running" := by
  have hstatus := status_replayRun h
  rw [hrunning] at hstatus
  cases hlast : lastWrite EventPayload.workerStatus? (payloads events) with
  | none => simp [hlast] at hstatus
  | some status => rw [hstatus, hlast, Option.getD_some]

theorem itemStatus_replayRun (h : replayRun events = some state) (i : Uuid) :
    state.itemStatus i = lastWrite (EventPayload.itemStatus? i) (payloads events) := by
  obtain ⟨e, rest, -, rfl⟩ := replayRun_eq_some h
  rw [RunState.itemStatus_foldl_apply]
  exact Option.or_none

theorem itemAgent_replayRun (h : replayRun events = some state) (i : Uuid) :
    state.itemAgent i = lastWrite (EventPayload.itemAgent? i) (payloads events) := by
  obtain ⟨e, rest, -, rfl⟩ := replayRun_eq_some h
  rw [RunState.itemAgent_foldl_apply]
  exact Option.or_none

theorem lookup_items_replayRun (h : replayRun events = some state) (i : Uuid) :
    state.items.lookup i =
      (lastWrite (EventPayload.itemStatus? i) (payloads events)).map fun status =>
        ⟨status, lastWrite (EventPayload.itemAgent? i) (payloads events)⟩ := by
  rw [state.lookup_items, itemStatus_replayRun h, itemAgent_replayRun h]

theorem totalCost_replayRun (h : replayRun events = some state) :
    state.totalCost = chargedCost (payloads events) := by
  obtain ⟨e, rest, -, rfl⟩ := replayRun_eq_some h
  exact RunState.totalCost_foldl_apply ..

theorem effortPoints_replayRun (h : replayRun events = some state) :
    state.effortPoints = chargedEffort (payloads events) := by
  obtain ⟨e, rest, -, rfl⟩ := replayRun_eq_some h
  rw [RunState.effortPoints_foldl_apply]
  exact Int.zero_add _

end SamtaDashboard

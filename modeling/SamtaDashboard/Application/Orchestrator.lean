import SamtaDashboard.Application.Planner
import SamtaDashboard.Application.Worker
import SamtaDashboard.Events.Writes
import SamtaDashboard.Infra.Persistence

/-!
# `application::orchestrator`

The control operations. Each loads a stream, decides what to append, reads the next revision and
appends; the decision is a function of the loaded events (`statusChange`, `retryPayloads`,
`startRunPayloads`), so that the concurrent model can take the same decision on an older load. The
ids and times drawn are an argument (`Draws`).
-/

namespace SamtaDashboard

open EventFold

/-- What the calls of `Uuid::new_v4` and `Utc::now` give back during one operation. -/
structure Draws where
  /-- the id of the workspace, the profile or the run -/
  resource : Uuid
  stamp : Nat → Stamp
  actor : Nat → Uuid
  item : Nat → Uuid
  agent : Nat → Uuid
  profile : Nat → Uuid
  /-- the assignee of an item without one -/
  standIn : Nat → Uuid

/-! ### `RunReplayState` -/

structure WorkItemReplayState where
  status : ItemStatus
  assignedAgentId : Option Uuid
  deriving DecidableEq

structure RunReplayState where
  status : String
  workItems : HashMap WorkItemReplayState

namespace RunReplayState

/-- `entry.status = status`, on an entry that starts without an agent. -/
def setStatus (state : RunReplayState) (itemId : Uuid) (status : ItemStatus) :
    HashMap WorkItemReplayState :=
  state.workItems.insert itemId
    ⟨status, (state.workItems.lookup itemId).bind (·.assignedAgentId)⟩

/-- One iteration of `from_events`. -/
def apply (state : RunReplayState) (e : EventEnvelope) : RunReplayState :=
  match e.payload with
  | .runStarted .. => { state with status := "running" }
  | .runStatusChanged _ status _ => { state with status := status }
  | .workItemAssigned _ itemId agentId =>
    { state with workItems := state.workItems.insert itemId ⟨.assigned, some agentId⟩ }
  | .workItemStarted _ itemId agentId =>
    { state with workItems := state.workItems.insert itemId ⟨.running, some agentId⟩ }
  | .workItemCompleted _ itemId .. => { state with workItems := state.setStatus itemId .completed }
  | .workItemFailed _ itemId _ => { state with workItems := state.setStatus itemId .failed }
  | .blockerEncountered _ itemId _ =>
    { state with workItems := state.setStatus itemId .blocked, status := "blocked" }
  | .runCompleted .. => { state with status := "completed" }
  | _ => state

/-- `RunReplayState::from_events`. -/
def fromEvents (events : List EventEnvelope) : RunReplayState :=
  events.foldl apply ⟨"pending", ∅⟩

end RunReplayState

/-! ### The operations -/

def newEvent (draws : Draws) (k : Nat) (resourceId : Uuid) (revision : Int)
    (payload : EventPayload) : EventEnvelope :=
  newEnvelope (draws.stamp k) (draws.actor k) resourceId revision payload

/-- A batch of `new_event`s with consecutive revisions. -/
def newEvents (draws : Draws) (resourceId : Uuid) (revision : Int) (payloads : List EventPayload) :
    List EventEnvelope :=
  payloads.mapIdx fun k payload => newEvent draws k resourceId (revision + k) payload

def nextRevision (log : EventLog) (resourceId : Uuid) : Except String Int := do
  let events ← load log resourceId
  return match events.getLast? with
    | some last => last.revision + 1
    | none => 1

/-- The end of every operation: read the next revision, make the events and append them. -/
def appendNext (draws : Draws) (log : EventLog) (resourceId : Uuid)
    (payloads : List EventPayload) : Except String EventLog := do
  let revision ← nextRevision log resourceId
  append log resourceId (newEvents draws resourceId revision payloads)

def createWorkspace (draws : Draws) (log : EventLog) (name : String) :
    Except String (Uuid × EventLog) := do
  let log' ← appendNext draws log draws.resource [.workspaceCreated name]
  return (draws.resource, log')

def createAgentProfile (draws : Draws) (log : EventLog) (name role : String) :
    Except String (Uuid × EventLog) := do
  let log' ← appendNext draws log draws.resource [.agentProfileCreated name role .zero]
  return (draws.resource, log')

def defaultAgents (draws : Draws) (requestedCount : Nat) : List AgentInstance :=
  (List.range (max requestedCount 1)).map fun k => ⟨draws.agent k, draws.profile k, "idle"⟩

/-- The work items that `start_run` assigns. -/
def plannedItems (draws : Draws) (objective : String)
    (targetItemCount agentCount : Option UInt16) : List WorkItem :=
  let targetItems := Planner.new.resolveTargetItemCount targetItemCount
  let requestedAgents := Planner.new.resolveAgentCount agentCount
  assignItems (draws.standIn 0)
    (Planner.new.decomposeObjectiveWithTarget draws.item draws.resource objective targetItems)
    (defaultAgents draws requestedAgents)

/-- The payloads of `start_run`. -/
def startRunPayloads (draws : Draws) (workspaceId : Uuid) (objective : String)
    (targetItemCount agentCount : Option UInt16) : List EventPayload :=
  .runStarted workspaceId objective ::
    (plannedItems draws objective targetItemCount agentCount).mapIdx fun k item =>
      .workItemAssigned draws.resource item.id (item.assignedAgentId.getD (draws.standIn k))

def startRun (draws : Draws) (log : EventLog) (workspaceId : Uuid) (objective : String)
    (targetItemCount agentCount : Option UInt16) : Except String (Uuid × EventLog) := do
  let log' ← appendNext draws log draws.resource
    (startRunPayloads draws workspaceId objective targetItemCount agentCount)
  return (draws.resource, log')

/-- What `change_status` decides to append on these events. -/
def statusChange (runId : Uuid) (status : String) (reason : Option String)
    (events : List EventEnvelope) : Option (List EventPayload) :=
  if (RunReplayState.fromEvents events).status = status then none
  else some [.runStatusChanged runId status reason]

/-- The items that `retry_run` reassigns, in the iteration order of the item map. -/
def retriedItems (order : List Uuid) (state : RunReplayState) : List (Uuid × Option Uuid) :=
  order.filterMap fun itemId =>
    match state.workItems.lookup itemId with
    | some item => if item.status = .completed then none else some (itemId, item.assignedAgentId)
    | none => none

/-- What `retry_run` decides to append on these events. -/
def retryPayloads (draws : Draws) (order : List Uuid) (runId : Uuid)
    (events : List EventEnvelope) : Option (List EventPayload) :=
  let runState := RunReplayState.fromEvents events
  if runState.status = "running" then none
  else if runState.status = "completed" then none
  else if (retriedItems order runState).isEmpty then none
  else some (.runStatusChanged runId "running" (some "manual retry") ::
    (retriedItems order runState).mapIdx fun k x =>
      .workItemAssigned runId x.1 (x.2.getD (draws.standIn k)))

/-- A control operation with this decision: load, decide, read the next revision, append. -/
def control (decide : List EventEnvelope → Option (List EventPayload)) (draws : Draws)
    (log : EventLog) (runId : Uuid) : Except String (Bool × EventLog) := do
  let events ← load log runId
  if events.isEmpty then throw s!"run {runId.toText} not found"
  match decide events with
  | none => return (false, log)
  | some payloads =>
    let log' ← appendNext draws log runId payloads
    return (true, log')

def changeStatus (draws : Draws) (log : EventLog) (runId : Uuid) (status : String)
    (reason : Option String) : Except String (Bool × EventLog) :=
  control (statusChange runId status reason) draws log runId

def pauseRun (draws : Draws) (log : EventLog) (runId : Uuid) : Except String (Bool × EventLog) :=
  changeStatus draws log runId "paused" (some "manual pause")

def resumeRun (draws : Draws) (log : EventLog) (runId : Uuid) : Except String (Bool × EventLog) :=
  changeStatus draws log runId "running" (some "manual resume")

def cancelRun (draws : Draws) (log : EventLog) (runId : Uuid) : Except String (Bool × EventLog) :=
  changeStatus draws log runId "cancelled" (some "manual cancel")

/-- `retry_run`; `order` is the iteration order of the item map. -/
def retryRun (draws : Draws) (order : List Uuid) (log : EventLog) (runId : Uuid) :
    Except String (Bool × EventLog) :=
  control (retryPayloads draws order runId) draws log runId

/-! ### What the replay computes -/

namespace RunReplayState

/-- The status of item `i`, if it has an entry. -/
def itemStatus (state : RunReplayState) (i : Uuid) : Option ItemStatus :=
  (state.workItems.lookup i).map (·.status)

/-- The agent of item `i`, if it has an entry and an agent. -/
def itemAgent (state : RunReplayState) (i : Uuid) : Option Uuid :=
  (state.workItems.lookup i).bind (·.assignedAgentId)

theorem lookup_workItems (state : RunReplayState) (i : Uuid) :
    state.workItems.lookup i =
      (state.itemStatus i).map fun status => ⟨status, state.itemAgent i⟩ := by
  unfold itemStatus itemAgent
  cases state.workItems.lookup i <;> rfl

theorem lookup_setStatus (state : RunReplayState) (itemId i : Uuid) (status : ItemStatus) :
    (state.setStatus itemId status).lookup i =
      if itemId = i then some ⟨status, state.itemAgent i⟩ else state.workItems.lookup i := by
  unfold setStatus
  by_cases h : itemId = i
  · subst h
    rw [if_pos rfl, AList.lookup_insert]
    rfl
  · rw [if_neg h, AList.lookup_insert_ne (Ne.symm h)]

theorem status_apply (state : RunReplayState) (e : EventEnvelope) :
    (state.apply e).status = e.payload.orchestratorStatus?.getD state.status := by
  unfold apply
  cases e.payload <;> rfl

theorem itemStatus_apply (state : RunReplayState) (e : EventEnvelope) (i : Uuid) :
    (state.apply e).itemStatus i =
      ((e.payload.blockableStatus? i).map some).getD (state.itemStatus i) := by
  unfold apply itemStatus
  cases e.payload with
  | workItemAssigned r j a | workItemStarted r j a =>
    by_cases h : j = i
    · subst h
      simp [EventPayload.blockableStatus?, EventPayload.itemStatus?]
    · simp [EventPayload.blockableStatus?, EventPayload.itemStatus?, h,
        AList.lookup_insert_ne (Ne.symm h)]
  | workItemCompleted r j f c | workItemFailed r j m | blockerEncountered r j m =>
    by_cases h : j = i <;>
      simp [EventPayload.blockableStatus?, EventPayload.itemStatus?, lookup_setStatus, h]
  | _ => rfl

theorem itemAgent_apply (state : RunReplayState) (e : EventEnvelope) (i : Uuid) :
    (state.apply e).itemAgent i =
      ((e.payload.itemAgent? i).map some).getD (state.itemAgent i) := by
  unfold apply itemAgent
  cases e.payload with
  | workItemAssigned r j a | workItemStarted r j a =>
    by_cases h : j = i
    · subst h
      simp [EventPayload.itemAgent?]
    · simp [EventPayload.itemAgent?, h, AList.lookup_insert_ne (Ne.symm h)]
  | workItemCompleted r j f c | workItemFailed r j m | blockerEncountered r j m =>
    by_cases h : j = i <;> simp [EventPayload.itemAgent?, lookup_setStatus, h, itemAgent]
  | _ => rfl

theorem status_fromEvents (events : List EventEnvelope) :
    (fromEvents events).status =
      (lastWrite EventPayload.orchestratorStatus? (payloads events)).getD "pending" := by
  rw [fromEvents, foldl_register (g := RunReplayState.status) status_apply,
    lastWrite_payloads EventPayload.orchestratorStatus?]

theorem itemStatus_fromEvents (events : List EventEnvelope) (i : Uuid) :
    (fromEvents events).itemStatus i =
      lastWrite (EventPayload.blockableStatus? i) (payloads events) := by
  rw [fromEvents, foldl_register (g := (RunReplayState.itemStatus · i))
    fun s e => itemStatus_apply s e i, lastWrite_map,
    lastWrite_payloads (EventPayload.blockableStatus? i)]
  cases lastWrite (EventPayload.blockableStatus? i) _ <;> rfl

theorem itemAgent_fromEvents (events : List EventEnvelope) (i : Uuid) :
    (fromEvents events).itemAgent i =
      lastWrite (EventPayload.itemAgent? i) (payloads events) := by
  rw [fromEvents, foldl_register (g := (RunReplayState.itemAgent · i))
    fun s e => itemAgent_apply s e i, lastWrite_map, lastWrite_payloads (EventPayload.itemAgent? i)]
  cases lastWrite (EventPayload.itemAgent? i) _ <;> rfl

theorem lookup_fromEvents (events : List EventEnvelope) (i : Uuid) :
    (fromEvents events).workItems.lookup i =
      (lastWrite (EventPayload.blockableStatus? i) (payloads events)).map fun status =>
        ⟨status, lastWrite (EventPayload.itemAgent? i) (payloads events)⟩ := by
  rw [lookup_workItems, itemStatus_fromEvents, itemAgent_fromEvents]

end RunReplayState

/-! ### What an operation decides -/

/-- The items of a new run with their agents. -/
def plannedAssignments (draws : Draws) (objective : String)
    (targetItemCount agentCount : Option UInt16) : Assignments :=
  (plannedItems draws objective targetItemCount agentCount).mapIdx fun k item =>
    (item.id, item.assignedAgentId.getD (draws.standIn k))

theorem startRunPayloads_eq (draws : Draws) (workspaceId : Uuid) (objective : String)
    (targetItemCount agentCount : Option UInt16) :
    startRunPayloads draws workspaceId objective targetItemCount agentCount =
      .runStarted workspaceId objective ::
        (plannedAssignments draws objective targetItemCount agentCount).payloads draws.resource := by
  unfold startRunPayloads plannedAssignments Assignments.payloads
  congr 1
  apply List.ext_getElem <;> simp

theorem plannedAssignments_ne_nil (draws : Draws) (objective : String)
    (targetItemCount agentCount : Option UInt16) :
    plannedAssignments draws objective targetItemCount agentCount ≠ [] := by
  have hpos := length_decompose_pos draws.item draws.resource objective
    (Planner.new.resolveTargetItemCount targetItemCount)
  intro hnil
  have hlength := congrArg List.length hnil
  rw [plannedAssignments, List.length_mapIdx, plannedItems, ← List.length_map (f := WorkItem.id),
    map_id_assignItems, List.length_map] at hlength
  exact absurd hlength (Nat.ne_of_gt hpos)

theorem mem_plannedAssignments {draws : Draws} {objective : String}
    {targetItemCount agentCount : Option UInt16} {x : Uuid × Uuid}
    (hx : x ∈ plannedAssignments draws objective targetItemCount agentCount) :
    ∃ agent ∈ defaultAgents draws (Planner.new.resolveAgentCount agentCount), x.2 = agent.id := by
  obtain ⟨k, hk, rfl⟩ := List.mem_mapIdx.mp hx
  have hitem := List.getElem_mem hk
  simp only [plannedItems] at hitem
  obtain ⟨agent, hagent, hassigned⟩ :=
    assignedAgentId_of_mem_assignItems (List.ne_nil_of_length_pos (by simp [defaultAgents])) hitem
  exact ⟨agent, hagent, by simp only [plannedItems, hassigned, Option.getD_some]⟩

section retry

variable {draws : Draws} {order : List Uuid} {r : Uuid}

theorem map_fst_retriedItems (order : List Uuid) (state : RunReplayState) :
    (retriedItems order state).map (·.1) =
      order.filter fun i => (state.workItems.lookup i).any (·.status ≠ .completed) := by
  induction order with
  | nil => rfl
  | cons i order ih =>
    rw [retriedItems] at ih ⊢
    rw [List.filterMap_cons, List.filter_cons]
    cases hitem : state.workItems.lookup i with
    | none => simpa using ih
    | some item => by_cases hdone : item.status = .completed <;> simp [hdone, ih]

theorem mem_map_fst_retriedItems {state : RunReplayState}
    (horder : state.workItems.IsOrder order) {i : Uuid} :
    i ∈ (retriedItems order state).map (·.1) ↔
      ∃ item, state.workItems.lookup i = some item ∧ item.status ≠ .completed := by
  rw [map_fst_retriedItems, List.mem_filter, horder.2, ← AList.lookup_isSome]
  cases state.workItems.lookup i <;> simp

theorem agent_of_mem_retriedItems {state : RunReplayState} {x : Uuid × Option Uuid}
    (h : x ∈ retriedItems order state) : state.itemAgent x.1 = x.2 := by
  obtain ⟨i, -, hi⟩ := List.mem_filterMap.mp h
  split at hi
  · next item hitem =>
    split at hi
    · cases hi
    · obtain rfl := Option.some.inj hi
      rw [RunReplayState.itemAgent, hitem, Option.bind_some]
  · cases hi

/-- The new assignments of a retry. -/
def retryAssignments (draws : Draws) (order : List Uuid) (events : List EventEnvelope) :
    Assignments :=
  (retriedItems order (RunReplayState.fromEvents events)).mapIdx fun k x =>
    (x.1, x.2.getD (draws.standIn k))

theorem map_fst_retryAssignments (events : List EventEnvelope) :
    (retryAssignments draws order events).map (·.1) =
      (retriedItems order (RunReplayState.fromEvents events)).map (·.1) := by
  unfold retryAssignments
  apply List.ext_getElem <;> simp

theorem mem_retryAssignments {events : List EventEnvelope} {i agentId a : Uuid}
    (h : (i, agentId) ∈ retryAssignments draws order events)
    (hagent : (RunReplayState.fromEvents events).itemAgent i = some a) : agentId = a := by
  obtain ⟨k, hk, heq⟩ := List.mem_mapIdx.mp h
  obtain ⟨rfl, rfl⟩ := Prod.mk.inj heq
  rw [agent_of_mem_retriedItems (List.getElem_mem hk)] at hagent
  rw [hagent, Option.getD_some]

theorem retryPayloads_eq_some {events : List EventEnvelope} {ps : List EventPayload} :
    retryPayloads draws order r events = some ps ↔
      (RunReplayState.fromEvents events).status ≠ "running" ∧
        (RunReplayState.fromEvents events).status ≠ "completed" ∧
        retriedItems order (RunReplayState.fromEvents events) ≠ [] ∧
        ps = .runStatusChanged r "running" (some "manual retry") ::
          (retryAssignments draws order events).payloads r := by
  have hpayloads : (retryAssignments draws order events).payloads r =
      (retriedItems order (RunReplayState.fromEvents events)).mapIdx fun k x =>
        .workItemAssigned r x.1 (x.2.getD (draws.standIn k)) := by
    unfold Assignments.payloads retryAssignments
    apply List.ext_getElem <;> simp
  simp only [retryPayloads, hpayloads]
  split
  · next h => simp [h]
  · next hrunning =>
    split
    · next h => simp [h]
    · next hcompleted =>
      split
      · next h => simp [List.isEmpty_iff.mp h]
      · next h =>
        rw [List.isEmpty_iff] at h
        simp only [Option.some.injEq, ne_eq, hrunning, hcompleted, h, not_false_eq_true, true_and]
        exact eq_comm

end retry

/-! ### What an operation appends -/

theorem payloads_newEvents (draws : Draws) (r : Uuid) (revision : Int) (ps : List EventPayload) :
    payloads (newEvents draws r revision ps) = ps := by
  unfold payloads newEvents
  apply List.ext_getElem <;> simp [newEvent, newEnvelope]

theorem map_id_newEvents (draws : Draws) (r : Uuid) (revision : Int) (ps : List EventPayload) :
    (newEvents draws r revision ps).map (·.id) =
      (List.range ps.length).map fun k => (draws.stamp k).id := by
  unfold newEvents
  apply List.ext_getElem <;> simp [newEvent, newEnvelope]

theorem resourceId_newEvents {draws : Draws} {r : Uuid} {revision : Int} {ps : List EventPayload}
    {e : EventEnvelope} (h : e ∈ newEvents draws r revision ps) : e.resourceId = r := by
  obtain ⟨k, hk, rfl⟩ := List.mem_mapIdx.mp h
  rfl

theorem consecutive_newEvents (draws : Draws) (r : Uuid) (n : Int) (ps : List EventPayload) :
    Consecutive n (newEvents draws r (n + 1) ps) := by
  induction ps using List.reverseRecOn with
  | nil => trivial
  | append_singleton ps p ih =>
    rw [newEvents, List.mapIdx_concat, consecutive_append]
    refine ⟨ih, ?_, trivial⟩
    simp only [newEvent, newEnvelope, List.length_mapIdx]
    omega

theorem map_bindTo_newEvents (draws : Draws) (r : Uuid) (revision : Int) (ps : List EventPayload) :
    (newEvents draws r revision ps).map (bindTo r) = newEvents draws r revision ps := by
  conv_rhs => rw [← List.map_id (newEvents draws r revision ps)]
  refine List.map_congr_left fun e he => ?_
  have hres := resourceId_newEvents he
  cases e
  cases hres
  rfl

/-- The ids that a batch of `n` events draws are new to the log. -/
def Draws.FreshIn (draws : Draws) (log : EventLog) (n : Nat) : Prop :=
  ((List.range n).map fun k => (draws.stamp k).id).Nodup ∧
    ∀ k < n, ∀ x ∈ log, x.id ≠ (draws.stamp k).id

/-- The run id and the item ids drawn by `start_run` are new to the log. -/
def Draws.NewRun (draws : Draws) (log : EventLog) : Prop :=
  stream log draws.resource = [] ∧ ∀ k, ∀ e ∈ log, e.payload.itemId? ≠ some (draws.item k)

theorem GapFree.nextRevision_eq_ok {log : EventLog} (h : GapFree log) {r : Uuid} {n : Int} :
    nextRevision log r = .ok n ↔
      n = (stream log r).length + 1 ∧ ∀ e ∈ stream log r, e.payload.costIsFinite = true := by
  unfold nextRevision
  have hlast : ∀ evs : List EventEnvelope, Consecutive 0 evs →
      (match evs.getLast? with | some last => last.revision + 1 | none => 1) =
        (evs.length : Int) + 1 := by
    intro evs hevs
    cases evs using List.reverseRecOn with
    | nil => rfl
    | append_singleton evs e =>
      obtain ⟨-, he, -⟩ := consecutive_append.mp hevs
      simp only [List.getLast?_append, List.getLast?_singleton, Option.some_or, he,
        List.length_append, List.length_singleton, Nat.cast_add, Nat.cast_one]
      omega
  cases hload : load log r with
  | error message =>
    have hbad : ¬ ∀ e ∈ stream log r, e.payload.costIsFinite = true := fun hall => by
      rw [h.load_eq_ok.mpr ⟨rfl, hall⟩] at hload
      cases hload
    simp only [bind, Except.bind, reduceCtorEq, hbad, and_false]
  | ok evs =>
    obtain ⟨rfl, hfin⟩ := h.load_eq_ok.mp hload
    simp only [bind, Except.bind, pure, Except.pure, Except.ok.injEq, hlast _ (h r)]
    exact ⟨fun hn => ⟨hn.symm, hfin⟩, fun hn => hn.1.symm⟩

theorem GapFree.append_newEvents_eq_ok {log log' : EventLog} (h : GapFree log) {r : Uuid}
    {draws : Draws} {ps : List EventPayload} :
    append log r (newEvents draws r ((stream log r).length + 1) ps) = .ok log' ↔
      log' = log ++ newEvents draws r ((stream log r).length + 1) ps ∧
        draws.FreshIn log ps.length := by
  rw [append_eq_ok, map_bindTo_newEvents, h.latestRevision_eq, map_id_newEvents]
  have hmem : (∀ e ∈ newEvents draws r ((stream log r).length + 1) ps, ∀ x ∈ log, x.id ≠ e.id) ↔
      ∀ k < ps.length, ∀ x ∈ log, x.id ≠ (draws.stamp k).id := by
    have hids := map_id_newEvents draws r ((stream log r).length + 1) ps
    constructor
    · intro hall k hk x hx heq
      have hk' : (draws.stamp k).id ∈
          (newEvents draws r ((stream log r).length + 1) ps).map (·.id) := by
        rw [hids]
        exact List.mem_map.mpr ⟨k, List.mem_range.mpr hk, rfl⟩
      obtain ⟨e, he, hek⟩ := List.mem_map.mp hk'
      exact hall e he x hx (heq.trans hek.symm)
    · intro hall e he x hx heq
      have he' := List.mem_map_of_mem (f := (·.id)) he
      rw [hids] at he'
      obtain ⟨k, hk, hke⟩ := List.mem_map.mp he'
      exact hall k (List.mem_range.mp hk) x hx (heq.trans hke.symm)
  rw [hmem]
  exact and_congr_right fun _ => and_iff_right (consecutive_newEvents draws r _ ps)

theorem GapFree.appendNext_eq_ok {log log' : EventLog} (h : GapFree log) {r : Uuid}
    {draws : Draws} {ps : List EventPayload} :
    appendNext draws log r ps = .ok log' ↔
      (∀ e ∈ stream log r, e.payload.costIsFinite = true) ∧ draws.FreshIn log ps.length ∧
        log' = log ++ newEvents draws r ((stream log r).length + 1) ps := by
  unfold appendNext
  cases hnext : nextRevision log r with
  | error message =>
    have hbad : ¬ ∀ e ∈ stream log r, e.payload.costIsFinite = true := fun hall => by
      rw [h.nextRevision_eq_ok.mpr ⟨rfl, hall⟩] at hnext
      cases hnext
    simp only [bind, Except.bind, reduceCtorEq, hbad, false_and]
  | ok revision =>
    obtain ⟨rfl, hfin⟩ := h.nextRevision_eq_ok.mp hnext
    show append log r _ = _ ↔ _
    rw [h.append_newEvents_eq_ok, and_iff_right hfin]
    exact and_comm

theorem startRun_eq_ok {log log' : EventLog} {draws : Draws} {workspaceId id : Uuid}
    {objective : String} {targetItemCount agentCount : Option UInt16} :
    startRun draws log workspaceId objective targetItemCount agentCount = .ok (id, log') ↔
      id = draws.resource ∧ appendNext draws log draws.resource
        (startRunPayloads draws workspaceId objective targetItemCount agentCount) = .ok log' := by
  unfold startRun
  cases appendNext draws log draws.resource
      (startRunPayloads draws workspaceId objective targetItemCount agentCount) with
  | error message => simp [bind, Except.bind]
  | ok log'' =>
    simp only [bind, Except.bind, pure, Except.pure, Except.ok.injEq, Prod.mk.injEq]
    exact and_congr_left' eq_comm

theorem GapFree.control_eq_ok {log log' : EventLog} (h : GapFree log) {r : Uuid} {draws : Draws}
    {decide : List EventEnvelope → Option (List EventPayload)} {changed : Bool} :
    control decide draws log r = .ok (changed, log') ↔
      (∀ e ∈ stream log r, e.payload.costIsFinite = true) ∧ stream log r ≠ [] ∧
        match decide (stream log r) with
        | none => changed = false ∧ log' = log
        | some ps => changed = true ∧ draws.FreshIn log ps.length ∧
          log' = log ++ newEvents draws r ((stream log r).length + 1) ps := by
  unfold control
  cases hload : load log r with
  | error message =>
    have hbad : ¬ ∀ e ∈ stream log r, e.payload.costIsFinite = true := fun hall => by
      rw [h.load_eq_ok.mpr ⟨rfl, hall⟩] at hload
      cases hload
    simp only [bind, Except.bind, reduceCtorEq, hbad, false_and]
  | ok evs =>
    obtain ⟨rfl, hfin⟩ := h.load_eq_ok.mp hload
    by_cases hempty : stream log r = []
    · simp [hempty, bind, Except.bind, throw, throwThe, MonadExceptOf.throw]
    · simp only [bind, Except.bind, List.isEmpty_iff, hempty, if_false, pure, Except.pure, ne_eq,
        not_false_eq_true, true_and, and_iff_right hfin]
      cases decide (stream log r) with
      | none =>
        simp only [Except.ok.injEq, Prod.mk.injEq]
        exact and_congr eq_comm eq_comm
      | some ps =>
        dsimp only
        have hspec : ∀ log'', appendNext draws log r ps = .ok log'' ↔
            (∀ e ∈ stream log r, e.payload.costIsFinite = true) ∧ draws.FreshIn log ps.length ∧
              log'' = log ++ newEvents draws r ((stream log r).length + 1) ps :=
          fun _ => h.appendNext_eq_ok
        cases happ : appendNext draws log r ps with
        | error message =>
          simp only [reduceCtorEq, false_iff, not_and]
          rintro - hfresh rfl
          rw [(hspec _).mpr ⟨hfin, hfresh, rfl⟩] at happ
          cases happ
        | ok log'' =>
          obtain ⟨-, hfresh, rfl⟩ := (hspec _).mp happ
          simp only [Except.ok.injEq, Prod.mk.injEq, hfresh, true_and]
          exact and_congr eq_comm eq_comm

end SamtaDashboard

import SamtaDashboard.Application.RunState
import SamtaDashboard.Infra.Replay

/-!
# What the rebuild computes

Both maps of `rebuild_projections` are keyed folds: the row of a run is a fold over the events of
that run (`lookup_runStates`) and the row of an item is a fold over the events that name it. Status,
totals and agents of the rows are then last writes and totals over these events. At the end, the
tables that the rebuild leaves hold exactly these rows (`Rebuilds.runs`, `Rebuilds.items`).
-/

namespace SamtaDashboard

open EventFold

namespace RebuildState

/-! ### Run rows -/

/-- The row of the event's run after the event. -/
def runRow (e : EventEnvelope) (entry : Option AgentRunProjection) : AgentRunProjection :=
  match e.payload with
  | .runStarted workspaceId _ =>
    ⟨e.resourceId, workspaceId, "running", .zero, 0, e.occurredAt⟩
  | payload =>
    let row := entry.getD (newRun (payload.runId?.getD Uuid.nil) "running" e.occurredAt)
    { row with
      status := payload.rebuildStatus?.getD row.status
      totalCost := payload.charge?.elim row.totalCost fun charge => row.totalCost.add charge.2
      effortPoints := payload.charge?.elim row.effortPoints fun charge =>
        row.effortPoints + charge.1.val
      updatedAt := payload.rebuildStatus?.elim row.updatedAt fun _ => e.occurredAt }

theorem runStates_apply (state : RebuildState) (e : EventEnvelope) :
    (state.apply e).runStates = applyAt runIdForEvent runRow state.runStates e := by
  unfold apply applyAt runIdForEvent
  cases hp : e.payload with
  | runStarted workspaceId objective => simp [runRow, hp]
  | runStatusChanged runId status reason | runCompleted runId summary =>
    cases h : state.runStates.lookup runId <;>
      simp [runRow, hp, withRun, h, newRun, EventPayload.runId?, EventPayload.rebuildStatus?,
        EventPayload.workerStatus?, EventPayload.orchestratorStatus?, EventPayload.charge?]
  | workItemAssigned runId itemId agentId | workItemStarted runId itemId agentId =>
    cases h : state.runStates.lookup runId <;>
      simp [runRow, hp, withRun, h, newRun, EventPayload.runId?, EventPayload.rebuildStatus?,
        EventPayload.workerStatus?, EventPayload.orchestratorStatus?, EventPayload.charge?]
  | workItemCompleted runId itemId effort cost | progressChunkEmitted runId itemId effort cost =>
    cases h : state.runStates.lookup runId <;>
      simp [runRow, hp, withRun, h, newRun, EventPayload.runId?, EventPayload.rebuildStatus?,
        EventPayload.charge?]
  | workItemFailed runId itemId reason | blockerEncountered runId itemId reason =>
    cases h : state.runStates.lookup runId <;>
      simp [runRow, hp, withRun, h, newRun, EventPayload.runId?, EventPayload.rebuildStatus?,
        EventPayload.workerStatus?, EventPayload.orchestratorStatus?, EventPayload.charge?]
  | workspaceCreated name | agentProfileCreated name role costCap => rfl

theorem runStates_foldl (state : RebuildState) (events : List EventEnvelope) :
    (events.foldl apply state).runStates =
      events.foldl (applyAt runIdForEvent runRow) state.runStates := by
  induction events generalizing state with
  | nil => rfl
  | cons e events ih => rw [List.foldl_cons, ih, runStates_apply, List.foldl_cons]

theorem lookup_runStates (events : List EventEnvelope) (runId : Uuid) :
    (fromEvents events).runStates.lookup runId =
      (runEvents events runId).foldl (fun entry e => some (runRow e entry)) none := by
  rw [fromEvents, runStates_foldl, lookup_foldl_filter, AList.lookup_empty]
  rfl

/-- The row that a stream leaves which begins with `started`. -/
def rowAfter (started : EventEnvelope) (rest : List EventEnvelope) : AgentRunProjection :=
  rest.foldl (fun row e => runRow e (some row)) (runRow started none)

theorem lookup_runStates_cons {events rest : List EventEnvelope} {started : EventEnvelope}
    {runId : Uuid} (h : runEvents events runId = started :: rest) :
    (fromEvents events).runStates.lookup runId = some (rowAfter started rest) := by
  have hsome : ∀ (evs : List EventEnvelope) (row : AgentRunProjection),
      evs.foldl (fun entry e => some (runRow e entry)) (some row) =
        some (evs.foldl (fun row e => runRow e (some row)) row) := by
    intro evs
    induction evs with
    | nil => intro row; rfl
    | cons e evs ih => intro row; exact ih _
  rw [lookup_runStates, h]
  exact hsome rest _

theorem status_runRow (row : AgentRunProjection) (e : EventEnvelope) :
    (runRow e (some row)).status = e.payload.rebuildStatus?.getD row.status := by
  unfold runRow
  cases e.payload <;> rfl

theorem status_rowAfter {started : EventEnvelope} {workspaceId : Uuid} {objective : String}
    (h : started.payload = .runStarted workspaceId objective) (rest : List EventEnvelope) :
    (rowAfter started rest).status =
      (lastWrite EventPayload.rebuildStatus? (payloads (started :: rest))).getD "pending" := by
  rw [rowAfter, foldl_register (g := AgentRunProjection.status) status_runRow,
    lastWrite_payloads EventPayload.rebuildStatus?, payloads_cons, lastWrite_cons, h]
  cases lastWrite EventPayload.rebuildStatus? (payloads rest) with
  | some status => rfl
  | none => simp [runRow, h, EventPayload.rebuildStatus?, EventPayload.workerStatus?,
      EventPayload.orchestratorStatus?]

section totals

variable {started : EventEnvelope} {rest : List EventEnvelope}

/-- Only a second `RunStarted` would reset the totals. -/
theorem totalCost_rowAfter (hstarted : ∃ w o, started.payload = .runStarted w o)
    (hrest : ∀ e ∈ rest, ∀ w o, e.payload ≠ .runStarted w o) :
    (rowAfter started rest).totalCost = chargedCost (payloads (started :: rest)) := by
  obtain ⟨w, o, h⟩ := hstarted
  rw [rowAfter, foldl_total (g := AgentRunProjection.totalCost)
    (a := fun e => e.payload.charge?) (c := fun (cost : F64) (charge : I32 × F64) => cost.add charge.2),
    filterMap_charge_payloads, payloads_cons, h]
  · simp only [runRow, h]
    rfl
  · intro e he row
    have hne := hrest e he
    unfold runRow
    cases hp : e.payload <;> simp_all [EventPayload.charge?]

theorem effortPoints_rowAfter (hstarted : ∃ w o, started.payload = .runStarted w o)
    (hrest : ∀ e ∈ rest, ∀ w o, e.payload ≠ .runStarted w o) :
    (rowAfter started rest).effortPoints = chargedEffort (payloads (started :: rest)) := by
  obtain ⟨w, o, h⟩ := hstarted
  rw [rowAfter, foldl_total (g := AgentRunProjection.effortPoints)
    (a := fun e => e.payload.charge?) (c := fun (effort : Int) (charge : I32 × F64) => effort + charge.1.val),
    filterMap_charge_payloads, payloads_cons, h]
  · simp only [runRow, h]
    rfl
  · intro e he row
    have hne := hrest e he
    unfold runRow
    cases hp : e.payload <;> simp_all [EventPayload.charge?]

end totals

theorem runId_runRow {e : EventEnvelope} {r : Uuid} (he : runIdForEvent e = some r)
    {entry : Option AgentRunProjection} (hentry : ∀ row ∈ entry, row.runId = r) :
    (runRow e entry).runId = r := by
  unfold runIdForEvent at he
  unfold runRow
  cases hp : e.payload <;> rw [hp] at he <;> cases entry <;>
    simp_all [newRun, EventPayload.runId?]

theorem runId_of_lookup {events : List EventEnvelope} {r : Uuid} {row : AgentRunProjection}
    (h : (fromEvents events).runStates.lookup r = some row) : row.runId = r := by
  have hall : ∀ evs : List EventEnvelope, (∀ e ∈ evs, runIdForEvent e = some r) →
      ∀ entry : Option AgentRunProjection, (∀ row ∈ entry, row.runId = r) →
        ∀ row ∈ evs.foldl (fun entry e => some (runRow e entry)) entry, row.runId = r := by
    intro evs
    induction evs with
    | nil => exact fun _ entry hentry => hentry
    | cons e evs ih =>
      intro hevs entry hentry
      refine ih (fun x hx => hevs x (List.mem_cons_of_mem _ hx)) _ fun row hrow => ?_
      obtain rfl := Option.some.inj hrow
      exact runId_runRow (hevs e List.mem_cons_self) hentry
  rw [lookup_runStates] at h
  refine hall (runEvents events r) (fun e he => ?_) none (by simp) row h
  simpa [runEvents] using (List.mem_filter.mp he).2

/-! ### Item rows -/

/-- The item whose row an event touches. -/
def itemKey (e : EventEnvelope) : Option Uuid :=
  match e.payload with
  | .progressChunkEmitted .. => none
  | payload => payload.itemId?

/-- The row of the event's item after the event. -/
def itemRow (e : EventEnvelope) (entry : Option WorkItemProjection) : WorkItemProjection :=
  let itemId := e.payload.itemId?.getD Uuid.nil
  let row := entry.getD ⟨itemId, e.payload.runId?.getD Uuid.nil, .assigned, none⟩
  { row with
    status := (e.payload.blockableStatus? itemId).getD row.status
    assignedAgentId := (e.payload.assignee? itemId).elim row.assignedAgentId some }

theorem itemStates_apply (state : RebuildState) (e : EventEnvelope) :
    (state.apply e).itemStates = applyAt itemKey itemRow state.itemStates e := by
  unfold apply applyAt itemKey
  cases hp : e.payload with
  | workItemAssigned runId itemId agentId =>
    cases h : state.itemStates.lookup itemId <;>
      simp [itemRow, hp, h, EventPayload.itemId?, EventPayload.runId?,
        EventPayload.blockableStatus?, EventPayload.itemStatus?, EventPayload.assignee?]
  | workItemStarted runId itemId agentId =>
    cases h : state.itemStates.lookup itemId <;>
      simp [itemRow, hp, withItem, h, EventPayload.itemId?, EventPayload.runId?,
        EventPayload.blockableStatus?, EventPayload.itemStatus?, EventPayload.assignee?]
  | workItemCompleted runId itemId effort cost =>
    cases h : state.itemStates.lookup itemId <;>
      simp [itemRow, hp, withItem, h, EventPayload.itemId?, EventPayload.runId?,
        EventPayload.blockableStatus?, EventPayload.itemStatus?, EventPayload.assignee?]
  | workItemFailed runId itemId reason | blockerEncountered runId itemId reason =>
    cases h : state.itemStates.lookup itemId <;>
      simp [itemRow, hp, withItem, h, EventPayload.itemId?, EventPayload.runId?,
        EventPayload.blockableStatus?, EventPayload.itemStatus?, EventPayload.assignee?]
  | _ => rfl

theorem itemStates_foldl (state : RebuildState) (events : List EventEnvelope) :
    (events.foldl apply state).itemStates =
      events.foldl (applyAt itemKey itemRow) state.itemStates := by
  induction events generalizing state with
  | nil => rfl
  | cons e events ih => rw [List.foldl_cons, ih, itemStates_apply, List.foldl_cons]

theorem itemKey_eq_some {e : EventEnvelope} {i : Uuid} :
    itemKey e = some i ↔ e.payload.blockableStatus? i ≠ none := by
  unfold itemKey
  cases e.payload <;>
    simp [EventPayload.itemId?, EventPayload.blockableStatus?, EventPayload.itemStatus?]

/-- The entry of item `i` after some events. -/
def itemEntry (i : Uuid) (events : List EventEnvelope) : Option WorkItemProjection :=
  events.foldl (stepAt itemKey itemRow i) none

theorem lookup_itemStates (events : List EventEnvelope) (i : Uuid) :
    (fromEvents events).itemStates.lookup i = itemEntry i events := by
  rw [fromEvents, itemStates_foldl, lookup_foldl_applyAt, AList.lookup_empty]
  rfl

theorem status_stepAt (i : Uuid) (entry : Option WorkItemProjection) (e : EventEnvelope) :
    (stepAt itemKey itemRow i entry e).map (·.status) =
      ((e.payload.blockableStatus? i).map some).getD (entry.map (·.status)) := by
  unfold stepAt
  split
  · next h =>
    have hwrite := itemKey_eq_some.mp h
    rw [Option.map_some, itemRow, EventPayload.itemId?_of_blockableStatus? hwrite]
    obtain ⟨status, hstatus⟩ := Option.ne_none_iff_exists'.mp hwrite
    simp [hstatus]
  · next h =>
    rw [not_ne_iff.mp (itemKey_eq_some.not.mp h)]
    rfl

theorem agent_stepAt (i : Uuid) (entry : Option WorkItemProjection) (e : EventEnvelope) :
    (stepAt itemKey itemRow i entry e).bind (·.assignedAgentId) =
      ((e.payload.assignee? i).map some).getD (entry.bind (·.assignedAgentId)) := by
  unfold stepAt
  split
  · next h =>
    have hitem := EventPayload.itemId?_of_blockableStatus? (itemKey_eq_some.mp h)
    simp only [itemRow, hitem, Option.bind_some, Option.getD_some]
    cases e.payload.assignee? i <;> cases entry <;> rfl
  · next h =>
    have hnone : e.payload.assignee? i = none := by
      by_contra hne
      refine h (itemKey_eq_some.mpr ?_)
      cases hp : e.payload <;>
        simp_all [EventPayload.assignee?, EventPayload.blockableStatus?, EventPayload.itemStatus?]
    rw [hnone]
    rfl

theorem keys_itemEntry {events : List EventEnvelope} {i : Uuid} {row : WorkItemProjection}
    (hrow : itemEntry i events = some row) :
    row.itemId = i ∧ ∀ r, (∀ p ∈ payloads events, p.itemId? = some i → p.runId? = some r) →
      row.runId = r := by
  induction events using List.reverseRecOn generalizing row with
  | nil => cases hrow
  | append_singleton events e ih =>
    simp only [payloads_append, List.forall_mem_append]
    rw [itemEntry, List.foldl_append, List.foldl_cons, List.foldl_nil, stepAt] at hrow
    split at hrow
    · next hkey =>
      have hitem := EventPayload.itemId?_of_blockableStatus? (itemKey_eq_some.mp hkey)
      obtain rfl := Option.some.inj hrow
      cases hentry : itemEntry i events with
      | none =>
        rw [itemEntry] at hentry
        simp only [itemRow, hentry, hitem, Option.getD_some, Option.getD_none, true_and]
        intro r h
        rw [h.2 e.payload (by simp) hitem, Option.getD_some]
      | some old =>
        obtain ⟨hold, hrun⟩ := ih hentry
        rw [itemEntry] at hentry
        simp only [itemRow, hentry, Option.getD_some, hold, true_and]
        exact fun r h => hrun r h.1
    · obtain ⟨hitem, hrun⟩ := ih hrow
      exact ⟨hitem, fun r h => hrun r h.1⟩

theorem itemEntry_eq {events : List EventEnvelope} {i r : Uuid}
    (h : ∀ p ∈ payloads events, p.itemId? = some i → p.runId? = some r) :
    itemEntry i events =
      (lastWrite (EventPayload.blockableStatus? i) (payloads events)).map fun status =>
        ⟨i, r, status, lastWrite (EventPayload.assignee? i) (payloads events)⟩ := by
  have hstatus : (itemEntry i events).map (·.status) =
      lastWrite (EventPayload.blockableStatus? i) (payloads events) := by
    rw [itemEntry, foldl_register (g := Option.map WorkItemProjection.status) (status_stepAt i),
      lastWrite_map, lastWrite_payloads (EventPayload.blockableStatus? i)]
    cases lastWrite (EventPayload.blockableStatus? i) (payloads events) <;> rfl
  have hagent : (itemEntry i events).bind (·.assignedAgentId) =
      lastWrite (EventPayload.assignee? i) (payloads events) := by
    rw [itemEntry, foldl_register (g := (Option.bind · WorkItemProjection.assignedAgentId))
      (agent_stepAt i), lastWrite_map, lastWrite_payloads (EventPayload.assignee? i)]
    cases lastWrite (EventPayload.assignee? i) (payloads events) <;> rfl
  rw [← hstatus, ← hagent]
  cases hentry : itemEntry i events with
  | none => rfl
  | some row =>
    obtain ⟨rfl, hrun⟩ := keys_itemEntry hentry
    obtain rfl := hrun r h
    rfl

end RebuildState

/-! ### The tables after a rebuild -/

theorem runs_foldl_upsert (store : ProjectionStore) (rows : List AgentRunProjection) (r : Uuid) :
    (rows.foldl ProjectionStore.upsertRunProjection store).runs r =
      ((lastWrite (fun row => if row.runId = r then some row else none) rows).map some).getD
        (store.runs r) := by
  rw [foldl_register (g := fun s : ProjectionStore => s.runs r)
    (w := fun row => (if row.runId = r then some row else none).map some), lastWrite_map]
  intro s row
  by_cases h : row.runId = r
  · subst h
    simp [ProjectionStore.upsertRunProjection]
  · simp [ProjectionStore.upsertRunProjection, h, Ne.symm h]

theorem items_foldl_upsert (store : ProjectionStore) (rows : List WorkItemProjection) (i : Uuid) :
    (rows.foldl ProjectionStore.upsertWorkItemProjection store).items i =
      ((lastWrite (fun row => if row.itemId = i then some row else none) rows).map some).getD
        (store.items i) := by
  rw [foldl_register (g := fun s : ProjectionStore => s.items i)
    (w := fun row => (if row.itemId = i then some row else none).map some), lastWrite_map]
  intro s row
  by_cases h : row.itemId = i
  · subst h
    simp [ProjectionStore.upsertWorkItemProjection]
  · simp [ProjectionStore.upsertWorkItemProjection, h, Ne.symm h]

/-- Rows that carry their key: writing those of a map, in any order, writes the map's entry. -/
theorem lastWrite_rows {Row : Type} {m : HashMap Row} {key : Row → Uuid}
    (hkey : ∀ k row, m.lookup k = some row → key row = k) {order : List Uuid}
    (horder : ∀ k, k ∈ order ↔ k ∈ m) (k : Uuid) :
    lastWrite (fun row => if key row = k then some row else none) (order.filterMap m.lookup) =
      m.lookup k := by
  have hrow : ∀ row ∈ order.filterMap m.lookup, key row = k → m.lookup k = some row := by
    intro row hmem hk
    obtain ⟨j, -, hj⟩ := List.mem_filterMap.mp hmem
    rw [← hk, hkey j row hj]
    exact hj
  cases hlookup : m.lookup k with
  | none =>
    refine lastWrite_of_none fun row hmem => if_neg fun hk => ?_
    rw [hrow row hmem hk] at hlookup
    cases hlookup
  | some row =>
    have hmem : row ∈ order.filterMap m.lookup := by
      refine List.mem_filterMap.mpr ⟨k, (horder k).mpr ?_, hlookup⟩
      exact AList.lookup_isSome.mp (by rw [hlookup]; rfl)
    cases hlast : lastWrite (fun row => if key row = k then some row else none)
        (order.filterMap m.lookup) with
    | none =>
      have := lastWrite_eq_none.mp hlast row hmem
      rw [if_pos (hkey k row hlookup)] at this
      cases this
    | some row' =>
      obtain ⟨x, hx, hwrite⟩ := lastWrite_mem hlast
      split at hwrite
      · next hk =>
        obtain rfl := Option.some.inj hwrite
        rw [← hlookup, hrow x hx hk]
      · cases hwrite

theorem runs_foldl_upsertItem (rows : List WorkItemProjection) (store : ProjectionStore) :
    (rows.foldl ProjectionStore.upsertWorkItemProjection store).runs = store.runs := by
  induction rows generalizing store with
  | nil => rfl
  | cons row rows ih => exact ih _

theorem items_foldl_upsertRun (rows : List AgentRunProjection) (store : ProjectionStore) :
    (rows.foldl ProjectionStore.upsertRunProjection store).items = store.items := by
  induction rows generalizing store with
  | nil => rfl
  | cons row rows ih => exact ih _

section tables

variable {events : List EventEnvelope} {runOrder itemOrder : List Uuid}

theorem runs_rebuildProjections (h : (RebuildState.fromEvents events).runStates.IsOrder runOrder)
    (itemOrder : List Uuid) (store : ProjectionStore) (r : Uuid) :
    (rebuildProjections runOrder itemOrder events store).1.runs r =
      (RebuildState.fromEvents events).runStates.lookup r := by
  simp only [rebuildProjections]
  rw [runs_foldl_upsertItem, runs_foldl_upsert,
    lastWrite_rows (fun k row => RebuildState.runId_of_lookup) h.2]
  cases (RebuildState.fromEvents events).runStates.lookup r <;> rfl

theorem items_rebuildProjections (h : (RebuildState.fromEvents events).itemStates.IsOrder itemOrder)
    (runOrder : List Uuid) (store : ProjectionStore) (i : Uuid) :
    (rebuildProjections runOrder itemOrder events store).1.items i =
      (RebuildState.fromEvents events).itemStates.lookup i := by
  have hitemKey : ∀ i row, (RebuildState.fromEvents events).itemStates.lookup i = some row →
      row.itemId = i := fun i row hrow => by
    rw [RebuildState.lookup_itemStates] at hrow
    exact (RebuildState.keys_itemEntry hrow).1
  simp only [rebuildProjections]
  rw [items_foldl_upsert, lastWrite_rows hitemKey h.2, items_foldl_upsertRun]
  cases (RebuildState.fromEvents events).itemStates.lookup i <;> rfl

end tables

/-- The tables after a rebuild hold the rows of the fold, whatever was in them before. -/
theorem Rebuilds.tables {log : EventLog} {store store' : ProjectionStore}
    (h : Rebuilds log store store') :
    ∃ events, LoadAll log (.ok events) ∧
      (∀ r, store'.runs r = (RebuildState.fromEvents events).runStates.lookup r) ∧
      ∀ i, store'.items i = (RebuildState.fromEvents events).itemStates.lookup i := by
  obtain ⟨events, runOrder, itemOrder, hload, hruns, hitems, rfl⟩ := h
  exact ⟨events, hload, runs_rebuildProjections hruns itemOrder store,
    items_rebuildProjections hitems runOrder store⟩

end SamtaDashboard

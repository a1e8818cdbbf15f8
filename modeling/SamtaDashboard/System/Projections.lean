import SamtaDashboard.System.RebuildAgreement
import SamtaDashboard.System.Service

/-!
# The projection tables and a rebuild

Three writers keep `agent_runs_projection` up to date: `create_run`, `sync_projection_status` and the
worker. For a run whose events are stamped in commit order its row carries the status of the worker's
replay (`runRows`), which is the rebuilt status unless a failure is masked. Only the worker writes
`work_items_projection`: the table has the rebuilt row of every item that was executed since its last
assignment (`itemRows`), and never that of an assigned item.
-/

namespace SamtaDashboard

open EventFold Transition

/-! ### What the statements write -/

section statements

variable {store store' : ProjectionStore} {r : Uuid}

theorem runs_upsert (row : AgentRunProjection) (r : Uuid) :
    (store.upsertRunProjection row).runs r = if r = row.runId then some row else store.runs r := by
  simp [ProjectionStore.upsertRunProjection, Function.update_apply]

theorem items_upsert (row : WorkItemProjection) (i : Uuid) :
    (store.upsertWorkItemProjection row).items i =
      if i = row.itemId then some row else store.items i := by
  simp [ProjectionStore.upsertWorkItemProjection, Function.update_apply]

/-- Rows of the run table carry their key. -/
def ProjectionStore.Keyed (store : ProjectionStore) : Prop :=
  ∀ r row, store.runs r = some row → row.runId = r

theorem ProjectionStore.Keyed.upsert (h : store.Keyed) (row : AgentRunProjection) :
    (store.upsertRunProjection row).Keyed := by
  intro r row' hrow'
  rw [runs_upsert] at hrow'
  split at hrow'
  · next heq => rw [← Option.some.inj hrow', heq]
  · exact h r row' hrow'

theorem syncProjectionStatus_ok (hkeyed : store.Keyed) {workspaceId : Option Uuid}
    {status : String} {now : Time}
    (h : syncProjectionStatus store r workspaceId status now = .ok store') :
    store'.Keyed ∧ store'.items = store.items ∧
      ∀ r', (store'.runs r').map (·.status) =
        if r' = r then some status else (store.runs r').map (·.status) := by
  unfold syncProjectionStatus at h
  have hwrite : ∀ row : AgentRunProjection, row.runId = r → row.status = status →
      store.upsertRunProjection row = store' → store'.Keyed ∧ store'.items = store.items ∧
        ∀ r', (store'.runs r').map (·.status) =
          if r' = r then some status else (store.runs r').map (·.status) := by
    rintro row rfl rfl rfl
    refine ⟨hkeyed.upsert row, rfl, fun r' => ?_⟩
    rw [runs_upsert]
    split <;> rfl
  split at h
  · next row hrow =>
    exact hwrite { row with status := status, updatedAt := now } (hkeyed r row hrow) rfl
      (Except.ok.inj h)
  · exact hwrite _ rfl rfl (Except.ok.inj h)
  · cases h

/-- The row that `update_run_projections` writes for item `i` on one event. -/
def projectedRow? (state : RunState) (r i : Uuid) (p : EventPayload) : Option WorkItemProjection :=
  if projectedItem? p = some i then
    (itemStatusFromPayload p (state.itemAgent i)).map fun x => ⟨x.1, r, x.2.1, x.2.2⟩
  else none

theorem items_projectEvent (state : RunState) (store : ProjectionStore) (e : EventEnvelope)
    (i : Uuid) : (projectEvent state r store e).items i =
      ((projectedRow? state r i e.payload).map some).getD (store.items i) := by
  unfold projectEvent projectedRow?
  cases e.payload with
  | workItemAssigned _ j _ | workItemStarted _ j _ | workItemCompleted _ j _ _
  | workItemFailed _ j _ =>
    by_cases h : j = i
    · subst h
      simp [projectedItem?, itemStatusFromPayload, items_upsert]
    · simp [projectedItem?, itemStatusFromPayload, items_upsert, h, Ne.symm h]
  | progressChunkEmitted _ j _ _ => simp [projectedItem?, itemStatusFromPayload]
  | _ => rfl

theorem runs_projectEvents (state : RunState) (store : ProjectionStore)
    (events : List EventEnvelope) : (events.foldl (projectEvent state r) store).runs = store.runs := by
  induction events generalizing store with
  | nil => rfl
  | cons e events ih =>
    rw [List.foldl_cons, ih]
    unfold projectEvent
    split
    · rfl
    · split <;> rfl

theorem items_updateRunProjections (state : RunState) (store : ProjectionStore)
    (events : List EventEnvelope) (i : Uuid) :
    (updateRunProjections state store r events).items i =
      ((lastWrite (projectedRow? state r i) (payloads events)).map some).getD (store.items i) := by
  have hitems : (updateRunProjections state store r events).items =
      (events.foldl (projectEvent state r) store).items := by
    unfold updateRunProjections
    dsimp only
    split <;> rfl
  rw [hitems, foldl_register (g := fun s : ProjectionStore => s.items i)
    (w := fun e => (projectedRow? state r i e.payload).map some)
    fun s e => items_projectEvent state s e i, lastWrite_map,
    lastWrite_payloads (projectedRow? state r i)]

theorem ProjectionStore.Keyed.updateRunProjections (h : store.Keyed) (state : RunState)
    (events : List EventEnvelope) : (updateRunProjections state store r events).Keyed := by
  have hevents : (events.foldl (projectEvent state r) store).Keyed := by
    intro r' row hrow
    rw [runs_projectEvents] at hrow
    exact h r' row hrow
  unfold SamtaDashboard.updateRunProjections
  dsimp only
  split
  · exact hevents
  · exact hevents.upsert _

theorem runs_updateRunProjections {state : RunState} (hworkspace : state.workspaceId.isNil = false)
    (store : ProjectionStore) (events : List EventEnvelope) (r' : Uuid) :
    ((updateRunProjections state store r events).runs r').map (·.status) =
      if r' = r then some state.status else (store.runs r').map (·.status) := by
  simp only [updateRunProjections, hworkspace, Bool.false_eq_true, if_false]
  rw [runs_upsert, runs_projectEvents]
  split <;> rfl

end statements

/-! ### The run table -/

/-- The row of a run whose events are stamped in commit order carries the status of the worker's
replay. -/
structure RunRows (db : Db) : Prop where
  keyed : db.store.Keyed
  status : ∀ r, InOrder db.log r → (db.store.runs r).map (·.status) =
    lastWrite EventPayload.workerStatus? (payloads (stream db.log r))

section changes

variable {db db' : Db} {r : Uuid} {rows : List EventEnvelope}

theorem RunRows.append (h : RunRows db) (happ : Appended db.log db'.log r rows)
    (hkeyed : db'.store.Keyed) (status : String)
    (hwrite : ∀ r', (db'.store.runs r').map (·.status) =
      if r' = r then some status else (db.store.runs r').map (·.status))
    (hstatus : InOrder db.log r → lastWrite EventPayload.workerStatus?
      (payloads (stream db.log r) ++ payloads rows) = some status) : RunRows db' := by
  refine ⟨hkeyed, fun r' horder' => ?_⟩
  have horder : InOrder db.log r' := by
    rw [happ.log_eq] at horder'
    exact horder'.of_append
  rw [hwrite, happ.payloads_stream]
  by_cases hr : r' = r
  · subst hr
    rw [if_pos rfl, if_pos rfl, hstatus horder]
  · rw [if_neg hr, if_neg hr, List.append_nil, h.status r' horder]

theorem RunRows.change (hwf : WellFormed db.log) (hrec : Recorded db.log) (h : RunRows db)
    (hchange : DbChange db db') : RunRows db' := by
  cases hchange with
  | start draws workspaceId now hstarted hstore =>
    obtain ⟨rows, objective, target, agents, happ, hps⟩ := hstarted.appended
    refine h.append happ (hstore ▸ h.keyed.upsert _) "running" (fun r' => ?_)
      fun _ => ?_
    · rw [hstore, upsertNewRun, runs_upsert]
      split <;> rfl
    · rw [hps, startRunPayloads_eq, lastWrite_append, lastWrite_cons,
        Assignments.lastWrite_eq_none fun _ _ => rfl]
      rfl
  | status r status now hchanged hsync =>
    obtain ⟨rows, reason, happ, hps⟩ := hchanged.appended
    obtain ⟨hkeyed, -, hwrite⟩ := syncProjectionStatus_ok h.keyed hsync
    refine h.append happ hkeyed status hwrite fun _ => ?_
    rw [hps, lastWrite_append]
    rfl
  | retry r workspaceId now hretried hsync =>
    obtain ⟨rows, draws, order, happ, hps⟩ := hretried.appended
    obtain ⟨hkeyed, -, hwrite⟩ := syncProjectionStatus_ok h.keyed hsync
    refine h.append happ hkeyed "running" hwrite fun _ => ?_
    obtain ⟨-, -, -, heq⟩ := retryPayloads_eq_some.mp hps
    rw [heq, lastWrite_append, lastWrite_cons, Assignments.lastWrite_eq_none fun _ _ => rfl]
    rfl
  | @batch r config state state' batch executed summary hadvances hstore =>
    obtain ⟨rows, happ, hps⟩ := hadvances.appended
    have hworkspace : state'.workspaceId.isNil = false := by
      rw [hadvances.advanced.workspaceId, hadvances.advanced.workspace]
    have hkeyed : db'.store.Keyed := hstore ▸ h.keyed.updateRunProjections _ _
    refine h.append happ hkeyed state'.status (fun r' => ?_) fun horder => ?_
    · rw [hstore, runs_updateRunProjections hworkspace]
    · rw [hps, lastWrite_append, (hadvances.running hwf hrec.runLog horder).1,
        ← lastWrite_workerStatus_batch hadvances.advanced]
      cases lastWrite EventPayload.workerStatus? (payloads batch) <;> rfl

end changes

/-! ### The item table -/

/-- The item table has rows of executed items only, and for an item that was executed since its last
assignment, in a run whose events are stamped in commit order, the row that its events make. -/
structure ItemRows (db : Db) : Prop where
  executed : ∀ i row, db.store.items i = some row →
    row.status ≠ .assigned ∧ ∃ e ∈ stream db.log row.runId, e.payload.itemId? = some i
  current : ∀ r, InOrder db.log r → ∀ i status,
    lastWrite (EventPayload.itemStatus? i) (payloads (stream db.log r)) = some status →
      status ≠ .assigned → db.store.items i = some ⟨i, r, status,
        lastWrite (EventPayload.assignee? i) (payloads (stream db.log r))⟩

section changes

variable {db db' : Db} {r : Uuid} {rows : List EventEnvelope}

theorem ItemRows.assign (h : ItemRows db) (happ : Appended db.log db'.log r rows)
    (hitems : db'.store.items = db.store.items) {p : EventPayload} (assigned : Assignments)
    (hp : p.itemId? = none) (hps : payloads rows = p :: assigned.payloads r) : ItemRows db' := by
  have hquiet : ∀ {V : Type} {w : EventPayload → Option V} {i : Uuid},
      (∀ q, w q ≠ none → q.itemId? = some i) → w p = none := fun hw => by
    by_contra hwrite
    rw [hw p hwrite] at hp
    cases hp
  constructor
  · intro i row hrow
    rw [hitems] at hrow
    obtain ⟨hstatus, e, he, hi⟩ := h.executed i row hrow
    exact ⟨hstatus, e, happ.log_eq ▸ mem_stream_append_left he, hi⟩
  · intro r' horder' i status hlast hstatus
    have horder : InOrder db.log r' := by
      rw [happ.log_eq] at horder'
      exact horder'.of_append
    have hw := fun q => EventPayload.itemId?_of_itemStatus? (i := i) (p := q)
    have hw' := fun q => EventPayload.itemId?_of_assignee? (i := i) (p := q)
    rw [hitems]
    rw [happ.payloads_stream] at hlast ⊢
    by_cases hr : r' = r
    · subst hr
      rw [if_pos rfl, hps] at hlast ⊢
      have hnot : i ∉ assigned.map (·.1) := by
        intro hmem
        rw [lastWrite_append, lastWrite_cons, Assignments.lastWrite_itemStatus, if_pos hmem,
          Option.some_or, Option.some_or] at hlast
        exact hstatus (Option.some.inj hlast).symm
      rw [lastWrite_append, lastWrite_cons, Assignments.lastWrite_of_not_mem hw hnot, hquiet hw,
        Option.none_or, Option.none_or] at hlast
      rw [lastWrite_append, lastWrite_cons, Assignments.lastWrite_of_not_mem hw' hnot, hquiet hw',
        Option.none_or, Option.none_or]
      exact h.current r' horder i status hlast hstatus
    · rw [if_neg hr, List.append_nil] at hlast ⊢
      exact h.current r' horder i status hlast hstatus

theorem lastWrite_projectedRow_outcome (state : RunState) (worker : Worker) (r i itemId : Uuid)
    (outcome : Outcome) :
    lastWrite (projectedRow? state r i) (outcome.payloads worker r itemId) =
      if itemId = i then some ⟨i, r, outcome.status, state.itemAgent i⟩ else none := by
  by_cases h : itemId = i
  · subst h
    unfold Outcome.payloads Outcome.status Outcome.succeeded
    split
    · simp [projectedRow?, projectedItem?, itemStatusFromPayload]
    · split <;> simp_all [projectedRow?, projectedItem?, itemStatusFromPayload, lastWrite_cons]
  · rw [if_neg h, lastWrite_of_none]
    intro p hp
    have hitem := (mem_outcome_payloads worker r itemId outcome hp).2.1
    cases p <;> simp_all [projectedRow?, projectedItem?, EventPayload.itemId?]

section batch

variable {config : LoopConfig} {state state' : RunState} {batch : List EventEnvelope}
  {executed : List (Uuid × Outcome)} {summary : Option String}

theorem lastWrite_batch (h : Advanced config r state state' batch executed summary)
    {V : Type} {w : EventPayload → Option V} (hw : ∀ text, w (.runCompleted r text) = none) :
    lastWrite w (payloads batch) = lastWrite w (executedPayloads config.worker r executed) := by
  rw [h.payloads, lastWrite_append, lastWrite_of_none, Option.none_or]
  intro p hp
  obtain ⟨text, -, rfl⟩ := List.mem_map.mp hp
  exact hw text

theorem lastWrite_assignee_batch (h : Advanced config r state state' batch executed summary)
    (i : Uuid) : lastWrite (EventPayload.assignee? i) (payloads batch) = none := by
  rw [lastWrite_batch h fun _ => rfl]
  refine lastWrite_of_none fun p hp => ?_
  obtain ⟨x, -, hp⟩ := mem_executedPayloads hp
  have hkind := (mem_outcome_payloads _ _ _ _ hp).2.2
  cases p <;> simp_all [EventPayload.isExecution, EventPayload.assignee?]

theorem Advances.not_mem_of_other (hwf : WellFormed db.log)
    (hadvances : Advances db.log db'.log r config state state' batch executed summary) {r' i : Uuid}
    {status : ItemStatus} (hr : r' ≠ r)
    (hlast : lastWrite (EventPayload.itemStatus? i) (payloads (stream db.log r')) = some status) :
    i ∉ executed.map (·.1) := by
  intro hmem
  obtain ⟨x, hx, rfl⟩ := List.mem_map.mp hmem
  obtain ⟨a, ha, hassigns⟩ := hadvances.assignedIn hwf hx
  obtain ⟨e, he, hitem⟩ := exists_itemId?_of_lastWrite
    (fun _ => EventPayload.itemId?_of_itemStatus?) hlast
  have hres := hwf.resourceId_of_itemId? ha (itemId?_of_assigns hassigns) (mem_stream.mp he).1 hitem
  exact hr ((mem_stream.mp he).2.symm.trans hres)

theorem ItemRows.advance (hwf : WellFormed db.log) (hrec : Recorded db.log) (h : ItemRows db)
    (hadvances : Advances db.log db'.log r config state state' batch executed summary)
    (hstore : db'.store = updateRunProjections state' db.store r batch) : ItemRows db' := by
  obtain ⟨rows, happ, hps⟩ := hadvances.appended
  have hadv := hadvances.advanced
  have hwrite : ∀ {i : Uuid} {outcome : Outcome}, (i, outcome) ∈ executed →
      db'.store.items i = some ⟨i, r, outcome.status, state'.itemAgent i⟩ := by
    intro i outcome hx
    rw [hstore, items_updateRunProjections, lastWrite_batch hadv fun _ => rfl,
      lastWrite_executed_of_mem (lastWrite_projectedRow_outcome state' config.worker r i) hx
        hadv.nodup]
    rfl
  have hkeep : ∀ {i : Uuid}, i ∉ executed.map (·.1) → db'.store.items i = db.store.items i := by
    intro i hi
    rw [hstore, items_updateRunProjections, lastWrite_batch hadv fun _ => rfl,
      lastWrite_executed_of_not_mem (lastWrite_projectedRow_outcome state' config.worker r i) hi]
    rfl
  constructor
  · intro i row hrow
    by_cases hi : i ∈ executed.map (·.1)
    · obtain ⟨⟨i, outcome⟩, hx, rfl⟩ := List.mem_map.mp hi
      rw [hwrite hx] at hrow
      obtain rfl := Option.some.inj hrow
      obtain ⟨e, he, hassigns⟩ := hadvances.assignedIn hwf hx
      refine ⟨?_, e, happ.log_eq ▸ mem_stream_append_left he, itemId?_of_assigns hassigns⟩
      dsimp only [Outcome.status]
      split <;> decide
    · rw [hkeep hi] at hrow
      obtain ⟨hstatus, e, he, hitem⟩ := h.executed i row hrow
      exact ⟨hstatus, e, happ.log_eq ▸ mem_stream_append_left he, hitem⟩
  · intro r' horder' i status hlast hstatus
    have horder : InOrder db.log r' := by
      rw [happ.log_eq] at horder'
      exact horder'.of_append
    rw [happ.payloads_stream] at hlast ⊢
    by_cases hr : r' = r
    · subst hr
      rw [if_pos rfl, hps, lastWrite_append, lastWrite_batch hadv fun _ => rfl] at hlast
      rw [if_pos rfl, hps, lastWrite_append, lastWrite_assignee_batch hadv, Option.none_or]
      by_cases hi : i ∈ executed.map (·.1)
      · obtain ⟨⟨i, outcome⟩, hx, rfl⟩ := List.mem_map.mp hi
        rw [lastWrite_executed_of_mem (lastWrite_itemStatus_outcome config.worker r' · · i) hx
          hadv.nodup, Option.some_or, Option.some.injEq] at hlast
        have hstate := hadvances.read.replayRun_stream hwf hrec.runLog horder
        obtain ⟨item, hitem, heligible⟩ := hadv.eligible _ hx
        have hassigned := itemStatus_replayRun hstate i
        rw [RunState.itemStatus, hitem, Option.map_some,
          (LoopConfig.eligible_iff.mp heligible).1] at hassigned
        rw [hwrite hx, hadv.itemAgent, itemAgent_replayRun hstate,
          EventPayload.lastWrite_itemAgent_of_assigned hassigned.symm, hlast]
      · rw [lastWrite_executed_of_not_mem (lastWrite_itemStatus_outcome config.worker r' · · i) hi,
          Option.none_or] at hlast
        rw [hkeep hi]
        exact h.current r' horder i status hlast hstatus
    · rw [if_neg hr, List.append_nil] at hlast ⊢
      rw [hkeep (hadvances.not_mem_of_other hwf hr hlast)]
      exact h.current r' horder i status hlast hstatus

end batch

theorem ItemRows.change (hwf : WellFormed db.log) (hrec : Recorded db.log)
    (hkeyed : db.store.Keyed) (h : ItemRows db) (hchange : DbChange db db') : ItemRows db' := by
  cases hchange with
  | start draws workspaceId now hstarted hstore =>
    obtain ⟨rows, objective, target, agents, happ, hps⟩ := hstarted.appended
    rw [startRunPayloads_eq] at hps
    exact h.assign happ (by rw [hstore]; rfl) _ rfl hps
  | status r status now hchanged hsync =>
    obtain ⟨rows, reason, happ, hps⟩ := hchanged.appended
    exact h.assign happ (syncProjectionStatus_ok hkeyed hsync).2.1 [] rfl hps
  | retry r workspaceId now hretried hsync =>
    obtain ⟨rows, draws, order, happ, hps⟩ := hretried.appended
    obtain ⟨-, -, -, heq⟩ := retryPayloads_eq_some.mp hps
    exact h.assign happ (syncProjectionStatus_ok hkeyed hsync).2.1 _ rfl heq
  | batch hadvances hstore => exact h.advance hwf hrec hadvances hstore

end changes

/-! ### The tables and a rebuild -/

theorem service_tables {db : Db} (h : Reachable service db) :
    WellFormed db.log ∧ Recorded db.log ∧ RunRows db ∧ ItemRows db :=
  service_invariant (I := fun db => RunRows db ∧ ItemRows db)
    ⟨⟨fun _ _ hrow => (nomatch hrow), fun _ _ => rfl⟩,
      ⟨fun _ _ hrow => (nomatch hrow), fun _ _ _ _ hlast => (nomatch hlast)⟩⟩
    (fun _ _ hwf hrec hrows hchange => ⟨hrows.1.change hwf hrec hchange,
      hrows.2.change hwf hrec hrows.1.keyed hchange⟩) h

/-- In every history of the service, for every run whose events are stamped in commit order: the
status in the run table is the one that a rebuild writes exactly if no failure is masked. -/
theorem runRow_status_iff {db : Db} (h : Reachable service db) {store store' : ProjectionStore}
    (hrebuild : Rebuilds db.log store store') {r : Uuid} (horder : InOrder db.log r) :
    (db.store.runs r).map (·.status) = (store'.runs r).map (·.status) ↔
      ¬ MaskedFailure (payloads (stream db.log r)) := by
  obtain ⟨hwf, hrec, hrunRows, -⟩ := service_tables h
  obtain ⟨events, hload, hruns, -⟩ := hrebuild.tables
  have hrows := (loadAll_eq_ok.mp hload).1
  rw [hrunRows.status r horder, hruns]
  by_cases hr : stream db.log r = []
  · rw [lookup_runStates_empty hwf hrec.runLog hrows hr, hr]
    decide
  · obtain ⟨row, hrow, hstatus, -⟩ := lookup_runStates_stream hwf hrec.runLog horder hrows hr
    obtain ⟨status, hworker⟩ := Option.ne_none_iff_exists'.mp
      (hrec.runLog.lastWrite_ne_none hr (w := EventPayload.workerStatus?) fun _ _ => nofun)
    rw [← (hrec.whileRunning r horder).rebuildStatus_eq_workerStatus_iff (hwf.written_stream r),
      ← hstatus, hworker, hrow, Option.map_some, Option.some.injEq, Option.getD_some]

def mixedDb : Db := tickedDb (sampleExecutor [⟨11⟩]) 200 (createdDb 2)

theorem mixedDb_reachable : Reachable service mixedDb :=
  tickedDb_reachable createdDb_two_reachable _ _ (by decide) (by decide)

theorem loadAll_mixedDb : LoadAll mixedDb.log (.ok mixedDb.log) :=
  loadAll_eq_ok.mpr ⟨⟨.refl _, by decide⟩, by decide⟩

theorem runRow_status_iff_mixedDb :
    (mixedDb.store.runs sampleRun).map (·.status) =
        ((rebuiltStore mixedDb.log).runs sampleRun).map (·.status) ↔
      ¬ MaskedFailure (payloads (stream mixedDb.log sampleRun)) :=
  runRow_status_iff mixedDb_reachable (rebuilds_rebuiltStore loadAll_mixedDb) (by decide)

/-- The worker left the run blocked in the table, a rebuild makes it running. -/
theorem runRow_status_mixedDb : Reachable service mixedDb ∧
    Rebuilds mixedDb.log .empty (rebuiltStore mixedDb.log) ∧
    (mixedDb.store.runs sampleRun).map (·.status) = some "blocked" ∧
    ((rebuiltStore mixedDb.log).runs sampleRun).map (·.status) = some "running" :=
  ⟨mixedDb_reachable, rebuilds_rebuiltStore loadAll_mixedDb, by decide, by decide⟩

/-- In every history of the service, for every run whose events are stamped in commit order: the
run's rows in the item table are those that a rebuild writes exactly if every item of the run was
executed since its last assignment. -/
theorem itemRows_iff {db : Db} (h : Reachable service db) {store store' : ProjectionStore}
    (hrebuild : Rebuilds db.log store store') {r : Uuid} (horder : InOrder db.log r) :
    (∀ i, (db.store.items i).filter (·.runId = r) = (store'.items i).filter (·.runId = r)) ↔
      ∀ i, lastWrite (EventPayload.itemStatus? i) (payloads (stream db.log r)) ≠
        some .assigned := by
  obtain ⟨hwf, hrec, -, hitemRows⟩ := service_tables h
  obtain ⟨events, hload, -, hitems⟩ := hrebuild.tables
  have hrebuilt : ∀ i, (store'.items i).filter (·.runId = r) =
      rebuiltItem r (payloads (stream db.log r)) i := fun i => by
    rw [hitems, RebuildState.lookup_itemStates,
      filter_itemEntry hwf hrec.runLog horder (loadAll_eq_ok.mp hload).1]
  refine forall_congr' fun i => ?_
  rw [hrebuilt, rebuiltItem, lastWrite_blockableStatus (hwf.written_stream r)]
  cases hlast : lastWrite (EventPayload.itemStatus? i) (payloads (stream db.log r)) with
  | none =>
    rw [Option.map_none, Option.filter_eq_none_iff]
    refine iff_of_true (fun row hrow => ?_) (by simp)
    obtain ⟨-, e, he, hi⟩ := hitemRows.executed i row hrow
    rw [decide_eq_true_eq]
    rintro rfl
    exact hwf.lastWrite_ne_none he hi (by simp [EventPayload.itemStatus?]) hlast
  | some status =>
    by_cases hstatus : status = .assigned
    · subst hstatus
      refine iff_of_false (fun heq => ?_) (by simp)
      exact (hitemRows.executed i _ (Option.filter_eq_some_iff.mp heq).1).1 rfl
    · refine iff_of_true ?_ (by simpa using hstatus)
      rw [hitemRows.current r horder i status hlast hstatus]
      simp

theorem loadAll_createdDb : LoadAll (createdDb 1).log (.ok (createdDb 1).log) :=
  loadAll_eq_ok.mpr ⟨⟨.refl _, by decide⟩, by decide⟩

theorem itemRows_iff_createdDb :
    (∀ i, ((createdDb 1).store.items i).filter (·.runId = sampleRun) =
        ((rebuiltStore (createdDb 1).log).items i).filter (·.runId = sampleRun)) ↔
      ∀ i, lastWrite (EventPayload.itemStatus? i)
        (payloads (stream (createdDb 1).log sampleRun)) ≠ some .assigned :=
  itemRows_iff createdDb_one_reachable (rebuilds_rebuiltStore loadAll_createdDb) (by decide)

/-- `create_run` leaves no row of the item that it assigns. -/
theorem itemRows_createdDb : Reachable service (createdDb 1) ∧
    Rebuilds (createdDb 1).log .empty (rebuiltStore (createdDb 1).log) ∧
    (createdDb 1).store.items ⟨10⟩ = none ∧
    (rebuiltStore (createdDb 1).log).items ⟨10⟩ =
      some ⟨⟨10⟩, sampleRun, .assigned, some ⟨20⟩⟩ :=
  ⟨createdDb_one_reachable, rebuilds_rebuiltStore loadAll_createdDb, by decide, by decide⟩

end SamtaDashboard

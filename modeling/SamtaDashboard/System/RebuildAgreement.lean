import SamtaDashboard.System.Clock

/-!
# The worker's replay and the rebuild

Under a clock that does not run backwards the worker's replay and `rebuild_projections` find the same
totals and the same items with the same status for every run. They find the same status of the run
unless a failure is masked: the rebuild sets a run running again when an item completes after another
one failed.
-/

namespace SamtaDashboard

open EventFold Transition

/-! ### What a rebuild writes for one run -/

/-- The row of item `i` that a rebuild writes for run `r`. -/
def rebuiltItem (r : Uuid) (ps : List EventPayload) (i : Uuid) : Option WorkItemProjection :=
  (lastWrite (EventPayload.blockableStatus? i) ps).map fun status =>
    ⟨i, r, status, lastWrite (EventPayload.assignee? i) ps⟩

section rows

variable {log events : EventLog} {r i : Uuid}

theorem WellFormed.runId?_of_itemId? (h : WellFormed log) {e : EventEnvelope} (he : e ∈ log)
    (hi : e.payload.itemId? = some i) : e.payload.runId? = some e.resourceId := by
  have howned := h.owned e he
  cases hp : e.payload <;> simp_all [EventPayload.itemId?, EventPayload.runId?]

theorem WellFormed.resourceId_of_itemId? (h : WellFormed log) {e e' : EventEnvelope}
    (he : e ∈ stream log r) (hi : e.payload.itemId? = some i) (he' : e' ∈ log)
    (hi' : e'.payload.itemId? = some i) : e'.resourceId = r := by
  have hmem := mem_stream.mp he
  rw [← hmem.2]
  exact h.separate e' he' e hmem.1 i hi' hi

theorem lastWrite_stream (hwf : WellFormed log) (hrun : RunLog log) (horder : InOrder log r)
    (hrows : InTimeOrder log events) {V : Type} {w : EventPayload → Option V}
    (hw : ∀ p, w p ≠ none → p.itemId? = some i)
    (hnamed : ∃ e ∈ stream log r, e.payload.itemId? = some i) :
    lastWrite w (payloads events) = lastWrite w (payloads (stream log r)) := by
  obtain ⟨e, he, hi⟩ := hnamed
  rw [← hrun.runEvents_loadAll hwf horder hrows, ← lastWrite_payloads, ← lastWrite_payloads,
    runEvents, lastWrite_filter]
  intro e' he' hwrite
  have hlog := hrows.perm.subset he'
  rw [hrun.grouped e' hlog, hwf.resourceId_of_itemId? he hi hlog (hw _ hwrite)]
  simp

theorem filter_itemEntry (hwf : WellFormed log) (hrun : RunLog log) (horder : InOrder log r)
    (hrows : InTimeOrder log events) :
    (RebuildState.itemEntry i events).filter (·.runId = r) =
      rebuiltItem r (payloads (stream log r)) i := by
  by_cases hnamed : ∃ e ∈ stream log r, e.payload.itemId? = some i
  · have hrunId : ∀ p ∈ payloads events, p.itemId? = some i → p.runId? = some r := by
      intro p hp hi
      obtain ⟨e, he, rfl⟩ := List.mem_map.mp hp
      obtain ⟨e', he', hi'⟩ := hnamed
      have hlog := hrows.perm.subset he
      rw [hwf.runId?_of_itemId? hlog hi, hwf.resourceId_of_itemId? he' hi' hlog hi]
    rw [RebuildState.itemEntry_eq hrunId, lastWrite_stream hwf hrun horder hrows
        (fun _ => EventPayload.itemId?_of_blockableStatus?) hnamed,
      lastWrite_stream hwf hrun horder hrows (fun _ => EventPayload.itemId?_of_assignee?) hnamed]
    unfold rebuiltItem
    cases lastWrite (EventPayload.blockableStatus? i) (payloads (stream log r)) <;> simp
  · have hnone : lastWrite (EventPayload.blockableStatus? i) (payloads (stream log r)) = none := by
      refine lastWrite_of_none fun p hp => ?_
      obtain ⟨e, he, rfl⟩ := List.mem_map.mp hp
      by_contra hwrite
      exact hnamed ⟨e, he, EventPayload.itemId?_of_blockableStatus? hwrite⟩
    rw [rebuiltItem, hnone, Option.map_none, Option.filter_eq_none_iff]
    intro row hrow
    -- another run's event created the row
    obtain ⟨e, he, hi⟩ : ∃ e ∈ events, e.payload.itemId? = some i := by
      by_contra hall
      have hunnamed : ∀ p ∈ payloads events, p.itemId? ≠ some i := fun p hp hi => by
        obtain ⟨e, he, rfl⟩ := List.mem_map.mp hp
        exact hall ⟨e, he, hi⟩
      rw [RebuildState.itemEntry_eq (r := r) fun p hp hi => absurd hi (hunnamed p hp)] at hrow
      obtain ⟨status, hstatus, -⟩ := Option.map_eq_some_iff.mp hrow
      obtain ⟨p, hp, hwrite⟩ := lastWrite_mem hstatus
      exact hunnamed p hp (EventPayload.itemId?_of_blockableStatus? (by rw [hwrite]; simp))
    have hlog := hrows.perm.subset he
    have hkey := (RebuildState.keys_itemEntry hrow).2 e.resourceId fun p hp hi' => by
      obtain ⟨e', he', rfl⟩ := List.mem_map.mp hp
      have hlog' := hrows.perm.subset he'
      rw [hwf.runId?_of_itemId? hlog' hi',
        hwf.separate e' hlog' e hlog i hi' hi]
    rw [hkey, decide_eq_true_eq]
    exact fun hr => hnamed ⟨e, mem_stream.mpr ⟨hlog, hr⟩, hi⟩

theorem lookup_runStates_empty (hwf : WellFormed log) (hrun : RunLog log) (hrows : InTimeOrder log events)
    (hr : stream log r = []) : (RebuildState.fromEvents events).runStates.lookup r = none := by
  have horder : InOrder log r := by
    rw [InOrder, hr]
    exact List.Pairwise.nil
  rw [RebuildState.lookup_runStates, hrun.runEvents_loadAll hwf horder hrows, hr]
  rfl

theorem lookup_runStates_stream (hwf : WellFormed log) (hrun : RunLog log)
    (horder : InOrder log r) (hrows : InTimeOrder log events) (hr : stream log r ≠ []) :
    ∃ row, (RebuildState.fromEvents events).runStates.lookup r = some row ∧
      row.status =
        (lastWrite EventPayload.rebuildStatus? (payloads (stream log r))).getD "pending" ∧
      row.totalCost = chargedCost (payloads (stream log r)) ∧
      row.effortPoints = chargedEffort (payloads (stream log r)) := by
  have hevents := hrun.runEvents_loadAll (r := r) hwf horder hrows
  obtain ⟨started, rest, w, o, hcons, hp⟩ := hrun.exists_runStarted hr
  have hstarted : ∃ w o, started.payload = .runStarted w o := ⟨w, o, hp⟩
  have hrest : ∀ e ∈ rest, ∀ w o, e.payload ≠ .runStarted w o := by
    intro e he w o hp
    have hnot := hwf.started r e (by rw [hcons]; exact he)
    rw [hp] at hnot
    cases hnot
  refine ⟨RebuildState.rowAfter started rest,
    RebuildState.lookup_runStates_cons (hevents.trans hcons), ?_, ?_, ?_⟩
  · rw [RebuildState.status_rowAfter hp, hcons]
  · rw [RebuildState.totalCost_rowAfter hstarted hrest, hcons]
  · rw [RebuildState.effortPoints_rowAfter hstarted hrest, hcons]

end rows

/-! ### The worker's replay and the rebuilt tables -/

/-- The worker's replay of run `r` and the rebuilt tables agree on the status and the totals of the
run, on its items and on the status of every item. -/
structure RebuildAgrees (worker : RunState) (row : AgentRunProjection) (r : Uuid)
    (items : Uuid → Option WorkItemProjection) : Prop where
  status : worker.status = row.status
  totalCost : worker.totalCost = row.totalCost
  effortPoints : worker.effortPoints = row.effortPoints
  items : ∀ i, worker.itemStatus i = ((items i).filter (·.runId = r)).map (·.status)

/-- Under a clock that does not run backwards, for every run of a history: what a worker replays from
`load_all` and what a rebuild writes agree exactly if no failure is masked in the run's stream. -/
theorem rebuildAgrees_iff {log : EventLog} (h : Reach history Operation.OnClock log)
    {events : List EventEnvelope} (hload : LoadAll log (.ok events)) {store store' : ProjectionStore}
    (hrebuild : Rebuilds log store store') {r : Uuid} (hr : stream log r ≠ []) :
    ∃ worker row, (runStatesFromEvents events).lookup r = some worker ∧ store'.runs r = some row ∧
      (RebuildAgrees worker row r store'.items ↔ ¬ MaskedFailure (payloads (stream log r))) := by
  have hwf := history_wellFormed h.reachable
  have hrec := history_recorded h.reachable
  have hrun := hrec.runLog
  have horder := (timeOrdered_of_onClock h).inOrder r
  have hwritten := hwf.written_stream r
  obtain ⟨worker, hworker⟩ := Option.isSome_iff_exists.mp (replayRun_isSome.mpr hr)
  obtain ⟨events', hload', hruns, hitems⟩ := hrebuild.tables
  have hrows' := (loadAll_eq_ok.mp hload').1
  obtain ⟨row, hrow, hstatus, hcost, heffort⟩ :=
    lookup_runStates_stream hwf hrun horder hrows' hr
  refine ⟨worker, row, ?_, (hruns r).trans hrow, ?_⟩
  · rw [lookup_runStatesFromEvents,
      hrun.runEvents_loadAll hwf horder (loadAll_eq_ok.mp hload).1, hworker]
  · rw [← (hrec.whileRunning r horder).rebuildStatus_eq_workerStatus_iff hwritten, ← hstatus,
      ← status_replayRun hworker]
    refine ⟨RebuildAgrees.status, fun heq => ⟨heq, ?_, ?_, fun i => ?_⟩⟩
    · rw [totalCost_replayRun hworker, hcost]
    · rw [effortPoints_replayRun hworker, heffort]
    · rw [hitems, RebuildState.lookup_itemStates, filter_itemEntry hwf hrun horder hrows',
        itemStatus_replayRun hworker, rebuiltItem, Option.map_map,
        lastWrite_blockableStatus hwritten]
      cases lastWrite (EventPayload.itemStatus? i) (payloads (stream log r)) <;> rfl

def mixedLog : EventLog := tickedLog (sampleExecutor [⟨11⟩]) 200 (startedLog 2)

theorem mixedLog_onClock : Reach history Operation.OnClock mixedLog :=
  tickedLog_onClock startedLog_two_onClock _ rfl (by decide) (by decide) (by decide)

theorem loadAll_mixedLog : LoadAll mixedLog (.ok mixedLog) :=
  loadAll_eq_ok.mpr ⟨⟨.refl _, by decide⟩, by decide⟩

def rebuiltStore (events : List EventEnvelope) : ProjectionStore :=
  (rebuildProjections (RebuildState.fromEvents events).runStates.keys
    (RebuildState.fromEvents events).itemStates.keys events .empty).1

theorem rebuilds_rebuiltStore {log : EventLog} {events : List EventEnvelope}
    (h : LoadAll log (.ok events)) : Rebuilds log .empty (rebuiltStore events) :=
  ⟨events, _, _, h, HashMap.isOrder_keys _, HashMap.isOrder_keys _, rfl⟩

theorem rebuildAgrees_iff_mixedLog : ∃ worker row,
    (runStatesFromEvents mixedLog).lookup sampleRun = some worker ∧
      (rebuiltStore mixedLog).runs sampleRun = some row ∧
      (RebuildAgrees worker row sampleRun (rebuiltStore mixedLog).items ↔
        ¬ MaskedFailure (payloads (stream mixedLog sampleRun))) :=
  rebuildAgrees_iff mixedLog_onClock loadAll_mixedLog (rebuilds_rebuiltStore loadAll_mixedLog)
    (List.ne_nil_of_length_pos (by decide))

/-- After `mixedLog` the worker sees the run blocked and a rebuild makes it running. -/
theorem rebuild_disagrees : Reach history Operation.OnClock mixedLog ∧
    LoadAll mixedLog (.ok mixedLog) ∧ Rebuilds mixedLog .empty (rebuiltStore mixedLog) ∧
    ∃ worker row, (runStatesFromEvents mixedLog).lookup sampleRun = some worker ∧
      (rebuiltStore mixedLog).runs sampleRun = some row ∧
      worker.status = "blocked" ∧ row.status = "running" ∧
      ¬ RebuildAgrees worker row sampleRun (rebuiltStore mixedLog).items := by
  have hworker : ((runStatesFromEvents mixedLog).lookup sampleRun).isSome := by decide
  have hrow : ((rebuiltStore mixedLog).runs sampleRun).isSome := by decide
  refine ⟨mixedLog_onClock, loadAll_mixedLog, rebuilds_rebuiltStore loadAll_mixedLog,
    Option.get _ hworker, Option.get _ hrow, (Option.some_get hworker).symm,
    (Option.some_get hrow).symm, rfl, rfl, fun hagree => ?_⟩
  have hstatus : ("blocked" : String) = "running" := hagree.status
  exact absurd hstatus (by decide)

end SamtaDashboard

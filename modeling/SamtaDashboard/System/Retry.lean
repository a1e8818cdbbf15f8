import SamtaDashboard.System.ReplayAgreement

/-!
# What a retry recovers

`retry_run` decides with the orchestrator's replay, the worker stops at what its own replay says. A
run that a pause or a cancellation stopped is recovered; one that a failed item blocked still looks
running to the orchestrator, and the retry does nothing.
-/

namespace SamtaDashboard

open EventFold Transition

/-! ### Runs stopped by a control operation -/

/-- A pause or a cancellation stops a run, the other events of the run itself do not. -/
def EventPayload.stop? : EventPayload → Option Bool
  | runStarted .. | runCompleted .. => some false
  | runStatusChanged _ status _ => some (status ∈ ["paused", "cancelled"])
  | _ => none

/-- Of the run's `RunStarted`, `RunStatusChanged` and `RunCompleted` events the last one is a change
to `paused` or `cancelled`. -/
def StoppedByControl (ps : List EventPayload) : Prop :=
  lastWrite EventPayload.stop? ps = some true

instance (ps : List EventPayload) : Decidable (StoppedByControl ps) :=
  inferInstanceAs (Decidable (_ = _))

section written

variable {ps : List EventPayload} (hps : ∀ p ∈ ps, p.isWritten)

include hps

theorem lastWrite_stop :
    lastWrite EventPayload.stop? ps = (lastWrite EventPayload.orchestratorStatus? ps).map
      fun status => decide (status ∈ ["paused", "cancelled"]) := by
  rw [← lastWrite_map]
  refine lastWrite_congr fun p hp => ?_
  have hwritten := hps p hp
  cases p <;>
    simp_all [EventPayload.stop?, EventPayload.orchestratorStatus?, EventPayload.isWritten]

theorem orchestratorStatus_mem {status : String}
    (h : lastWrite EventPayload.orchestratorStatus? ps = some status) :
    status ∈ EventPayload.controlStatuses ∨ status = "completed" := by
  obtain ⟨p, hp, hwrite⟩ := lastWrite_mem h
  have hwritten := hps p hp
  cases p <;>
    simp_all [EventPayload.orchestratorStatus?, EventPayload.isWritten, EventPayload.controlStatuses]

/-- A started run is stopped by a control operation if the orchestrator sees it neither running nor
completed. -/
theorem stoppedByControl_iff (hstarted : ∃ p ∈ ps, p.isRunStarted) :
    StoppedByControl ps ↔
      (lastWrite EventPayload.orchestratorStatus? ps).getD "pending" ≠ "running" ∧
        (lastWrite EventPayload.orchestratorStatus? ps).getD "pending" ≠ "completed" := by
  unfold StoppedByControl
  rw [lastWrite_stop hps]
  cases h : lastWrite EventPayload.orchestratorStatus? ps with
  | none =>
    obtain ⟨p, hp, hrunStarted⟩ := hstarted
    have hnone := lastWrite_eq_none.mp h p hp
    cases p <;> simp_all [EventPayload.isRunStarted, EventPayload.orchestratorStatus?]
  | some status =>
    rcases orchestratorStatus_mem hps h with hmem | rfl
    · simp only [EventPayload.controlStatuses, List.mem_cons, List.not_mem_nil, or_false] at hmem
      rcases hmem with rfl | rfl | rfl <;> simp
    · simp

end written

/-! ### The retry -/

section retry

variable {log : EventLog} {r : Uuid} {draws : Draws} {order : List Uuid}

/-- `retry_run` answered `Ok(true)` on a run that the worker's replay had as `before`, appended the
rows that set the run running and assign its uncompleted items, and the worker's replay has it as
`after` now. -/
structure Recovers (log : EventLog) (r : Uuid) (before : RunState)
    (result : Except String (Bool × EventLog)) (rows : List EventEnvelope) (assigned : Assignments)
    (after : RunState) : Prop where
  result : result = .ok (true, log ++ rows)
  run : ∀ e ∈ rows, e.resourceId = r
  consecutive : Consecutive (stream log r).length rows
  payloads : ∃ reason,
    payloads rows = .runStatusChanged r "running" reason :: assigned.payloads r
  nodup : (assigned.map (·.1)).Nodup
  uncompleted : ∀ i, i ∈ assigned.map (·.1) ↔
    ∃ item, before.items.lookup i = some item ∧ item.status ≠ .completed
  replay : (runStatesFromEvents (stream (log ++ rows) r)).lookup r = some after
  status : after.status = "running"
  items : ∀ i, after.items.lookup i = (before.items.lookup i).map fun item =>
    if item.status = .completed then item else ⟨.assigned, item.assignedAgentId⟩

theorem replay_reassigned {events rows : List EventEnvelope} {before after : RunState}
    {reason : Option String} {assigned : Assignments} (hbefore : replayRun events = some before)
    (hafter : replayRun (events ++ rows) = some after)
    (hps : payloads rows = .runStatusChanged r "running" reason :: assigned.payloads r)
    (hnodup : (assigned.map (·.1)).Nodup)
    (huncompleted : ∀ i, i ∈ assigned.map (·.1) ↔
      ∃ item, before.items.lookup i = some item ∧ item.status ≠ .completed)
    (hagents : ∀ x ∈ assigned, before.itemAgent x.1 = some x.2) :
    after.status = "running" ∧ ∀ i, after.items.lookup i = (before.items.lookup i).map fun item =>
      if item.status = .completed then item else ⟨.assigned, item.assignedAgentId⟩ := by
  constructor
  · rw [status_replayRun hafter, payloads_append, lastWrite_append, hps, lastWrite_cons,
      Assignments.lastWrite_eq_none fun _ _ => rfl]
    rfl
  · intro i
    rw [lookup_items_replayRun hafter, payloads_append, lastWrite_append, lastWrite_append, hps,
      lastWrite_cons, lastWrite_cons, Assignments.lastWrite_itemStatus]
    by_cases hi : i ∈ assigned.map (·.1)
    · obtain ⟨x, hx, rfl⟩ := List.mem_map.mp hi
      obtain ⟨item, hlookup, hstatus⟩ := (huncompleted x.1).mp hi
      have hagent := hagents x hx
      rw [RunState.itemAgent, hlookup, Option.bind_some] at hagent
      rw [if_pos hi, Assignments.lastWrite_itemAgent hx hnodup, hlookup, Option.map_some,
        if_neg hstatus, hagent]
      rfl
    · rw [if_neg hi, Assignments.lastWrite_of_not_mem
        (fun _ => EventPayload.itemId?_of_itemAgent?) hi, Option.none_or, Option.none_or]
      show ((lastWrite _ (payloads events)).map fun status =>
        (⟨status, lastWrite _ (payloads events)⟩ : ItemState)) = _
      rw [← lookup_items_replayRun hbefore]
      cases hlookup : before.items.lookup i with
      | none => rfl
      | some item =>
        have hdone : item.status = .completed := by
          by_contra hne
          exact hi ((huncompleted i).mpr ⟨item, hlookup, hne⟩)
        rw [Option.map_some, if_pos hdone]

theorem mem_retryAssignments_iff (hwf : WellFormed log) {before : RunState}
    (hbefore : replayRun (stream log r) = some before)
    (horder : (RunReplayState.fromEvents (stream log r)).workItems.IsOrder order) (i : Uuid) :
    i ∈ (retryAssignments draws order (stream log r)).map (·.1) ↔
      ∃ item, before.items.lookup i = some item ∧ item.status ≠ .completed := by
  rw [map_fst_retryAssignments, mem_map_fst_retriedItems horder,
    lookup_workItems_fromEvents (hwf.written_stream r) hbefore]
  cases before.items.lookup i <;> simp

theorem nodup_retryAssignments
    (horder : (RunReplayState.fromEvents (stream log r)).workItems.IsOrder order) :
    ((retryAssignments draws order (stream log r)).map (·.1)).Nodup := by
  rw [map_fst_retryAssignments, map_fst_retriedItems]
  exact horder.1.filter _

theorem itemAgent_of_mem_retryAssignments (hwf : WellFormed log) {before : RunState}
    (hbefore : replayRun (stream log r) = some before)
    (horder : (RunReplayState.fromEvents (stream log r)).workItems.IsOrder order) {x : Uuid × Uuid}
    (hx : x ∈ retryAssignments draws order (stream log r)) :
    before.itemAgent x.1 = some x.2 := by
  obtain ⟨item, hitem, -⟩ :=
    (mem_retryAssignments_iff hwf hbefore horder x.1).mp (List.mem_map_of_mem hx)
  have hstatus := itemStatus_replayRun hbefore x.1
  rw [RunState.itemStatus, hitem, Option.map_some] at hstatus
  obtain ⟨a, ha⟩ := Option.ne_none_iff_exists'.mp (hwf.itemAgent_ne_none hstatus.symm)
  rw [itemAgent_replayRun hbefore, ha,
    mem_retryAssignments hx ((RunReplayState.itemAgent_fromEvents _ _).trans ha)]

theorem recovers_of_stopped (hwf : WellFormed log) (hrun : RunLog log) {before : RunState}
    (hbefore : replayRun (stream log r) = some before)
    (hitem : ∃ i item, before.items.lookup i = some item ∧ item.status ≠ .completed)
    (horder : (RunReplayState.fromEvents (stream log r)).workItems.IsOrder order)
    (hfresh : draws.FreshIn log
      (1 + (retriedItems order (RunReplayState.fromEvents (stream log r))).length))
    (hstopped : (RunReplayState.fromEvents (stream log r)).status ≠ "running" ∧
      (RunReplayState.fromEvents (stream log r)).status ≠ "completed")
    (hfinite : ∀ e ∈ stream log r, e.payload.costIsFinite = true) :
    ∃ rows assigned after,
      Recovers log r before (retryRun draws order log r) rows assigned after := by
  have hne : stream log r ≠ [] := replayRun_isSome.mp (by rw [hbefore]; rfl)
  let assigned := retryAssignments draws order (stream log r)
  have hfirst : assigned.map (·.1) =
      (retriedItems order (RunReplayState.fromEvents (stream log r))).map (·.1) :=
    map_fst_retryAssignments _
  have huncompleted : ∀ i, i ∈ assigned.map (·.1) ↔
      ∃ item, before.items.lookup i = some item ∧ item.status ≠ .completed :=
    mem_retryAssignments_iff hwf hbefore horder
  have hnodup : (assigned.map (·.1)).Nodup := nodup_retryAssignments horder
  have hsome : retriedItems order (RunReplayState.fromEvents (stream log r)) ≠ [] := by
    obtain ⟨i, hi⟩ := hitem
    have hmem := (huncompleted i).mpr hi
    rw [hfirst] at hmem
    exact fun hnil => by simp [hnil] at hmem
  have hagents : ∀ x ∈ assigned, before.itemAgent x.1 = some x.2 :=
    fun x hx => itemAgent_of_mem_retryAssignments hwf hbefore horder hx
  -- the operation answers and appends
  have hps : retryPayloads draws order r (stream log r) =
      some (.runStatusChanged r "running" (some "manual retry") :: assigned.payloads r) :=
    retryPayloads_eq_some.mpr ⟨hstopped.1, hstopped.2, hsome, rfl⟩
  have hok : retryRun draws order log r = .ok (true, log ++ newEvents draws r
      ((stream log r).length + 1) (.runStatusChanged r "running" (some "manual retry") ::
        assigned.payloads r)) := by
    refine hwf.gapFree.control_eq_ok.mpr ⟨hfinite, hne, ?_⟩
    rw [hps]
    refine ⟨rfl, ?_, rfl⟩
    have hlength : (assigned.payloads r).length =
        (retriedItems order (RunReplayState.fromEvents (stream log r))).length := by
      rw [Assignments.payloads, List.length_map, ← List.length_map (f := Prod.fst), hfirst,
        List.length_map]
    rwa [List.length_cons, hlength, Nat.add_comm]
  obtain ⟨-, hretried⟩ := (retryRun_spec hwf hok).resolve_left (by simp)
  -- the worker's replay of the longer stream
  have hstream : stream (log ++ newEvents draws r ((stream log r).length + 1)
      (.runStatusChanged r "running" (some "manual retry") :: assigned.payloads r)) r =
      stream log r ++ newEvents draws r ((stream log r).length + 1)
        (.runStatusChanged r "running" (some "manual retry") :: assigned.payloads r) := by
    rw [stream_append, stream_rows fun _ => resourceId_newEvents, if_pos rfl]
  obtain ⟨after, hafter⟩ := Option.isSome_iff_exists.mp (replayRun_isSome.mpr
    (List.append_ne_nil_of_left_ne_nil hne (newEvents draws r ((stream log r).length + 1)
      (.runStatusChanged r "running" (some "manual retry") :: assigned.payloads r))))
  obtain ⟨hstatus, hitems⟩ := replay_reassigned hbefore hafter (payloads_newEvents ..) hnodup
    huncompleted hagents
  exact ⟨_, assigned, after, {
    result := hok
    run := fun _ => resourceId_newEvents
    consecutive := consecutive_newEvents ..
    payloads := ⟨_, payloads_newEvents ..⟩
    nodup := hnodup
    uncompleted := huncompleted
    replay := by rw [(hrun.change hwf (.retry r hretried)).lookup_stream, hstream, hafter]
    status := hstatus
    items := hitems }⟩

/-- In every log of a history: a retry of a run with an uncompleted item, whatever status the worker
sees, recovers the run exactly if a control operation stopped it and its stream can be read. -/
theorem retryRun_recovers_iff (h : Reachable history log) {before : RunState}
    (hbefore : (runStatesFromEvents (stream log r)).lookup r = some before)
    (hitem : ∃ i item, before.items.lookup i = some item ∧ item.status ≠ .completed)
    (horder : (RunReplayState.fromEvents (stream log r)).workItems.IsOrder order)
    (hfresh : draws.FreshIn log
      (1 + (retriedItems order (RunReplayState.fromEvents (stream log r))).length)) :
    (∃ rows assigned after,
        Recovers log r before (retryRun draws order log r) rows assigned after) ↔
      StoppedByControl (payloads (stream log r)) ∧
        ∀ e ∈ stream log r, e.payload.costIsFinite = true := by
  have hwf := history_wellFormed h
  have hrun := history_runLog h
  rw [hrun.lookup_stream] at hbefore
  have hne : stream log r ≠ [] := replayRun_isSome.mp (by rw [hbefore]; rfl)
  have hstarted : ∃ p ∈ payloads (stream log r), p.isRunStarted := by
    obtain ⟨started, rest, w, o, hcons, hp⟩ := hrun.exists_runStarted hne
    exact ⟨started.payload, by simp [hcons], by rw [hp]; rfl⟩
  rw [stoppedByControl_iff (hwf.written_stream r) hstarted, ← RunReplayState.status_fromEvents]
  constructor
  · rintro ⟨rows, assigned, after, hrec⟩
    obtain ⟨hfinite, -, hdecide⟩ := hwf.gapFree.control_eq_ok.mp hrec.result
    cases hps : retryPayloads draws order r (stream log r) with
    | none =>
      rw [hps] at hdecide
      cases hdecide.1
    | some ps =>
      obtain ⟨hrunning, hcompleted, -, -⟩ := retryPayloads_eq_some.mp hps
      exact ⟨⟨hrunning, hcompleted⟩, hfinite⟩
  · rintro ⟨hcontrol, hfinite⟩
    exact recovers_of_stopped hwf hrun hbefore hitem horder hfresh hcontrol hfinite

end retry

def pausedLog : EventLog := logAfter (pauseRun (.counting sampleRun 300) (startedLog 1) sampleRun)

theorem pausedLog_reachable : Reachable history pausedLog :=
  .step (.pauseRun (.counting sampleRun 300) sampleRun) startedLog_one_reachable ⟨true, rfl⟩ trivial

theorem retryRun_recovers_pausedLog :
    ∃ before, (runStatesFromEvents (stream pausedLog sampleRun)).lookup sampleRun = some before ∧
      before.status = "paused" ∧
      ((∃ rows assigned after, Recovers pausedLog sampleRun before
          (retryRun (.counting sampleRun 400) [⟨10⟩] pausedLog sampleRun) rows assigned after) ↔
        StoppedByControl (payloads (stream pausedLog sampleRun)) ∧
          ∀ e ∈ stream pausedLog sampleRun, e.payload.costIsFinite = true) := by
  have hsome : ((runStatesFromEvents (stream pausedLog sampleRun)).lookup sampleRun).isSome := by
    decide
  refine ⟨Option.get _ hsome, (Option.some_get hsome).symm, rfl,
    retryRun_recovers_iff pausedLog_reachable (Option.some_get hsome).symm
      ⟨⟨10⟩, ⟨.assigned, some ⟨20⟩⟩, rfl, by decide⟩ ⟨by decide, fun i => ?_⟩
      ⟨by decide, by decide⟩⟩
  rw [AList.mem_keys]
  exact Iff.rfl

/-- A run that a failed item blocked is not recovered: the retry answers `Ok(false)`. -/
theorem retryRun_failedLog :
    Reachable history failedLog ∧
    ∃ before, (runStatesFromEvents (stream failedLog sampleRun)).lookup sampleRun = some before ∧
      before.status = "blocked" ∧ before.items.lookup ⟨10⟩ = some ⟨.failed, some ⟨20⟩⟩ ∧
      (RunReplayState.fromEvents (stream failedLog sampleRun)).workItems.IsOrder [⟨10⟩] ∧
      (Draws.counting sampleRun 400).FreshIn failedLog 2 ∧
      retryRun (.counting sampleRun 400) [⟨10⟩] failedLog sampleRun = .ok (false, failedLog) ∧
      ¬ ∃ rows assigned after, Recovers failedLog sampleRun before
          (retryRun (.counting sampleRun 400) [⟨10⟩] failedLog sampleRun) rows assigned after := by
  have hsome : ((runStatesFromEvents (stream failedLog sampleRun)).lookup sampleRun).isSome := by
    decide
  have hanswer : retryRun (.counting sampleRun 400) [⟨10⟩] failedLog sampleRun =
      .ok (false, failedLog) :=
    (history_wellFormed failedLog_reachable).gapFree.control_eq_ok.mpr
      ⟨by decide, List.ne_nil_of_length_pos (by decide), ⟨rfl, rfl⟩⟩
  refine ⟨failedLog_reachable, Option.get _ hsome, (Option.some_get hsome).symm, rfl, rfl,
    ⟨by decide, fun i => ?_⟩, ⟨by decide, by decide⟩, hanswer, ?_⟩
  · rw [AList.mem_keys]
    exact Iff.rfl
  · rintro ⟨rows, assigned, after, hrec⟩
    rw [hanswer] at hrec
    cases hrec.result

end SamtaDashboard

import SamtaDashboard.System.Finishes
import SamtaDashboard.System.Projections
import SamtaDashboard.System.ReadCut

/-!
# A run from its creation to its end, seen through the API

`create_run` and the ticks of the workers act on the log as they do in a history of the log
(`serviceStep_history`), so a created run that is left to the workers finishes as there. What they leave in
the tables is what `run_status` answers: the run is completed with all its items, or it is blocked with an
item that failed (`createdRun_finishes`).
-/

namespace SamtaDashboard

open EventFold Transition

/-! ### The service and the log -/

/-- What an operation of the service does to the log. -/
def ServiceOperation.operation : ServiceOperation → Operation
  | .createRun draws _ request => .startRun draws request.workspaceId request.objective
      (request.targetItemCount.filter (0 < ·)) (request.agentCount.filter (0 < ·))
  | .pauseRun draws _ runId => .pauseRun draws runId
  | .resumeRun draws _ runId => .resumeRun draws runId
  | .cancelRun draws _ runId => .cancelRun draws runId
  | .retryRun draws order _ runId => .retryRun draws order runId
  | .tick input events => .tick input events

section simulation

variable {db db' : Db} {draws : Draws} {now : Time} {r : Uuid}

theorem log_runAction {status : String} {workspaceId : Option Uuid} {changed : Bool}
    {response : RunActionResponse}
    (h : runAction r status workspaceId now changed db = (.ok response, db')) : db'.log = db.log := by
  rcases runAction_ok h with ⟨-, rfl⟩ | ⟨-, hlog, -⟩
  · rfl
  · exact hlog

theorem log_controlHandler {operation : Draws → EventLog → Uuid → Except String (Bool × EventLog)}
    {status : String} {response : RunActionResponse}
    (h : controlHandler operation status draws now r db = (.ok response, db')) :
    ∃ changed, operation draws db.log r = .ok (changed, db'.log) := by
  unfold controlHandler at h
  split at h
  · cases h
  · next changed log hok => exact ⟨changed, by rw [hok, log_runAction h]⟩

theorem log_retryRunHandler {order : List Uuid} {response : RunActionResponse}
    (h : retryRunHandler draws order now r db = (.ok response, db')) :
    ∃ changed, retryRun draws order db.log r = .ok (changed, db'.log) := by
  unfold retryRunHandler at h
  split at h
  · cases h
  · next log hok => exact ⟨false, by rw [hok, log_runAction h]⟩
  · next log hok =>
    split at h
    · cases h
    · exact ⟨true, by rw [hok, log_runAction h]⟩

theorem TickInput.log_tick (input : TickInput) (events : List EventEnvelope)
    {db db' : Db} (h : db.log = db'.log) : (input.tick events db).log = (input.tick events db').log := by
  have hvisit : ∀ (db db' : Db) (r : Uuid), db.log = db'.log →
      (input.visitRun (runStatesFromEvents events) db r).log =
        (input.visitRun (runStatesFromEvents events) db' r).log := by
    intro db db' r h
    unfold visitRun
    split
    · exact h
    · dsimp only
      rw [h]
      split
      · exact h
      · split
        · exact h
        · rfl
  unfold tick
  generalize input.runOrder = runs
  induction runs generalizing db db' with
  | nil => exact h
  | cons r runs ih => exact ih (hvisit db db' r h)

theorem serviceStep_history {operation : ServiceOperation} (h : serviceStep db operation db') :
    historyStep db.log operation.operation db'.log := by
  cases operation with
  | createRun draws now request =>
    obtain ⟨hnew, h⟩ := h
    refine ⟨hnew, ?_⟩
    unfold createRun at h
    split at h
    · cases h
    · next id log hok =>
      cases h
      exact hok
  | pauseRun draws now r | resumeRun draws now r | cancelRun draws now r =>
    obtain ⟨response, h⟩ := h
    exact log_controlHandler h
  | retryRun draws order now r =>
    obtain ⟨horder, response, h⟩ := h
    exact ⟨horder, log_retryRunHandler h⟩
  | tick input events =>
    obtain ⟨hload, horders, rfl⟩ := h
    exact ⟨hload, horders, input.log_tick events rfl⟩

end simulation

/-- The clock of the service does not run backwards. -/
def ServiceOperation.OnClock (db : Db) (operation : ServiceOperation) : Prop :=
  operation.operation.OnClock db.log

/-- The operation leaves run `r` to workers without affinity. -/
def ServiceOperation.LeavesTo (r : Uuid) (db : Db) (operation : ServiceOperation) : Prop :=
  operation.operation.LeavesTo r db.log

def ServiceOperation.gain (operation : ServiceOperation) : Nat := operation.operation.gain

theorem service_history {db : Db} (h : Reach service ServiceOperation.OnClock db) :
    Reach history Operation.OnClock db.log :=
  h.simulate Db.log ServiceOperation.operation (by rintro db rfl; rfl)
    (fun _ _ _ => serviceStep_history) fun _ _ => id

/-! ### A new run -/

section created

variable {log log' : EventLog} {draws : Draws} {workspaceId : Uuid}

/-- A run that was just started waits for the workers, with an item for each event after the first. -/
theorem Started.waits (h : Started log log' draws workspaceId) (hwf : WellFormed log')
    (hworkspace : workspaceId.isNil = false) :
    ∃ before, replayRun (stream log' draws.resource) = some before ∧ Waits before ∧
      before.assignedItems.card + 1 ≤ (stream log' draws.resource).length ∧
      2 ≤ (stream log' draws.resource).length ∧
      (payloads (stream log' draws.resource)).countP (·.isRunCompleted) = 0 ∧
      ∀ i, before.itemStatus i ≠ none ↔
        ∃ e ∈ stream log' draws.resource, e.payload.itemId? = some i := by
  obtain ⟨rows, objective, target, agents, happ, hps⟩ := h.appended
  have hstream : payloads (stream log' draws.resource) = .runStarted workspaceId objective ::
      (plannedAssignments draws objective target agents).payloads draws.resource := by
    rw [happ.payloads_stream, if_pos rfl, h.new.1, payloads_nil, List.nil_append, hps,
      startRunPayloads_eq]
  have hassigned := plannedAssignments_ne_nil draws objective target agents
  generalize plannedAssignments draws objective target agents = assigned at hstream hassigned
  have hlength : (stream log' draws.resource).length = assigned.length + 1 := by
    rw [← List.length_map (f := (·.payload)), ← payloads, hstream, List.length_cons,
      Assignments.payloads, List.length_map]
  have hpos : 0 < assigned.length := List.length_pos_of_ne_nil hassigned
  obtain ⟨before, hbefore⟩ := Option.isSome_iff_exists.mp
    (replayRun_isSome.mpr (List.ne_nil_of_length_pos (by omega : 0 < (stream log' draws.resource).length)))
  have hstatus : ∀ i, before.itemStatus i =
      if i ∈ assigned.map (·.1) then some .assigned else none := fun i => by
    rw [itemStatus_replayRun hbefore, hstream, lastWrite_cons, Assignments.lastWrite_itemStatus]
    exact Option.or_none
  have hitems : before.assignedItems = (assigned.map (·.1)).toFinset := by
    ext i
    rw [RunState.mem_assignedItems, hstatus, List.mem_toFinset]
    split <;> simp_all
  refine ⟨before, hbefore, ⟨?_, ?_⟩, ?_, by omega, ?_, fun i => ?_⟩
  · have hworkspaceId : before.workspaceId = workspaceId := by
      rw [workspaceId_replayRun hbefore, hstream, lastWrite_cons,
        Assignments.lastWrite_eq_none fun _ _ => rfl]
      rfl
    have hrunning : before.status = "running" := by
      rw [status_replayRun hbefore, hstream, lastWrite_cons,
        Assignments.lastWrite_eq_none fun _ _ => rfl]
      rfl
    obtain ⟨x, hx⟩ := List.exists_mem_of_ne_nil _ hassigned
    have hx' := hstatus x.1
    rw [if_pos (List.mem_map_of_mem hx)] at hx'
    obtain ⟨item, hitem, -⟩ := Option.map_eq_some_iff.mp hx'
    refine LoopConfig.skips_eq_false.mpr ⟨hworkspaceId ▸ hworkspace, hrunning, ?_⟩
    exact List.isEmpty_eq_false_iff.mpr
      (List.ne_nil_of_mem (HashMap.mem_values.mpr ⟨x.1, hitem⟩))
  · intro i status hi
    rw [hstatus] at hi
    split at hi
    · exact Or.inl (Option.some.inj hi).symm
    · cases hi
  · have hcard := List.toFinset_card_le (assigned.map (·.1))
    rw [List.length_map] at hcard
    rw [hitems]
    omega
  · rw [hstream, List.countP_cons_of_neg (by simp [EventPayload.isRunCompleted]), List.countP_eq_zero]
    intro p hp
    obtain ⟨x, -, rfl⟩ := Assignments.mem_payloads hp
    simp [EventPayload.isRunCompleted]
  · rw [itemStatus_replayRun hbefore]
    constructor
    · intro hne
      obtain ⟨status, hstatus⟩ := Option.ne_none_iff_exists'.mp hne
      exact exists_itemId?_of_lastWrite (fun _ => EventPayload.itemId?_of_itemStatus?) hstatus
    · rintro ⟨e, he, hi⟩
      exact hwf.lastWrite_ne_none he hi (by simp [EventPayload.itemStatus?])

end created

/-! ### What `run_status` answers -/

/-- A finished run as the API shows it, with the events that its creation has appended. -/
structure SeenFinished (created : List EventEnvelope) (response : RunStatusResponse) : Prop where
  length : response.timeline.length + 2 ≤ 4 * created.length
  outcome : response.status = "completed" ∧
      (∀ i, (∃ e ∈ created, e.payload.itemId? = some i) ↔
        ∃ item ∈ response.workItems, item.itemId = i) ∧
      (∀ item ∈ response.workItems, item.status = .completed) ∧
      response.timeline.countP (·.eventType = "run_completed") = 1 ∨
    response.status = "blocked" ∧ (∃ item ∈ response.workItems, item.status = .failed) ∧
      response.timeline.countP (·.eventType = "run_completed") = 0

section seen

variable {db : Db} {r : Uuid} {before after : RunState} {created rows : List EventEnvelope}
  {response : RunStatusResponse}

theorem countP_run_completed (events : List EventEnvelope) :
    (events.map fun e => TimelineEventResponse.ofRow (.ofEnvelope e)).countP
      (·.eventType = "run_completed") = (payloads events).countP (·.isRunCompleted) := by
  rw [payloads, List.countP_map, List.countP_map]
  refine List.countP_congr fun e _ => ?_
  simp only [Function.comp_apply, TimelineEventResponse.ofRow, EventRow.ofEnvelope,
    EventEnvelope.eventType]
  cases e.payload <;> simp [EventPayload.eventType, EventType.asStr, EventPayload.isRunCompleted]

theorem ItemRows.lookup (h : ItemRows db) (horder : InOrder db.log r)
    (hafter : replayRun (stream db.log r) = some after) {i : Uuid} {status : ItemStatus}
    (hi : after.itemStatus i = some status) (hstatus : status ≠ .assigned) :
    ∃ agent, db.store.items i = some ⟨i, r, status, agent⟩ := by
  rw [itemStatus_replayRun hafter] at hi
  exact ⟨_, h.current r horder i status hi hstatus⟩

theorem ItemRows.known (h : ItemRows db) (hwf : WellFormed db.log)
    (hafter : replayRun (stream db.log r) = some after) {i : Uuid} {row : WorkItemProjection}
    (hrow : db.store.items i = some row) (hrun : row.runId = r) :
    ∃ status, after.itemStatus i = some status := by
  obtain ⟨-, e, he, hitem⟩ := h.executed i row hrow
  refine Option.ne_none_iff_exists'.mp ?_
  rw [itemStatus_replayRun hafter]
  exact hwf.lastWrite_ne_none (hrun ▸ he) hitem (by simp [EventPayload.itemStatus?])

theorem RunRows.lookup (h : RunRows db) (horder : InOrder db.log r)
    (hafter : replayRun (stream db.log r) = some after) (hstatus : after.status ≠ "pending") :
    ∃ row, db.store.runs r = some row ∧ row.runId = r ∧ row.status = after.status := by
  have hrow := h.status r horder
  rw [status_replayRun hafter] at hstatus ⊢
  cases hlast : lastWrite EventPayload.workerStatus? (payloads (stream db.log r)) with
  | none =>
    rw [hlast] at hstatus
    exact absurd rfl hstatus
  | some status =>
    rw [hlast] at hrow
    obtain ⟨row, hlookup, hrow⟩ := Option.map_eq_some_iff.mp hrow
    exact ⟨row, hlookup, h.keyed r row hlookup, hrow⟩

theorem seenFinished_of_finished (hfinished : Finished before (payloads rows) after)
    (hknown : ∀ i, before.itemStatus i ≠ none ↔ ∃ e ∈ created, e.payload.itemId? = some i)
    (hlength : before.assignedItems.card + 1 ≤ created.length)
    (hnew : (payloads created).countP (·.isRunCompleted) = 0)
    (htimeline : response.timeline = (created ++ rows).map fun e => .ofRow (.ofEnvelope e))
    (hstatus : response.status = after.status)
    (hshown : ∀ i status, after.itemStatus i = some status → status ≠ .assigned →
      ∃ item ∈ response.workItems, item.itemId = i ∧ item.status = status)
    (hitems : ∀ item ∈ response.workItems, ∃ status, after.itemStatus item.itemId = some status ∧
      (status ≠ .assigned → item.status = status)) : SeenFinished created response := by
  have hcompletions : response.timeline.countP (·.eventType = "run_completed") =
      (payloads rows).countP (·.isRunCompleted) := by
    rw [htimeline, countP_run_completed, payloads_append, List.countP_append, hnew, Nat.zero_add]
  constructor
  · have hrows := hfinished.length
    rw [payloads, List.length_map] at hrows
    rw [htimeline, List.length_map, List.length_append]
    omega
  rcases hfinished.outcome with ⟨hdone, hall, hcount, -⟩ | ⟨hblocked, ⟨i, -, hi⟩, hcount, -⟩
  · refine Or.inl ⟨hstatus.trans hdone, fun i => ?_, fun item hitem => ?_, hcompletions.trans hcount⟩
    · rw [← hknown]
      constructor
      · intro hne
        obtain ⟨status, hbefore⟩ := Option.ne_none_iff_exists'.mp hne
        have hi := hall i
        rw [hbefore, Option.map_some] at hi
        obtain ⟨item, hitem, hid, -⟩ := hshown i _ hi (by decide)
        exact ⟨item, hitem, hid⟩
      · rintro ⟨item, hitem, rfl⟩ hnone
        obtain ⟨status, hi, -⟩ := hitems item hitem
        rw [hall, hnone] at hi
        cases hi
    · obtain ⟨status, hi, hsame⟩ := hitems item hitem
      rw [hall] at hi
      obtain ⟨-, -, rfl⟩ := Option.map_eq_some_iff.mp hi
      exact hsame (by decide)
  · obtain ⟨item, hitem, -, hfailed⟩ := hshown i _ hi (by decide)
    exact Or.inr ⟨hstatus.trans hblocked, ⟨item, hitem, hfailed⟩, hcompletions.trans hcount⟩

theorem runStatus_seenFinished (hwf : WellFormed db.log) (hrows : RunRows db) (hitems : ItemRows db)
    (horder : InOrder db.log r) (hstream : stream db.log r = created ++ rows)
    (hafter : replayRun (stream db.log r) = some after)
    (hfinished : Finished before (payloads rows) after)
    (hknown : ∀ i, before.itemStatus i ≠ none ↔ ∃ e ∈ created, e.payload.itemId? = some i)
    (hlength : before.assignedItems.card + 1 ≤ created.length)
    (hnew : (payloads created).countP (·.isRunCompleted) = 0) {seen : Statements} {view : DbView}
    (hseen : ∀ k < 5, seen k = .ok view) (hview : view.Shows db.log db.store) (fuel : Nat) :
    ∃ response, runStatus (fuel + 1) seen r = .ok response ∧ response.costEffortHistory.isSome ∧
      SeenFinished created response := by
  have hpending : after.status ≠ "pending" := by
    rcases hfinished.outcome with ⟨hstatus, -⟩ | ⟨hstatus, -⟩ <;> rw [hstatus] <;> decide
  obtain ⟨row, hrow, rfl, hstatus⟩ := hrows.lookup horder hafter hpending
  have hanswer := runStatus_eq hseen (fuel + 1) row.runId
  rw [hview.find?_runs hrows.keyed, hrow, hview.log] at hanswer
  have htimeline := (hwf.gapFree row.runId).timelineRows_eq
  refine ⟨_, hanswer, ?_, seenFinished_of_finished hfinished hknown hlength hnew ?_ hstatus ?_ ?_⟩
  · show (buildCostEffortHistory (fuel + 1) (timelineRows db.log row.runId)).isSome
    rw [htimeline]
    exact buildCostEffortHistory_isSome fuel _
  · show (timelineRows db.log row.runId).map _ = _
    rw [htimeline, List.map_map, hstream]
    rfl
  · intro i status hi hne
    obtain ⟨agent, hitem⟩ := hitems.lookup horder hafter hi hne
    have hmem := (hview.items ⟨i, row.runId, status, agent⟩).mpr hitem
    exact ⟨_, List.mem_filter.mpr ⟨hmem, decide_eq_true rfl⟩, rfl, rfl⟩
  · intro item hitem
    obtain ⟨hmem, hrun⟩ := List.mem_filter.mp hitem
    have hlookup := (hview.items item).mp hmem
    obtain ⟨status, hi⟩ := hitems.known hwf hafter hlookup (of_decide_eq_true hrun)
    refine ⟨status, hi, fun hne => ?_⟩
    obtain ⟨agent, hsame⟩ := hitems.lookup horder hafter hi hne
    rw [hlookup] at hsame
    rw [Option.some.inj hsame]

end seen

/-- A run that `create_run` has created, on a clock that does not run backwards and in a workspace with an
id, is seen finished after operations that leave it to workers without affinity, as soon as the bounds of
their ticks add up to the number of its items: `run_status` ends, with a cost history, and answers that the
run is completed with all its items, once, or that it is blocked with an item that failed. -/
theorem createdRun_finishes {db₀ base db : Db} {draws : Draws} {now : Time}
    {request : CreateRunRequest} {n : Nat} (h : Reach service ServiceOperation.OnClock db₀)
    (hcreate : serviceStep db₀ (.createRun draws now request) base) (hclock : draws.OnClock db₀.log)
    (hworkspace : request.workspaceId.isNil = false)
    (hrun : Drains service
      (fun db operation => operation.OnClock db ∧ operation.LeavesTo draws.resource db)
      (fun _ => ServiceOperation.gain) base n db)
    (hn : (stream base.log draws.resource).length ≤ n + 1) {seen : Statements} {view : DbView}
    (hseen : ∀ k < 5, seen k = .ok view) (hview : view.Shows db.log db.store) (fuel : Nat) :
    ∃ response, runStatus (fuel + 1) seen draws.resource = .ok response ∧
      response.costEffortHistory.isSome ∧
      SeenFinished (stream base.log draws.resource) response := by
  have hbase : Reach service ServiceOperation.OnClock base :=
    .step (.createRun draws now request) h hcreate hclock
  have hdb : Reach service ServiceOperation.OnClock db :=
    hrun.invariant hbase fun db operation db' hdb hstep hguard =>
      .step operation hdb hstep hguard.1
  have hlog : historyStep db₀.log (.startRun draws request.workspaceId request.objective
    (request.targetItemCount.filter (0 < ·)) (request.agentCount.filter (0 < ·))) base.log :=
    serviceStep_history hcreate
  have hstarted : Started db₀.log base.log draws request.workspaceId :=
    (startRun_spec (service_tables h.reachable).1 hlog.1 hlog.2).2
  obtain ⟨before, hbefore, hwaits, hcard, hlength, hnew, hknown⟩ :=
    hstarted.waits (service_tables hbase.reachable).1 hworkspace
  have hdrains : Drains history
      (fun log operation => operation.OnClock log ∧ operation.LeavesTo draws.resource log)
      (fun _ => Operation.gain) base.log n db.log :=
    hrun.simulate Db.log ServiceOperation.operation (fun _ _ _ => serviceStep_history)
      (fun _ _ => id) fun _ _ => rfl
  obtain ⟨rows, after, hstream, hafter, hfinished, hreach⟩ :=
    hwaits.finishes (service_history hbase) hbefore hdrains (by omega)
  obtain ⟨hwf, -, hrows, hitems⟩ := service_tables hdb.reachable
  exact runStatus_seenFinished hwf hrows hitems ((timeOrdered_of_onClock hreach).inOrder _) hstream
    hafter hfinished hknown hcard hnew hseen hview fuel

/-! ### A run with three items -/

def finishedDb : Db :=
  tickedDb (sampleExecutor []) 300 (tickedDb (sampleExecutor []) 200 (createdDb 3))

theorem tickedDb_drains {base db : Db} {n : Nat} (time : Nat)
    (h : Drains service
      (fun db operation => operation.OnClock db ∧ operation.LeavesTo sampleRun db)
      (fun _ => ServiceOperation.gain) base n db)
    (hruns : (runStatesFromEvents db.log).keys = [sampleRun]) (hsorted : db.log.Pairwise timeLe)
    (hfinite : ∀ e ∈ db.log, e.payload.costIsFinite = true)
    (htime : ∀ e ∈ db.log, e.occurredAt ≤ (countingStamp time 0).now)
    (hids : (TickInput.ofKeys (sampleWorker (sampleExecutor [])) (fun _ => countingStamp time)
      db.log).NewIds db.log db.log) :
    Drains service
      (fun db operation => operation.OnClock db ∧ operation.LeavesTo sampleRun db)
      (fun _ => ServiceOperation.gain) base (n + 2) (tickedDb (sampleExecutor []) time db) := by
  have hvisits : (runStatesFromEvents db.log).keys.Pairwise fun _ _ =>
      ∀ k, (countingStamp time k).now ≤ (countingStamp time 0).now := by
    rw [hruns]
    exact List.pairwise_singleton ..
  let operation : ServiceOperation := .tick
    (.ofKeys (sampleWorker (sampleExecutor [])) (fun _ => countingStamp time) db.log) db.log
  have hstep : service.step db operation (tickedDb (sampleExecutor []) time db) :=
    ⟨loadAll_eq_ok.mpr ⟨⟨.refl _, hsorted⟩, hfinite⟩, TickInput.ofKeys_orders _ _ _, rfl⟩
  have hclock : operation.OnClock db :=
    ⟨fun _ _ => countingStamp_monotone time, hvisits, fun _ _ => htime⟩
  exact .step operation h hstep ⟨hclock, rfl, hids⟩

theorem createdRun_finishes_finishedDb : ∃ response,
    runStatus 1 (fun _ => .ok (.of finishedDb.log finishedDb.store)) sampleRun = .ok response ∧
      response.costEffortHistory.isSome ∧ SeenFinished (stream (createdDb 3).log sampleRun) response ∧
      response.status = "completed" ∧ response.workItems.length = 3 := by
  let create : ServiceOperation :=
    .createRun (.counting sampleRun 100) 100 ⟨sampleWorkspace, "", some 3, some 1⟩
  have hcreate : serviceStep .empty create (createdDb 3) := ⟨⟨rfl, by simp [Db.empty]⟩, rfl⟩
  have hfirst := tickedDb_drains 200 (.refl (s := createdDb 3)) (by decide) (by decide) (by decide)
    (by decide) ⟨by decide, by decide⟩
  have hsecond : Drains service
      (fun db operation => operation.OnClock db ∧ operation.LeavesTo sampleRun db)
      (fun _ => ServiceOperation.gain) (createdDb 3) 4 finishedDb :=
    tickedDb_drains 300 hfirst (by decide) (by decide) (by decide) (by decide) ⟨by decide, by decide⟩
  have hreach : Reachable service finishedDb := hsecond.invariant
    (.step create (.init rfl) hcreate trivial) fun _ operation _ hdb hstep _ => .step operation hdb hstep trivial
  have hview := (service_backed hreach).shows (service_tables hreach).2.2.1.keyed
  have hvalues : (runStatus 1 (fun _ => .ok (.of finishedDb.log finishedDb.store)) sampleRun).toOption.map
      (fun response => (response.status, response.workItems.length)) = some ("completed", 3) := by
    decide +kernel
  obtain ⟨response, hresponse, hhistory, hseen⟩ := createdRun_finishes (.init rfl) hcreate
    ⟨countingStamp_monotone 100, by simp [Db.empty]⟩ rfl hsecond (by decide) (fun _ _ => rfl) hview 0
  change runStatus _ _ sampleRun = _ at hresponse
  rw [hresponse] at hvalues
  obtain ⟨hstatus, hitems⟩ := Prod.mk.inj (Option.some.inj hvalues)
  exact ⟨response, hresponse, hhistory, hseen, hstatus, hitems⟩

end SamtaDashboard

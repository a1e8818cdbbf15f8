import SamtaDashboard.Application.ItemLoop
import SamtaDashboard.System.Clock
import SamtaDashboard.System.ReplayAgreement

/-!
# Running runs that do not go on

A worker advances the assigned items of a running run and records the completion of the run when all
of them are completed. A failed item blocks the run, and a retry assigns it anew before it sets the
run running. `resume_run` sets the run running whatever the state of its items is, and then no tick
appends anything.

Without such a resumption, and on a clock that does not run backwards, every running run can go on
(`running_goes_on`).
-/

namespace SamtaDashboard

open EventFold Transition

/-! ### A tick that finds something to do -/

section batch

variable {config : LoopConfig} {stamp : Nat → Stamp} {order : List Uuid} {r : Uuid}
  {state : RunState}

theorem Outcome.payloads_ne_nil (worker : Worker) (r itemId : Uuid) (outcome : Outcome) :
    outcome.payloads worker r itemId ≠ [] := by
  cases outcome with
  | error message => exact List.cons_ne_nil _ _
  | ok result =>
    unfold Outcome.payloads
    dsimp only
    split <;> exact List.cons_ne_nil _ _

namespace LoopConfig

theorem itemLoop_of_none {s : LoopState} (h : config.nextItem order s.state = none)
    (remaining : Nat) : config.itemLoop stamp order r remaining s = s := by
  cases remaining with
  | zero => rfl
  | succ remaining => rw [itemLoop, h]

theorem advanceRun_ne_nil_of_assigned (hskips : skips state = false)
    (horder : state.items.IsOrder order) (haffinity : config.itemAffinity = false)
    (hmax : 1 ≤ config.maxItemsPerLoop)
    (hitem : ∃ i item, state.items.lookup i = some item ∧ item.status = .assigned) :
    (config.advanceRun stamp order r state).2 ≠ [] := by
  obtain ⟨i, item, hlookup, hstatus⟩ := hitem
  have heligible : config.eligible item :=
    eligible_iff.mpr ⟨hstatus, fun h => absurd (haffinity.symm.trans h) Bool.false_ne_true⟩
  have hcount : 0 < state.items.values.countP config.eligible :=
    List.countP_pos_iff.mpr ⟨item, HashMap.mem_values.mpr ⟨i, hlookup⟩, heligible⟩
  have hlength : (config.executions stamp order r config.maxItemsPerLoop (enterRun state)).length =
      min config.maxItemsPerLoop (state.items.values.countP config.eligible) :=
    length_executions horder
  obtain ⟨summary, hadv⟩ := config.advanceRun_spec stamp order r hskips
  intro hnil
  have hpayloads := hadv.payloads
  rw [hnil] at hpayloads
  generalize config.executions stamp order r config.maxItemsPerLoop (enterRun state) = executed
    at hlength hpayloads
  cases executed with
  | nil =>
    rw [List.length_nil] at hlength
    omega
  | cons x executed =>
    rw [executedPayloads_cons, List.append_assoc] at hpayloads
    exact x.2.payloads_ne_nil _ _ _ (List.append_eq_nil_iff.mp hpayloads.symm).1

theorem advanceRun_ne_nil_of_completed (hskips : skips state = false)
    (hall : state.allItemsCompleted) : (config.advanceRun stamp order r state).2 ≠ [] := by
  have hnext : config.nextItem order (enterRun state).state = none := by
    refine List.find?_eq_none.mpr fun i _ hany => ?_
    obtain ⟨item, hlookup, heligible⟩ := (Option.any_eq_true _ _).mp hany
    have hstatus : state.itemStatus i = some item.status := by
      rw [RunState.itemStatus, show state.items.lookup i = some item from hlookup, Option.map_some]
    have hdone := (RunState.allItemsCompleted_iff.mp hall).2 i item.status hstatus
    rw [(eligible_iff.mp heligible).1] at hdone
    cases hdone
  have hrunning := (skips_eq_false.mp hskips).2.1
  have hopen : (enterRun state).state.status ≠ "completed" := by
    rw [show (enterRun state).state.status = "running" from hrunning]
    decide
  rw [advanceRun, if_neg (by simp [hskips]), itemLoop_of_none hnext, finishRun, if_pos ⟨hall, hopen⟩]
  exact List.append_ne_nil_of_right_ne_nil _ (List.cons_ne_nil _ _)

end LoopConfig

end batch

/-! ### What a tick adds to a stream -/

def TickInput.batch (input : TickInput) (runStates : HashMap RunState) (r : Uuid) :
    List EventEnvelope :=
  match runStates.lookup r with
  | none => []
  | some state => (input.config.advanceRun (input.stamp r) (input.itemOrder r) r state).2

/-- The events that a tick makes, after `load_all` gave `events`, have new and different ids. -/
structure TickInput.NewIds (input : TickInput) (events : List EventEnvelope) (log : EventLog) :
    Prop where
  fresh : ∀ r ∈ input.runOrder, ∀ b ∈ input.batch (runStatesFromEvents events) r, ∀ e ∈ log,
    e.id ≠ b.id
  distinct : ((input.runOrder.flatMap (input.batch (runStatesFromEvents events))).map (·.id)).Nodup

section tick

variable {input : TickInput} {runStates : HashMap RunState} {db : Db} {r : Uuid} {state : RunState}

theorem TickInput.batch_eq (hlookup : runStates.lookup r = some state) :
    input.batch runStates r =
      (input.config.advanceRun (input.stamp r) (input.itemOrder r) r state).2 := by
  rw [batch, hlookup]

theorem TickInput.visitRun_log (hgap : GapFree db.log) (hlookup : runStates.lookup r = some state)
    (hbatch : input.batch runStates r ≠ [])
    (hfinite : ∀ e ∈ stream db.log r, e.payload.costIsFinite = true)
    (hfresh : ∀ b ∈ input.batch runStates r, ∀ e ∈ db.log, e.id ≠ b.id)
    (hdistinct : ((input.batch runStates r).map (·.id)).Nodup) :
    (input.visitRun runStates db r).log =
      db.log ++ appendedRows db.log r (input.batch runStates r) := by
  rw [batch_eq hlookup] at hbatch hfresh hdistinct ⊢
  have happ : appendEventsWithRetry db.log r
      (input.config.advanceRun (input.stamp r) (input.itemOrder r) r state).2
      (input.appendMaxAttempts - 1) = .ok (db.log ++ appendedRows db.log r
        (input.config.advanceRun (input.stamp r) (input.itemOrder r) r state).2) := by
    rw [appendEventsWithRetry_eq]
    exact hgap.appendAttempt_eq_ok.mpr ⟨hfinite, rfl, hdistinct, hfresh⟩
  unfold visitRun
  rw [hlookup]
  dsimp only
  rw [if_neg (by simpa using hbatch), happ]

theorem TickInput.visitRun_rows (runStates : HashMap RunState) (r : Uuid) (hgap : GapFree db.log) :
    ∃ rows, (input.visitRun runStates db r).log = db.log ++ rows ∧
      (∀ e ∈ rows, e.resourceId = r) ∧ (∀ e ∈ rows, ∃ b ∈ input.batch runStates r, e.id = b.id) ∧
        GapFree (db.log ++ rows) := by
  rcases input.visitRun_cases runStates hgap r with
    heq | ⟨state, state', batch, summary, hlookup, -, hbatch, -, heq⟩
  · rw [heq]
    exact ⟨[], (List.append_nil _).symm, fun _ he => absurd he List.not_mem_nil,
      fun _ he => absurd he List.not_mem_nil, (List.append_nil db.log).symm ▸ hgap⟩
  · rw [heq]
    refine ⟨_, rfl, fun e he => ?_, fun e he => ?_, hgap.append_appendedRows r batch⟩
    · obtain ⟨x, -, rfl⟩ := List.mem_map.mp he
      rfl
    · rw [batch_eq hlookup, hbatch]
      have hid : e.id ∈ (appendedRows db.log r batch).map (·.id) := List.mem_map_of_mem he
      rw [appendedRows, List.map_map] at hid
      change e.id ∈ (withRebasedRevisions batch (stream db.log r).length).map (·.id) at hid
      rw [map_withRebasedRevisions _ fun _ _ => rfl] at hid
      obtain ⟨b, hb, heq⟩ := List.mem_map.mp hid
      exact ⟨b, hb, heq.symm⟩

theorem TickInput.visitRuns_mono (runStates : HashMap RunState) (runs : List Uuid)
    (hgap : GapFree db.log) :
    db.log <+: (runs.foldl (input.visitRun runStates) db).log := by
  induction runs generalizing db with
  | nil => exact List.prefix_rfl
  | cons r runs ih =>
    obtain ⟨rows, hlog, -, -, hgap'⟩ := input.visitRun_rows runStates r hgap
    rw [← hlog] at hgap'
    refine List.IsPrefix.trans ?_ (ih hgap')
    rw [hlog]
    exact List.prefix_append _ _

theorem TickInput.visitRuns_grow (db : Db) {runs : List Uuid} (hnodup : runs.Nodup) (hr : r ∈ runs)
    (hgap : GapFree db.log) (hlookup : runStates.lookup r = some state)
    (hbatch : input.batch runStates r ≠ [])
    (hfinite : ∀ e ∈ stream db.log r, e.payload.costIsFinite = true)
    (hfresh : ∀ r' ∈ runs, ∀ b ∈ input.batch runStates r', ∀ e ∈ db.log, e.id ≠ b.id)
    (hdistinct : ((runs.flatMap (input.batch runStates)).map (·.id)).Nodup) :
    (stream db.log r).length <
      (stream (runs.foldl (input.visitRun runStates) db).log r).length := by
  induction runs generalizing db with
  | nil => cases hr
  | cons r' runs ih =>
    rw [List.nodup_cons] at hnodup
    rw [List.forall_mem_cons] at hfresh
    rw [List.flatMap_cons, List.map_append, List.nodup_append] at hdistinct
    obtain ⟨rows, hlog, hrun, hids, hgap'⟩ :=
      input.visitRun_rows runStates r' hgap
    rw [← hlog] at hgap'
    rw [List.foldl_cons]
    rcases List.mem_cons.mp hr with rfl | hr
    · -- its own visit appends, and the later ones leave the stream as it is
      have hgrown := input.visitRun_log hgap hlookup hbatch hfinite hfresh.1 hdistinct.1
      obtain ⟨more, hmore⟩ := input.visitRuns_mono runStates runs hgap'
      rw [← hmore, hgrown, stream_append, stream_append, appendedRows, stream_map_bindTo, if_pos rfl,
        List.length_append, List.length_append, List.length_map, withRebasedRevisions,
        List.length_mapIdx]
      have := List.length_pos_iff.mpr hbatch
      omega
    · have hne : r ≠ r' := fun heq => hnodup.1 (heq ▸ hr)
      have hsame : stream (input.visitRun runStates db r').log r = stream db.log r := by
        rw [hlog, stream_append, stream_rows hrun, if_neg hne, List.append_nil]
      rw [← hsame] at hfinite ⊢
      refine ih _ hnodup.2 hr hgap' hfinite (fun r'' hr'' b hb e he => ?_) hdistinct.2.1
      rw [hlog] at he
      rcases List.mem_append.mp he with he | he
      · exact hfresh.2 r'' hr'' b hb e he
      · obtain ⟨b', hb', hid⟩ := hids e he
        rw [hid]
        exact hdistinct.2.2 _ (List.mem_map_of_mem hb') _
          (List.mem_map_of_mem (List.mem_flatMap.mpr ⟨r'', hr'', hb⟩))

end tick

/-! ### Runs that can go on -/

/-- The run has an item and a workspace, no item is left running, and while the worker sees the run
running no item has failed. -/
structure GoesOn (ps : List EventPayload) : Prop where
  named : ∃ i, lastWrite (EventPayload.itemStatus? i) ps ≠ none
  housed : ∃ w, lastWrite EventPayload.workspace? ps = some w ∧ w.isNil = false
  settled : ∀ i, lastWrite (EventPayload.itemStatus? i) ps ≠ some .running
  unfailed : lastWrite EventPayload.workerStatus? ps = some "running" →
    ∀ i, lastWrite (EventPayload.itemStatus? i) ps ≠ some .failed

/-- A run is started in a workspace, and no run is resumed with a failed item. -/
def Operation.KeepsGoing (log : EventLog) : Operation → Prop
  | .startRun _ workspaceId .. => workspaceId.isNil = false
  | .resumeRun _ r => (RunReplayState.fromEvents (stream log r)).status ≠ "running" →
      ∀ i item, (RunReplayState.fromEvents (stream log r)).workItems.lookup i = some item →
        item.status ≠ .failed
  | _ => True

section payloads

variable {ps qs : List EventPayload} {i r : Uuid}

theorem itemStatus_ne_blocked (p : EventPayload) : p.itemStatus? i ≠ some .blocked := by
  cases p <;> simp [EventPayload.itemStatus?]

theorem GoesOn.append (h : GoesOn ps) (hhoused : ∀ q ∈ qs, q.workspace? = none)
    (hsettled : ∀ i, lastWrite (EventPayload.itemStatus? i) qs ≠ some .running)
    (hunfailed : lastWrite EventPayload.workerStatus? (ps ++ qs) = some "running" →
      ∀ i, lastWrite (EventPayload.itemStatus? i) (ps ++ qs) ≠ some .failed) : GoesOn (ps ++ qs) where
  named := by
    obtain ⟨i, hi⟩ := h.named
    refine ⟨i, ?_⟩
    rw [lastWrite_append]
    cases lastWrite (EventPayload.itemStatus? i) qs with
    | none => exact hi
    | some status => exact Option.some_ne_none _
  housed := by
    rw [lastWrite_append, lastWrite_of_none hhoused, Option.none_or]
    exact h.housed
  settled := fun i => by
    have hqs := hsettled i
    rw [lastWrite_append]
    cases hlast : lastWrite (EventPayload.itemStatus? i) qs with
    | none => exact h.settled i
    | some status => rwa [hlast] at hqs
  unfailed := hunfailed

/-- A control operation sets the run running only when no item has failed. -/
theorem GoesOn.statusChanged (h : GoesOn ps) {status : String} {reason : Option String}
    (hunfailed : status = "running" →
      ∀ i, lastWrite (EventPayload.itemStatus? i) ps ≠ some .failed) :
    GoesOn (ps ++ [.runStatusChanged r status reason]) := by
  have hquiet : ∀ i, lastWrite (EventPayload.itemStatus? i) [.runStatusChanged r status reason] = none :=
    fun _ => rfl
  refine h.append (List.forall_mem_singleton.mpr rfl) (fun i => ?_) fun hrunning i => ?_
  · rw [hquiet]
    exact (Option.some_ne_none _).symm
  · rw [lastWrite_append] at hrunning ⊢
    rw [hquiet, Option.none_or]
    exact hunfailed (Option.some.inj hrunning) i

theorem goesOn_startRunPayloads (draws : Draws) {workspaceId : Uuid} (hworkspace : workspaceId.isNil = false)
    (objective : String) (targetItemCount agentCount : Option UInt16) :
    GoesOn (startRunPayloads draws workspaceId objective targetItemCount agentCount) := by
  have hitems : (plannedAssignments draws objective targetItemCount agentCount).map (·.1) ≠ [] :=
    fun hnil => plannedAssignments_ne_nil _ _ _ _ (List.map_eq_nil_iff.mp hnil)
  rw [startRunPayloads_eq]
  have hstatus : ∀ i, lastWrite (EventPayload.itemStatus? i) (.runStarted workspaceId objective ::
      (plannedAssignments draws objective targetItemCount agentCount).payloads draws.resource) =
      if i ∈ (plannedAssignments draws objective targetItemCount agentCount).map (·.1) then
        some .assigned else none := by
    intro i
    rw [lastWrite_cons, Assignments.lastWrite_itemStatus]
    exact Option.or_none
  constructor
  · obtain ⟨i, hi⟩ := List.exists_mem_of_ne_nil _ hitems
    exact ⟨i, by rw [hstatus, if_pos hi]; exact Option.some_ne_none _⟩
  · refine ⟨workspaceId, ?_, hworkspace⟩
    rw [lastWrite_cons, Assignments.lastWrite_eq_none fun _ _ => rfl]
    rfl
  · intro i
    rw [hstatus]
    split <;> simp
  · intro _ i
    rw [hstatus]
    split <;> simp

end payloads

/-! ### What the operations do to runs that can go on -/

section operations

variable {base log log' : EventLog} {r : Uuid} {config : LoopConfig} {state state' : RunState}
  {batch : List EventEnvelope} {executed : List (Uuid × Outcome)} {summary : Option String}

theorem exists_outcome_of_lastWrite {worker : Worker} (hnodup : (executed.map (·.1)).Nodup) {i : Uuid}
    {status : ItemStatus} (h : lastWrite (EventPayload.itemStatus? i)
      (executedPayloads worker r executed) = some status) : ∃ x ∈ executed, x.2.status = status := by
  have hw : ∀ itemId outcome, lastWrite (EventPayload.itemStatus? i)
      (Outcome.payloads worker r itemId outcome) = if itemId = i then some outcome.status else none :=
    fun itemId outcome => lastWrite_itemStatus_outcome worker r itemId outcome i
  by_cases hi : i ∈ executed.map (·.1)
  · obtain ⟨⟨j, outcome⟩, hx, rfl⟩ := List.mem_map.mp hi
    rw [lastWrite_executed_of_mem hw hx hnodup] at h
    exact ⟨_, hx, Option.some.inj h⟩
  · rw [lastWrite_executed_of_not_mem hw hi] at h
    cases h

theorem GoesOn.advanced {ps : List EventPayload} (h : GoesOn ps)
    (hadv : Advanced config r state state' batch executed summary)
    (hrunning : lastWrite EventPayload.workerStatus? ps = some "running") :
    GoesOn (ps ++ payloads batch) := by
  have hitem : ∀ i, lastWrite (EventPayload.itemStatus? i) (payloads batch) =
      lastWrite (EventPayload.itemStatus? i) (executedPayloads config.worker r executed) :=
    fun i => lastWrite_replayBatch hadv rfl fun _ => rfl
  refine h.append (fun q hq => ?_) (fun i hlast => ?_) fun hafter i hlast => ?_
  · rw [hadv.payloads] at hq
    rcases List.mem_append.mp hq with hq | hq
    · obtain ⟨x, -, hq⟩ := mem_executedPayloads hq
      have hkind := (mem_outcome_payloads _ _ _ _ hq).2.2
      cases q <;> simp_all [EventPayload.isExecution, EventPayload.workspace?]
    · obtain ⟨text, -, rfl⟩ := List.mem_map.mp hq
      rfl
  · rw [hitem] at hlast
    obtain ⟨x, -, hstatus⟩ := exists_outcome_of_lastWrite hadv.nodup hlast
    unfold Outcome.status at hstatus
    split at hstatus <;> cases hstatus
  · have hstatus : state'.status = "running" := by
      rw [← lastWrite_workerStatus_batch hadv]
      rw [lastWrite_append, hrunning] at hafter
      cases hbatch : lastWrite EventPayload.workerStatus? (payloads batch) with
      | none => rfl
      | some status =>
        rw [hbatch, Option.some_or] at hafter
        exact Option.some.inj hafter
    rw [hadv.status] at hstatus
    have hall : executed.all (·.2.succeeded) := by
      by_contra hnot
      rw [if_neg hnot] at hstatus
      split at hstatus <;> exact absurd hstatus (by decide)
    rw [lastWrite_append, hitem] at hlast
    cases hwrite : lastWrite (EventPayload.itemStatus? i)
        (executedPayloads config.worker r executed) with
    | none =>
      rw [hwrite, Option.none_or] at hlast
      exact h.unfailed hrunning i hlast
    | some status =>
      rw [hwrite, Option.some_or] at hlast
      obtain ⟨x, hx, hx'⟩ := exists_outcome_of_lastWrite hadv.nodup hwrite
      rw [Outcome.status, if_pos (List.all_eq_true.mp hall x hx)] at hx'
      rw [← hx'] at hlast
      cases hlast

theorem exists_failed (hwf : WellFormed log) {i : Uuid} (h : lastWrite (EventPayload.itemStatus? i)
    (payloads (stream log r)) = some .failed) :
    ∃ item, (RunReplayState.fromEvents (stream log r)).workItems.lookup i = some item ∧
      item.status = .failed := by
  rw [RunReplayState.lookup_fromEvents, lastWrite_blockableStatus (hwf.written_stream r), h]
  exact ⟨_, rfl, rfl⟩

/-- A retry leaves no item failed. -/
theorem GoesOn.retried (hwf : WellFormed log) (h : GoesOn (payloads (stream log r))) {draws : Draws}
    {order : List Uuid} (horder : (RunReplayState.fromEvents (stream log r)).workItems.IsOrder order)
    {ps : List EventPayload} (hps : retryPayloads draws order r (stream log r) = some ps) :
    GoesOn (payloads (stream log r) ++ ps) := by
  obtain ⟨-, -, -, rfl⟩ := retryPayloads_eq_some.mp hps
  have hstatus : ∀ i, lastWrite (EventPayload.itemStatus? i)
      (.runStatusChanged r "running" (some "manual retry") ::
        (retryAssignments draws order (stream log r)).payloads r) =
      if i ∈ (retryAssignments draws order (stream log r)).map (·.1) then some .assigned else none := by
    intro i
    rw [lastWrite_cons, Assignments.lastWrite_itemStatus]
    exact Option.or_none
  refine h.append (fun q hq => ?_) (fun i => ?_) fun _ i => ?_
  · rcases List.mem_cons.mp hq with rfl | hq
    · rfl
    · obtain ⟨x, -, rfl⟩ := Assignments.mem_payloads hq
      rfl
  · rw [hstatus]
    split <;> simp
  · rw [lastWrite_append, hstatus]
    split
    · simp
    · next hnot =>
      intro hfailed
      rw [Option.none_or] at hfailed
      refine hnot ?_
      rw [map_fst_retryAssignments, mem_map_fst_retriedItems horder]
      obtain ⟨item, hitem, hstatus⟩ := exists_failed hwf hfailed
      exact ⟨item, hitem, by rw [hstatus]; decide⟩

/-- All runs that were started. -/
def RunsGoOn (log : EventLog) : Prop :=
  ∀ r, stream log r ≠ [] → GoesOn (payloads (stream log r))

theorem RunsGoOn.append {rows : EventLog} (h : RunsGoOn log) (happ : Appended log log' r rows)
    (hrows : GoesOn (payloads (stream log r) ++ payloads rows)) : RunsGoOn log' := by
  intro r' hne
  have hother := h r'
  rw [happ.payloads_stream]
  split
  · next heq => exact heq ▸ hrows
  · next hr =>
    rw [List.append_nil]
    refine hother ?_
    rwa [happ.stream_eq, if_neg hr, List.append_nil] at hne

theorem RunsGoOn.statusChanged {status : String} (h : RunsGoOn base)
    (hstatus : StatusChanged base log' r status)
    (hunfailed : status = "running" →
      ∀ i, lastWrite (EventPayload.itemStatus? i) (payloads (stream base r)) ≠ some .failed) :
    RunsGoOn log' := by
  obtain ⟨rows, reason, happ, hps⟩ := hstatus.appended
  refine h.append happ ?_
  rw [hps]
  exact (h r hstatus.exists_run).statusChanged hunfailed

theorem RunsGoOn.makes {operation : Operation} (h : RunsGoOn log) (hwf : WellFormed log)
    (hrun : RunLog log) (htimes : TimeOrdered base) (hmakes : operation.Makes base log log')
    (hguard : operation.KeepsGoing base) : RunsGoOn log' := by
  cases hmakes with
  | @startRun draws workspaceId _ _ _ _ hstarted =>
    obtain ⟨rows, objective, target, agents, happ, hps⟩ := hstarted.appended
    refine h.append happ ?_
    rw [hps, hstarted.new.1]
    exact goesOn_startRunPayloads draws hguard objective target agents
  | pauseRun hstatus | cancelRun hstatus =>
    exact h.statusChanged hstatus fun heq => absurd heq (by decide)
  | @resumeRun _ r _ hstatus =>
    refine h.statusChanged hstatus fun _ i hfailed => ?_
    obtain ⟨item, hitem, hitemStatus⟩ := exists_failed hwf hfailed
    exact hguard hstatus.differs i item hitem hitemStatus
  | @retryRun draws order r rows _ hne horder happ hps =>
    exact h.append happ ((h r hne).retried hwf horder hps)
  | @tick input events _ _ r state state' batch summary hvisited =>
    have hstate : replayRun (stream log r) = some state := by
      refine hvisited.advances.read.replayRun_stream hwf hrun ?_
      rw [InOrder, ← hvisited.unchanged]
      exact htimes.inOrder r
    have hadv := hvisited.advances.advanced
    obtain ⟨rows, happ, hps⟩ := hvisited.advances.appended
    refine h.append happ ?_
    rw [hps]
    exact (h r (hvisited.advances.read.stream_ne_nil hwf)).advanced hadv
      (lastWrite_of_running hstate hadv.status_before)

end operations

/-! ### No running run is stuck -/

theorem GoesOn.isEmpty_values {events : List EventEnvelope} (h : GoesOn (payloads events))
    {state : RunState} (hreplay : replayRun events = some state) :
    state.items.values.isEmpty = false := by
  obtain ⟨i, hi⟩ := h.named
  refine RunState.isEmpty_values_iff.mpr ⟨i, ?_⟩
  rwa [itemStatus_replayRun hreplay]

theorem GoesOn.assigned_or_completed {events : List EventEnvelope} (h : GoesOn (payloads events))
    {state : RunState} (hreplay : replayRun events = some state)
    (hrunning : state.status = "running") :
    (∃ i item, state.items.lookup i = some item ∧ item.status = .assigned) ∨
      state.allItemsCompleted := by
  rw [or_iff_not_imp_right, RunState.allItemsCompleted_iff, not_and]
  intro hnot
  obtain ⟨i, hi⟩ := not_forall.mp (hnot (h.isEmpty_values hreplay))
  obtain ⟨status, hi⟩ := not_forall.mp hi
  obtain ⟨hi, hopen⟩ := Classical.not_imp.mp hi
  obtain ⟨item, hitem, rfl⟩ := Option.map_eq_some_iff.mp hi
  refine ⟨i, item, hitem, ?_⟩
  rw [itemStatus_replayRun hreplay] at hi
  have hsettled := h.settled i
  have hunfailed := h.unfailed (lastWrite_of_running hreplay hrunning) i
  have hblocked : lastWrite (EventPayload.itemStatus? i) (payloads events) ≠ some .blocked := by
    intro hlast
    obtain ⟨p, -, hp⟩ := lastWrite_mem hlast
    exact itemStatus_ne_blocked p hp
  cases hcase : item.status <;> simp_all

theorem GoesOn.skips_eq_false {events : List EventEnvelope} (h : GoesOn (payloads events))
    {state : RunState} (hreplay : replayRun events = some state)
    (hrunning : state.status = "running") : LoopConfig.skips state = false := by
  obtain ⟨w, hw, hnil⟩ := h.housed
  refine LoopConfig.skips_eq_false.mpr ⟨?_, hrunning, h.isEmpty_values hreplay⟩
  rw [workspaceId_replayRun hreplay, hw]
  exact hnil

/-- On a clock that does not run backwards, and unless a run is started without a workspace or resumed
with a failed item: a run that the worker sees running has an assigned item or has all its items
completed, and the next tick of a worker without affinity appends to it. -/
theorem running_goes_on {log : EventLog} {events : List EventEnvelope}
    (h : Reach history (fun log operation => operation.OnClock log ∧ operation.KeepsGoing log) log)
    (hload : LoadAll log (.ok events)) {r : Uuid} {state : RunState}
    (hstate : (runStatesFromEvents events).lookup r = some state)
    (hrunning : state.status = "running") :
    ((∃ i item, state.items.lookup i = some item ∧ item.status = .assigned) ∨
      state.allItemsCompleted) ∧
    ∀ input : TickInput, input.Orders events → input.config.itemAffinity = false →
      1 ≤ input.config.maxItemsPerLoop → input.NewIds events log →
        (stream log r).length < (stream (input.tick events ⟨log, .empty⟩).log r).length := by
  obtain ⟨hwf, hrun, hgoes⟩ := history_guarded (I := fun log => RunLog log ∧ RunsGoOn log)
    ⟨Recorded.empty.runLog, fun _ hne => absurd rfl hne⟩
    (fun base operation log log' hreach hguard hmakes hwf hI =>
      ⟨hI.1.change hwf hmakes.change, hI.2.makes hwf hI.1
        (timeOrdered_of_onClock (hreach.mono fun _ _ => And.left)) hmakes hguard.2⟩) h
  have htimes : TimeOrdered log := timeOrdered_of_onClock (h.mono fun _ _ => And.left)
  obtain ⟨hread, hfinite⟩ := loadAll_eq_ok.mp hload
  have hreplay := hstate
  rw [lookup_runStatesFromEvents, hrun.runEvents_loadAll hwf (htimes.inOrder r) hread] at hreplay
  have hgo : GoesOn (payloads (stream log r)) :=
    hgoes r (replayRun_isSome.mp (by rw [hreplay]; rfl))
  have hitems := hgo.assigned_or_completed hreplay hrunning
  refine ⟨hitems, fun input horders haffinity hmax hids => ?_⟩
  have hskips := hgo.skips_eq_false hreplay hrunning
  have hbatch : (input.config.advanceRun (input.stamp r) (input.itemOrder r) r state).2 ≠ [] := by
    rcases hitems with hassigned | hall
    · exact LoopConfig.advanceRun_ne_nil_of_assigned hskips (horders.2 r state hstate) haffinity hmax
        hassigned
    · exact LoopConfig.advanceRun_ne_nil_of_completed hskips hall
  have hmem : r ∈ input.runOrder :=
    (horders.1.2 r).mpr (AList.lookup_isSome.mp (by rw [hstate]; rfl))
  have hfinite' : ∀ e ∈ stream log r, e.payload.costIsFinite = true := fun e he =>
    hfinite e (mem_stream.mp he).1
  rw [← TickInput.batch_eq hstate] at hbatch
  exact TickInput.visitRuns_grow ⟨log, .empty⟩ horders.1.1 hmem hwf.gapFree hstate hbatch hfinite'
    hids.fresh hids.distinct

/-- A started run goes on. -/
theorem running_goes_on_started :
    ∃ state, (runStatesFromEvents (startedLog 1)).lookup sampleRun = some state ∧
      state.status = "running" ∧
      ((∃ i item, state.items.lookup i = some item ∧ item.status = .assigned) ∨
        state.allItemsCompleted) ∧
      (stream (startedLog 1) sampleRun).length <
        (stream (tickedLog (sampleExecutor []) 200 (startedLog 1)) sampleRun).length := by
  have hsome : ((runStatesFromEvents (startedLog 1)).lookup sampleRun).isSome := by decide
  have hreach : Reach history
      (fun log operation => operation.OnClock log ∧ operation.KeepsGoing log) (startedLog 1) :=
    .step (.startRun (.counting sampleRun 100) sampleWorkspace "" (some 1) (some 1)) (.init rfl)
      ⟨⟨rfl, by simp⟩, rfl⟩ ⟨⟨countingStamp_monotone 100, by simp⟩, rfl⟩
  obtain ⟨hitems, hgrows⟩ := running_goes_on hreach
    (loadAll_eq_ok.mpr ⟨⟨.refl (startedLog 1), by decide⟩, by decide⟩) (Option.some_get hsome).symm rfl
  exact ⟨Option.get _ hsome, (Option.some_get hsome).symm, rfl, hitems,
    hgrows _ (TickInput.ofKeys_orders (sampleWorker (sampleExecutor [])) (fun _ => countingStamp 200) _)
      rfl (by decide) ⟨by decide, by decide⟩⟩

/-! ### A run that is resumed with a failed item -/

/-- The run of `failedLog` was paused and resumed. -/
def resumedLog : EventLog :=
  logAfter (resumeRun (.counting sampleRun 400)
    (logAfter (pauseRun (.counting sampleRun 300) failedLog sampleRun)) sampleRun)

theorem resumedLog_onClock : Reach history Operation.OnClock resumedLog := by
  have hstarted : Reach history Operation.OnClock (startedLog 1) :=
    .step (.startRun (.counting sampleRun 100) sampleWorkspace "" (some 1) (some 1)) (.init rfl)
      ⟨⟨rfl, by simp⟩, rfl⟩ ⟨countingStamp_monotone 100, by simp⟩
  have hfailed : Reach history Operation.OnClock failedLog :=
    tickedLog_onClock hstarted _ (by decide) (by decide) (by decide) (by decide)
  have hpaused : Reach history Operation.OnClock
      (logAfter (pauseRun (.counting sampleRun 300) failedLog sampleRun)) :=
    .step (.pauseRun (.counting sampleRun 300) sampleRun) hfailed ⟨true, rfl⟩
      ⟨countingStamp_monotone 300, by decide⟩
  exact .step (.resumeRun (.counting sampleRun 400) sampleRun) hpaused ⟨true, rfl⟩
    ⟨countingStamp_monotone 400, by decide⟩

/-- The run is running, nothing of it is assigned or all of it completed, and a tick does nothing. -/
theorem running_stuck_resumed : Reach history Operation.OnClock resumedLog ∧
    LoadAll resumedLog (.ok resumedLog) ∧
    tickedLog (sampleExecutor []) 500 resumedLog = resumedLog ∧
    ∃ state, (runStatesFromEvents resumedLog).lookup sampleRun = some state ∧
      state.status = "running" ∧
      ¬ ((∃ i item, state.items.lookup i = some item ∧ item.status = .assigned) ∨
        state.allItemsCompleted) := by
  have hvalues : ∀ state ∈ (runStatesFromEvents resumedLog).lookup sampleRun,
      state.status = "running" ∧ state.allItemsCompleted = false ∧
        ∀ item ∈ state.items.values, item.status = .failed := by decide
  obtain ⟨state, hstate⟩ : ∃ state, (runStatesFromEvents resumedLog).lookup sampleRun = some state :=
    Option.isSome_iff_exists.mp (by decide)
  obtain ⟨hrunning, hall, hvalues⟩ := hvalues state hstate
  refine ⟨resumedLog_onClock, loadAll_eq_ok.mpr ⟨⟨.refl _, by decide⟩, by decide⟩, rfl, state,
    hstate, hrunning, ?_⟩
  rintro (⟨i, item, hitem, hassigned⟩ | hall')
  · rw [hvalues item (HashMap.mem_values.mpr ⟨i, hitem⟩)] at hassigned
    cases hassigned
  · exact absurd hall' (by rw [hall]; decide)

end SamtaDashboard

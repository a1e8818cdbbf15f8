import SamtaDashboard.System.Finishes
import SamtaDashboard.System.Retry

/-!
# No run is beyond recovery

A failed item blocks a run for the workers, while the orchestrator still takes it for running and
refuses to retry it; a completed run is refused as well. Paused first, the run is stopped by a control
operation, whatever it was before. The retry then assigns all its uncompleted items, and if there is
none the resumption leaves its completion to be recorded (`paused_then_recovered`). Ticks that find the
run so finish it again.
-/

namespace SamtaDashboard

open EventFold Transition

section replay

variable {log log' : EventLog} {rows : List EventEnvelope} {r : Uuid} {before : RunState}

theorem replay_statusChanged (hbefore : replayRun (stream log r) = some before)
    (happ : Appended log log' r rows) {status : String} {reason : Option String}
    (hps : payloads rows = [.runStatusChanged r status reason]) :
    ∃ after, replayRun (stream log' r) = some after ∧ after.status = status ∧
      after.workspaceId = before.workspaceId ∧ ∀ i, after.items.lookup i = before.items.lookup i := by
  have hstream : stream log' r = stream log r ++ rows := by
    rw [happ.stream_eq, if_pos rfl]
  refine ⟨rows.foldl RunState.apply before, ?_, ?_, ?_, fun i => ?_⟩
  · rw [hstream, replayRun_append hbefore]
  · rw [RunState.status_foldl_apply, hps]
    rfl
  · rw [RunState.workspaceId_foldl_apply, hps]
    rfl
  · rw [RunState.lookup_items, RunState.lookup_items, RunState.itemStatus_foldl_apply,
      RunState.itemAgent_foldl_apply, hps]
    rfl

theorem status_fromEvents_statusChanged (happ : Appended log log' r rows) {status : String}
    {reason : Option String} (hps : payloads rows = [.runStatusChanged r status reason]) :
    (RunReplayState.fromEvents (stream log' r)).status = status := by
  rw [RunReplayState.status_fromEvents, happ.payloads_stream, if_pos rfl, hps, lastWrite_append]
  rfl

theorem Change.started_of_new (hwf : WellFormed log) (h : Change log log') (hold : stream log r = [])
    (hnew : stream log' r ≠ []) :
    ∃ draws workspaceId, Started log log' draws workspaceId ∧ draws.resource = r := by
  have happended : ∀ {r' rows}, Appended log log' r' rows → r' = r := by
    intro r' rows happ
    by_contra hne
    rw [happ.stream_eq, hold, if_neg (Ne.symm hne)] at hnew
    exact hnew rfl
  cases h with
  | start draws workspaceId h =>
    obtain ⟨rows, _, _, _, happ, -⟩ := h.appended
    exact ⟨draws, workspaceId, h, happended happ⟩
  | status r' status h =>
    obtain ⟨rows, _, happ, -⟩ := h.appended
    exact absurd hold (happended happ ▸ h.exists_run)
  | retry r' h =>
    obtain ⟨rows, _, _, happ, -⟩ := h.appended
    exact absurd hold (happended happ ▸ h.exists_run)
  | batch h =>
    obtain ⟨rows, happ, -⟩ := h.appended
    exact absurd hold (happended happ ▸ h.read.stream_ne_nil hwf)

/-- Every run has an item. -/
def RunsNamed (log : EventLog) : Prop := ∀ r, stream log r ≠ [] →
  ∃ i, lastWrite (EventPayload.itemStatus? i) (payloads (stream log r)) ≠ none

theorem RunsNamed.change (ih : RunsNamed log) (hwf : WellFormed log) (hchange : Change log log') :
    RunsNamed log' := by
  intro r hne
  by_cases hold : stream log r = []
  · obtain ⟨draws, workspaceId, hstarted, rfl⟩ := hchange.started_of_new hwf hold hne
    obtain ⟨rows, objective, target, agents, happ, hps⟩ := hstarted.appended
    obtain ⟨i, hi⟩ := List.exists_mem_of_ne_nil _ fun hnil =>
      plannedAssignments_ne_nil draws objective target agents (List.map_eq_nil_iff.mp hnil)
    refine ⟨i, ?_⟩
    rw [happ.payloads_stream, hold, if_pos rfl, hps, startRunPayloads_eq, payloads_nil,
      List.nil_append, lastWrite_cons, Assignments.lastWrite_itemStatus, if_pos hi]
    exact Option.some_ne_none _
  · obtain ⟨i, hi⟩ := ih r hold
    obtain ⟨r', rows, happ⟩ := hchange.appended
    refine ⟨i, ?_⟩
    rw [happ.payloads_stream, lastWrite_append]
    cases lastWrite (EventPayload.itemStatus? i) (if r = r' then payloads rows else []) with
    | none => exact hi
    | some status => exact Option.some_ne_none _

theorem history_runsNamed (h : Reachable history log) : RunsNamed log :=
  (history_invariant (fun _ hne => absurd rfl hne)
    (fun _ _ hwf ih hchange => RunsNamed.change ih hwf hchange) h).2

end replay

/-! ### The pause -/

section pause

variable {log : EventLog} {r : Uuid} {draws : Draws} {before : RunState}

/-- The run as a pause leaves it. -/
structure Paused (r : Uuid) (before : RunState) (log : EventLog) (paused : RunState) : Prop where
  reach : Reach history Operation.OnClock log
  replay : replayRun (stream log r) = some paused
  orchestrator : (RunReplayState.fromEvents (stream log r)).status = "paused"
  finite : ∀ e ∈ stream log r, e.payload.costIsFinite = true
  workspaceId : paused.workspaceId = before.workspaceId
  items : ∀ i, paused.items.lookup i = before.items.lookup i

theorem pauseRun_paused (h : Reach history Operation.OnClock log)
    (hbefore : replayRun (stream log r) = some before)
    (hfinite : ∀ e ∈ stream log r, e.payload.costIsFinite = true) (hclock : draws.OnClock log)
    (hfresh : draws.FreshIn log 1) :
    ∃ changed log' paused, pauseRun draws log r = .ok (changed, log') ∧ Paused r before log' paused := by
  have hwf := history_wellFormed h.reachable
  have hne : stream log r ≠ [] := replayRun_isSome.mp (by rw [hbefore]; rfl)
  by_cases hpaused : (RunReplayState.fromEvents (stream log r)).status = "paused"
  · have hok : pauseRun draws log r = .ok (false, log) := by
      refine hwf.gapFree.control_eq_ok.mpr ⟨hfinite, hne, ?_⟩
      rw [statusChange, if_pos hpaused]
      exact ⟨rfl, rfl⟩
    exact ⟨false, log, before, hok, h, hbefore, hpaused, hfinite, rfl, fun _ => rfl⟩
  · have hps : statusChange r "paused" (some "manual pause") (stream log r) =
        some [.runStatusChanged r "paused" (some "manual pause")] := by
      rw [statusChange, if_neg hpaused]
    have hok : pauseRun draws log r = .ok (true, log ++ newEvents draws r
        ((stream log r).length + 1) [.runStatusChanged r "paused" (some "manual pause")]) := by
      refine hwf.gapFree.control_eq_ok.mpr ⟨hfinite, hne, ?_⟩
      rw [hps]
      exact ⟨rfl, hfresh, rfl⟩
    have hadmissible : Admissible log r [.runStatusChanged r "paused" (some "manual pause")] :=
      admissible_statusChange (by decide) _
    have happ := @appended_newEvents log _ r draws _ hadmissible rfl
    obtain ⟨paused, hreplay, -, hworkspace, hitems⟩ :=
      replay_statusChanged hbefore happ (payloads_newEvents ..)
    refine ⟨true, _, paused, hok, .step (.pauseRun draws r) h ⟨true, hok⟩ hclock, hreplay,
      status_fromEvents_statusChanged happ (payloads_newEvents ..), ?_, hworkspace, hitems⟩
    rw [happ.stream_eq, if_pos rfl, List.forall_mem_append]
    refine ⟨hfinite, fun e he => ?_⟩
    have hmem := List.mem_map_of_mem (f := (·.payload)) he
    rw [← payloads, payloads_newEvents, List.mem_singleton] at hmem
    rw [hmem]
    rfl

end pause

/-! ### The retry or the resumption -/

section recovery

variable {log : EventLog} {r : Uuid} {draws : Draws} {order : List Uuid} {before paused : RunState}

theorem Draws.FreshIn.mono {n m : Nat} (h : draws.FreshIn log m) (hle : n ≤ m) :
    draws.FreshIn log n :=
  ⟨h.1.sublist ((List.range_sublist.mpr hle).map _), fun k hk => h.2 k (lt_of_lt_of_le hk hle)⟩

/-- The run as it waits for the workers again: what was not completed is assigned. -/
structure WaitsAgain (r : Uuid) (before : RunState) (log : EventLog) (waiting : RunState) : Prop where
  reach : Reach history Operation.OnClock log
  replay : replayRun (stream log r) = some waiting
  waits : Waits waiting
  items : ∀ i, waiting.itemStatus i =
    (before.itemStatus i).map fun status => if status = .completed then .completed else .assigned

theorem Paused.retried (h : Paused r before log paused) (hworkspace : before.workspaceId.isNil = false)
    (hopen : ∃ i item, before.items.lookup i = some item ∧ item.status ≠ .completed)
    (horder : (RunReplayState.fromEvents (stream log r)).workItems.IsOrder order)
    (hclock : draws.OnClock log)
    (hfresh : draws.FreshIn log
      (1 + (retriedItems order (RunReplayState.fromEvents (stream log r))).length)) :
    ∃ log' waiting, retryRun draws order log r = .ok (true, log') ∧
      WaitsAgain r before log' waiting := by
  have hstopped : (RunReplayState.fromEvents (stream log r)).status ≠ "running" ∧
      (RunReplayState.fromEvents (stream log r)).status ≠ "completed" := by
    rw [h.orchestrator]
    decide
  have hopen' : ∃ i item, paused.items.lookup i = some item ∧ item.status ≠ .completed := by
    obtain ⟨i, item, hitem, hstatus⟩ := hopen
    exact ⟨i, item, (h.items i).trans hitem, hstatus⟩
  obtain ⟨rows, assigned, after, hrec⟩ := recovers_of_stopped (history_wellFormed h.reach.reachable)
    (history_runLog h.reach.reachable) h.replay hopen' horder hfresh hstopped h.finite
  have hreach : Reach history Operation.OnClock (log ++ rows) :=
    .step (.retryRun draws order r) h.reach ⟨horder, true, hrec.result⟩ hclock
  have hreplay : replayRun (stream (log ++ rows) r) = some after := by
    rw [← (history_runLog hreach.reachable).lookup_stream]
    exact hrec.replay
  have hstatuses : ∀ i, after.itemStatus i =
      (before.itemStatus i).map fun status => if status = .completed then .completed else .assigned := by
    intro i
    rw [RunState.itemStatus, hrec.items, h.items, RunState.itemStatus, Option.map_map, Option.map_map]
    refine Option.map_congr fun item _ => ?_
    by_cases hstatus : item.status = .completed <;> simp [hstatus]
  refine ⟨log ++ rows, after, hrec.result, hreach, hreplay, ⟨?_, fun i status hi => ?_⟩, hstatuses⟩
  · refine LoopConfig.skips_eq_false.mpr ⟨?_, hrec.status, RunState.isEmpty_values_iff.mpr ?_⟩
    · obtain ⟨reason, hps⟩ := hrec.payloads
      have hquiet : lastWrite EventPayload.workspace?
          (.runStatusChanged r "running" reason :: assigned.payloads r) = none := by
        rw [lastWrite_cons, Assignments.lastWrite_eq_none fun _ _ => rfl]
        rfl
      rw [workspaceId_replayRun hreplay, stream_append, stream_rows hrec.run, if_pos rfl,
        payloads_append, lastWrite_append, hps, hquiet, Option.none_or,
        ← workspaceId_replayRun h.replay, h.workspaceId, hworkspace]
    · obtain ⟨i, item, hitem, -⟩ := hopen
      refine ⟨i, ?_⟩
      rw [hstatuses, RunState.itemStatus, hitem]
      exact Option.some_ne_none _
  · rw [hstatuses] at hi
    obtain ⟨old, -, rfl⟩ := Option.map_eq_some_iff.mp hi
    split
    · exact Or.inr rfl
    · exact Or.inl rfl

theorem Paused.resumed (h : Paused r before log paused) (hworkspace : before.workspaceId.isNil = false)
    (hdone : ∀ i status, before.itemStatus i = some status → status = .completed)
    (hclock : draws.OnClock log) (hfresh : draws.FreshIn log 1) :
    ∃ log' waiting, resumeRun draws log r = .ok (true, log') ∧
      WaitsAgain r before log' waiting := by
  have hwf := history_wellFormed h.reach.reachable
  have hne : stream log r ≠ [] := replayRun_isSome.mp (by rw [h.replay]; rfl)
  have hps : statusChange r "running" (some "manual resume") (stream log r) =
      some [.runStatusChanged r "running" (some "manual resume")] := by
    rw [statusChange, h.orchestrator, if_neg (by decide)]
  have hok : resumeRun draws log r = .ok (true, log ++ newEvents draws r
      ((stream log r).length + 1) [.runStatusChanged r "running" (some "manual resume")]) := by
    refine hwf.gapFree.control_eq_ok.mpr ⟨h.finite, hne, ?_⟩
    rw [hps]
    exact ⟨rfl, hfresh, rfl⟩
  have hadmissible : Admissible log r [.runStatusChanged r "running" (some "manual resume")] :=
    admissible_statusChange (by decide) _
  have happ := @appended_newEvents log _ r draws _ hadmissible rfl
  obtain ⟨waiting, hreplay, hstatus, hworkspace', hitems⟩ :=
    replay_statusChanged h.replay happ (payloads_newEvents ..)
  have hstatuses : ∀ i, waiting.itemStatus i = before.itemStatus i := fun i => by
    rw [RunState.itemStatus, hitems, h.items, RunState.itemStatus]
  obtain ⟨i, hi⟩ := history_runsNamed h.reach.reachable r hne
  rw [← itemStatus_replayRun h.replay, RunState.itemStatus, h.items, ← RunState.itemStatus,
    ← hstatuses] at hi
  refine ⟨_, waiting, hok, .step (.resumeRun draws r) h.reach ⟨true, hok⟩ hclock, hreplay,
    ⟨LoopConfig.skips_eq_false.mpr ⟨?_, hstatus, RunState.isEmpty_values_iff.mpr ⟨i, hi⟩⟩,
      fun i status hstatus => Or.inr ?_⟩, fun i => ?_⟩
  · rw [hworkspace', h.workspaceId, hworkspace]
  · exact hdone i status (hstatuses i ▸ hstatus)
  · rw [hstatuses]
    cases hi : before.itemStatus i with
    | none => rfl
    | some status => rw [Option.map_some, hdone i status hi, if_pos rfl]

/-- In a history on a clock that does not run backwards, every run in a workspace whose stream can be
read is recovered: it can be paused, and then retried or, if all its items are completed, resumed. Its
uncompleted items are assigned then, and operations that leave it to workers without affinity finish it
as soon as the bounds of the ticks add up to their number, or to one if there is none. -/
theorem paused_then_recovered (h : Reach history Operation.OnClock log)
    (hbefore : (runStatesFromEvents (stream log r)).lookup r = some before)
    (hworkspace : before.workspaceId.isNil = false)
    (hfinite : ∀ e ∈ stream log r, e.payload.costIsFinite = true) (hclock : draws.OnClock log)
    (hfresh : draws.FreshIn log 1) :
    ∃ changed log₁, pauseRun draws log r = .ok (changed, log₁) ∧
      ∀ (again : Draws) (order : List Uuid),
        (RunReplayState.fromEvents (stream log₁ r)).workItems.IsOrder order → again.OnClock log₁ →
        again.FreshIn log₁
          (1 + (retriedItems order (RunReplayState.fromEvents (stream log₁ r))).length) →
        ∃ log₂ waiting, (retryRun again order log₁ r = .ok (true, log₂) ∨
            before.allItemsCompleted ∧ resumeRun again log₁ r = .ok (true, log₂)) ∧
          (runStatesFromEvents (stream log₂ r)).lookup r = some waiting ∧
          WaitsAgain r before log₂ waiting ∧
          ∀ n log₃, Drains history
              (fun log operation => operation.OnClock log ∧ operation.LeavesTo r log)
              (fun _ => Operation.gain) log₂ n log₃ →
            max 1 waiting.assignedItems.card ≤ n →
            ∃ rows after, stream log₃ r = stream log₂ r ++ rows ∧
              (runStatesFromEvents (stream log₃ r)).lookup r = some after ∧
                Finished waiting (payloads rows) after := by
  rw [(history_runLog h.reachable).lookup_stream] at hbefore
  obtain ⟨changed, log₁, paused, hok, hpaused⟩ := pauseRun_paused h hbefore hfinite hclock hfresh
  refine ⟨changed, log₁, hok, fun again order horder hclock' hfresh' => ?_⟩
  have hrecovered : ∃ log₂ waiting, (retryRun again order log₁ r = .ok (true, log₂) ∨
      before.allItemsCompleted ∧ resumeRun again log₁ r = .ok (true, log₂)) ∧
        WaitsAgain r before log₂ waiting := by
    by_cases hopen : ∃ i item, before.items.lookup i = some item ∧ item.status ≠ .completed
    · obtain ⟨log₂, waiting, hretry, hwaits⟩ :=
        hpaused.retried hworkspace hopen horder hclock' hfresh'
      exact ⟨log₂, waiting, Or.inl hretry, hwaits⟩
    · have hdone : ∀ i status, before.itemStatus i = some status → status = .completed := by
        intro i status hi
        obtain ⟨item, hitem, rfl⟩ := Option.map_eq_some_iff.mp hi
        by_contra hstatus
        exact hopen ⟨i, item, hitem, hstatus⟩
      obtain ⟨log₂, waiting, hresume, hwaits⟩ :=
        hpaused.resumed hworkspace hdone hclock' (hfresh'.mono (Nat.le_add_right ..))
      obtain ⟨i, hi⟩ := history_runsNamed h.reachable r (replayRun_isSome.mp (by rw [hbefore]; rfl))
      rw [← itemStatus_replayRun hbefore] at hi
      exact ⟨log₂, waiting, Or.inr ⟨RunState.allItemsCompleted_iff.mpr
        ⟨RunState.isEmpty_values_iff.mpr ⟨i, hi⟩, hdone⟩, hresume⟩, hwaits⟩
  obtain ⟨log₂, waiting, hanswer, hwaits⟩ := hrecovered
  have hlookup : (runStatesFromEvents (stream log₂ r)).lookup r = some waiting := by
    rw [(history_runLog hwaits.reach.reachable).lookup_stream, hwaits.replay]
  exact ⟨log₂, waiting, hanswer, hlookup, hwaits,
    fun n log₃ hrun hn => ticks_finish hwaits.reach hlookup hwaits.waits hrun hn⟩

end recovery

/-! ### A run that a failed item blocked -/

theorem failedLog_onClock : Reach history Operation.OnClock failedLog := by
  have hstarted : Reach history Operation.OnClock (startedLog 1) :=
    .step (.startRun (.counting sampleRun 100) sampleWorkspace "" (some 1) (some 1)) (.init rfl)
      ⟨⟨rfl, by simp⟩, rfl⟩ ⟨countingStamp_monotone 100, by simp⟩
  exact tickedLog_onClock hstarted _ (by decide) (by decide) (by decide) (by decide)

/-- A retry alone answers `Ok(false)` on it. -/
theorem paused_then_recovered_failedLog : ∃ before,
    (runStatesFromEvents (stream failedLog sampleRun)).lookup sampleRun = some before ∧
    before.status = "blocked" ∧
    ∃ changed log₁, pauseRun (.counting sampleRun 300) failedLog sampleRun = .ok (changed, log₁) ∧
      ∃ log₂ waiting, (retryRun (.counting sampleRun 400) [⟨10⟩] log₁ sampleRun = .ok (true, log₂) ∨
          before.allItemsCompleted ∧
            resumeRun (.counting sampleRun 400) log₁ sampleRun = .ok (true, log₂)) ∧
        (runStatesFromEvents (stream log₂ sampleRun)).lookup sampleRun = some waiting ∧
        WaitsAgain sampleRun before log₂ waiting := by
  obtain ⟨before, hbefore⟩ : ∃ before,
      (runStatesFromEvents (stream failedLog sampleRun)).lookup sampleRun = some before :=
    Option.isSome_iff_exists.mp (by decide)
  have hvalues : ∀ state ∈ (runStatesFromEvents (stream failedLog sampleRun)).lookup sampleRun,
      state.status = "blocked" ∧ state.workspaceId.isNil = false := by decide
  obtain ⟨hstatus, hworkspace⟩ := hvalues before hbefore
  have hpaused : ∀ changed log₁,
      pauseRun (.counting sampleRun 300) failedLog sampleRun = .ok (changed, log₁) →
      (RunReplayState.fromEvents (stream log₁ sampleRun)).workItems.IsOrder [⟨10⟩] ∧
      (Draws.counting sampleRun 400).OnClock log₁ ∧
      (Draws.counting sampleRun 400).FreshIn log₁ (1 + (retriedItems [⟨10⟩]
        (RunReplayState.fromEvents (stream log₁ sampleRun))).length) := by
    intro changed log₁ hok
    obtain rfl : log₁ = logAfter (pauseRun (.counting sampleRun 300) failedLog sampleRun) := by
      rw [hok]
      rfl
    refine ⟨⟨by decide, fun i => ?_⟩, ⟨countingStamp_monotone 400, by decide⟩, by decide, by decide⟩
    rw [AList.mem_keys]
    exact Iff.rfl
  have hclock₁ : (Draws.counting sampleRun 300).OnClock failedLog :=
    ⟨countingStamp_monotone 300, by decide⟩
  obtain ⟨changed, log₁, hok, hagain⟩ := paused_then_recovered failedLog_onClock hbefore hworkspace
    (by decide) hclock₁ ⟨by decide, by decide⟩
  obtain ⟨horder, hclock, hfresh⟩ := hpaused changed log₁ hok
  obtain ⟨log₂, waiting, hanswer, hlookup, hwaits, -⟩ := hagain _ _ horder hclock hfresh
  exact ⟨before, hbefore, hstatus, changed, log₁, hok, log₂, waiting, hanswer, hlookup, hwaits⟩

end SamtaDashboard

import SamtaDashboard.System.RunLog

/-!
# The orchestrator's replay and the worker's

`RunReplayState::from_events` decides which control operations are accepted,
`run_states_from_events` which runs the worker advances. On the same stream they find the same items
with the same agents, and the same status of the run unless a failure stands: the orchestrator's
replay has no arm for a failed item that touches the run's status.
-/

namespace SamtaDashboard

open EventFold Transition

/-- The two replays give a run the same status, the same items, and every item the same status and
the same agent. -/
structure ReplaysAgree (orchestrator : RunReplayState) (worker : RunState) : Prop where
  status : orchestrator.status = worker.status
  items : ∀ i, (orchestrator.workItems.lookup i).map (fun item => (item.status, item.assignedAgentId)) =
    (worker.items.lookup i).map fun item => (item.status, item.assignedAgentId)

section written

variable {events : List EventEnvelope} {state : RunState}

theorem lookup_workItems_fromEvents (hwritten : ∀ p ∈ payloads events, p.isWritten)
    (hstate : replayRun events = some state) (i : Uuid) :
    (RunReplayState.fromEvents events).workItems.lookup i =
      (state.items.lookup i).map fun item => ⟨item.status, item.assignedAgentId⟩ := by
  rw [RunReplayState.lookup_fromEvents, lookup_items_replayRun hstate,
    lastWrite_blockableStatus hwritten, Option.map_map]
  rfl

theorem replaysAgree_of_written (hwritten : ∀ p ∈ payloads events, p.isWritten)
    (hstate : replayRun events = some state) :
    ReplaysAgree (RunReplayState.fromEvents events) state ↔ ¬ FailureStands (payloads events) := by
  rw [← workerStatus_eq_orchestratorStatus_iff hwritten, ← status_replayRun hstate,
    ← RunReplayState.status_fromEvents]
  refine ⟨ReplaysAgree.status, fun hstatus => ⟨hstatus, fun i => ?_⟩⟩
  rw [lookup_workItems_fromEvents hwritten hstate, Option.map_map]
  rfl

end written

theorem RunLog.lookup_stream {log : EventLog} (hrun : RunLog log) (r : Uuid) :
    (runStatesFromEvents (stream log r)).lookup r = replayRun (stream log r) := by
  rw [lookup_runStatesFromEvents, hrun.runEvents_stream]

/-- In every log of a history, whatever the clocks show: the two replays of a run's stream agree
exactly if no failure stands in it. -/
theorem replaysAgree_iff {log : EventLog} (h : Reachable history log) {r : Uuid}
    (hr : stream log r ≠ []) :
    (stream log r).Pairwise (·.revision < ·.revision) ∧
      ∃ state, (runStatesFromEvents (stream log r)).lookup r = some state ∧
        (ReplaysAgree (RunReplayState.fromEvents (stream log r)) state ↔
          ¬ FailureStands (payloads (stream log r))) := by
  have hwf := history_wellFormed h
  obtain ⟨state, hstate⟩ := Option.isSome_iff_exists.mp (replayRun_isSome.mpr hr)
  refine ⟨(hwf.gapFree r).pairwise, state, ?_, ?_⟩
  · rw [(history_runLog h).lookup_stream, hstate]
  · exact replaysAgree_of_written (hwf.written_stream r) hstate

def failedLog : EventLog := tickedLog (sampleExecutor [⟨10⟩]) 200 (startedLog 1)

theorem failedLog_reachable : Reachable history failedLog :=
  tickedLog_reachable startedLog_one_reachable _ _ (by decide) (by decide)

theorem replaysAgree_iff_failedLog : stream failedLog sampleRun ≠ [] ∧
    ∃ state, (runStatesFromEvents (stream failedLog sampleRun)).lookup sampleRun = some state ∧
      (ReplaysAgree (RunReplayState.fromEvents (stream failedLog sampleRun)) state ↔
        ¬ FailureStands (payloads (stream failedLog sampleRun))) :=
  have hne := List.ne_nil_of_length_pos (by decide)
  ⟨hne, (replaysAgree_iff failedLog_reachable hne).2⟩

/-- After a failed execution the orchestrator still sees the run running. -/
theorem replays_disagree : Reachable history failedLog ∧ stream failedLog sampleRun ≠ [] ∧
    (RunReplayState.fromEvents (stream failedLog sampleRun)).status = "running" ∧
    ∀ state, (runStatesFromEvents (stream failedLog sampleRun)).lookup sampleRun = some state →
      state.status = "blocked" ∧
        ¬ ReplaysAgree (RunReplayState.fromEvents (stream failedLog sampleRun)) state := by
  have horchestrator : (RunReplayState.fromEvents (stream failedLog sampleRun)).status = "running" := by
    decide
  have hworker : ((runStatesFromEvents (stream failedLog sampleRun)).lookup sampleRun).map
      RunState.status = some "blocked" := by
    decide
  refine ⟨failedLog_reachable, List.ne_nil_of_length_pos (by decide), horchestrator,
    fun state hstate => ?_⟩
  rw [hstate, Option.map_some, Option.some.injEq] at hworker
  refine ⟨hworker, fun hagree => ?_⟩
  rw [← hagree.status, horchestrator] at hworker
  exact absurd hworker (by decide)

end SamtaDashboard

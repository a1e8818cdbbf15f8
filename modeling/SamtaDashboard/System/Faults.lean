import SamtaDashboard.Application.TickMemory
import SamtaDashboard.System.Schedule

/-!
# Interleavings on a database that fails

In addition to the steps of an interleaving, a read of a worker's append may fail, and so may its
append: before the commit, or after it when only the answer is lost. A failed `load_all` leaves the
worker where it is, and a request that fails anywhere is dropped, so these need no step of their own.

A faulty step changes the log as some step of the interleaving does (`World.FaultyStep.commit`). An
invariant of the log that every commit keeps holds in spite of the failures
(`faulty_log_invariant`); one of these is that no item is left `running` (`no_item_running`).
-/

namespace SamtaDashboard

open EventFold Transition

inductive FaultyAction where
  | sound (a : Action)
  /-- the `load` of an attempt fails -/
  | loseRead (w : Nat)
  /-- the append fails and has no effect -/
  | loseAppend (w : Nat)
  /-- the append takes effect and is reported as an error -/
  | loseAck (w : Nat)

inductive World.FaultyStep (d : Deployment) (s : World) : FaultyAction → World → Prop
  | sound {a : Action} {s' : World} : s.Step d a s' → FaultyStep d s (.sound a) s'
  | loseRead {w : Nat} {snapshot : Snapshot} {runs : List Uuid} {r : Uuid}
      {batch : List EventEnvelope} {retries : Nat} :
      s.workers w = .appending snapshot runs r batch none retries →
      FaultyStep d s (.loseRead w) (s.setWorker w (afterFailure snapshot runs r batch retries))
  | loseAppend {w : Nat} {snapshot : Snapshot} {runs : List Uuid} {r : Uuid}
      {batch : List EventEnvelope} {latest : Int} {retries : Nat} :
      s.workers w = .appending snapshot runs r batch (some latest) retries →
      FaultyStep d s (.loseAppend w) (s.setWorker w (afterFailure snapshot runs r batch retries))
  | loseAck {w : Nat} {snapshot : Snapshot} {runs : List Uuid} {r : Uuid}
      {batch : List EventEnvelope} {latest : Int} {retries : Nat} {log' : EventLog} :
      s.workers w = .appending snapshot runs r batch (some latest) retries →
      append s.log r (withRebasedRevisions batch latest) = .ok log' →
      FaultyStep d s (.loseAck w)
        { s.setWorker w (afterFailure snapshot runs r batch retries) with log := log' }

def faulty (d : Deployment) : System World FaultyAction where
  init := (· = World.init)
  step s a s' := s.FaultyStep d a s'

variable {d : Deployment} {s s' : World}

theorem Reach.faulty (h : Reachable (interleaving d) s) :
    Reachable (SamtaDashboard.faulty d) s := by
  induction h with
  | init hinit => exact .init hinit
  | step a _ hstep _ ih => exact .step (.sound a) ih (.sound hstep) trivial

/-! ### A faulty step commits what a step commits -/

theorem World.setWorker_setWorker (s : World) (w : Nat) (phase phase' : WorkerPhase) :
    (s.setWorker w phase).setWorker w phase' = s.setWorker w phase' := by
  simp only [setWorker, Function.update_idem]

theorem World.FaultyStep.commit {a : FaultyAction} (h : s.FaultyStep d a s') (hinv : s.Inv d) :
    ∃ b s'', Commit d s b s'' ∧ s''.log = s'.log := by
  cases h with
  | sound hstep => exact ⟨_, _, hstep.commit hinv, rfl⟩
  | loseRead | loseAppend =>
    exact ⟨.pass s.now, _, World.Step.commit (.pass (le_refl _)) hinv, rfl⟩
  | loseAck hphase happ => exact ⟨_, _, World.Step.commit (.append hphase happ) hinv, rfl⟩

theorem World.FaultyStep.inv {a : FaultyAction} (h : s.FaultyStep d a s') (hinv : s.Inv d) :
    s'.Inv d := by
  cases h with
  | sound hstep => exact hstep.inv hinv
  | @loseRead w snapshot runs r batch retries hphase =>
    have hknown := hinv.workers w
    rw [hphase] at hknown
    exact hinv.setWorker w (World.Inv.afterFailure hknown)
  | @loseAppend w snapshot runs r batch latest retries hphase =>
    have hknown := hinv.workers w
    rw [hphase] at hknown
    exact hinv.setWorker w (World.Inv.afterFailure hknown)
  | @loseAck w snapshot runs r batch latest retries log' hphase happ =>
    have hknown := hinv.workers w
    rw [hphase] at hknown
    -- the append has taken effect, but the worker does not know
    have happended : World.Step d s (.append w)
        { s.setWorker w (.ticking snapshot runs) with log := log' } := .append hphase happ
    have hlater : s.moment.Later ⟨s.now, log'⟩ := ⟨le_refl _, happended.log_mono hinv⟩
    have hworker : (afterFailure snapshot runs r batch retries).Inv d ⟨s.now, log'⟩ w :=
      (World.Inv.afterFailure hknown).mono hlater
    have hall := (happended.inv hinv).setWorker w hworker
    rwa [show World.setWorker { s.setWorker w (.ticking snapshot runs) with log := log' } w
        (afterFailure snapshot runs r batch retries) =
      { s.setWorker w (afterFailure snapshot runs r batch retries) with log := log' } from
        congrArg (fun t : World => { t with log := log' })
          (s.setWorker_setWorker w (.ticking snapshot runs) _)] at hall

theorem World.Inv.of_faulty (h : Reachable (faulty d) s) : s.Inv d :=
  h.invariant (by rintro s rfl; exact .init d) fun _ _ _ hinv hstep _ => hstep.inv hinv

theorem faulty_log_invariant {I : EventLog → Prop} (h : Reachable (faulty d) s) (hempty : I [])
    (hcommit : ∀ s a s', s.Inv d → I s.log → Commit d s a s' → I s'.log) : I s.log := by
  refine h.invariant_of (K := World.Inv d) (I := fun s => I s.log)
    (fun _ => World.Inv.of_faulty) ?_ ?_
  · rintro s rfl
    exact hempty
  · intro s a s' hinv hI hstep _
    obtain ⟨b, s'', hcommits, hlog⟩ := hstep.commit hinv
    exact hlog ▸ hcommit s b s'' hinv hI hcommits

/-! ### No item is left running -/

section running

variable {i : Uuid}

/-- In no stream a `WorkItemStarted` is the last event that sets the status of an item. -/
def NoneRunning (log : EventLog) : Prop :=
  ∀ r i, lastWrite (EventPayload.itemStatus? i) (payloads (stream log r)) ≠ some .running

theorem not_orchestrated_of_running {p : EventPayload} (h : p.itemStatus? i = some .running) :
    p.isOrchestrated = false := by
  cases p <;> first | rfl | simp [EventPayload.itemStatus?] at h

/-- The events of an execution do not end with its start. -/
theorem Outcome.status_ne_running (outcome : Outcome) : outcome.status ≠ .running := by
  unfold Outcome.status
  split <;> decide

theorem lastWrite_executed_ne_running {worker : Worker} {runId : Uuid}
    (executed : List (Uuid × Outcome)) :
    lastWrite (EventPayload.itemStatus? i) (executedPayloads worker runId executed) ≠
      some .running := by
  induction executed with
  | nil => exact nofun
  | cons x executed ih =>
    rw [executedPayloads_cons, lastWrite_append, lastWrite_itemStatus_outcome]
    cases hlast : lastWrite (EventPayload.itemStatus? i)
        (executedPayloads worker runId executed) with
    | some status => rwa [hlast] at ih
    | none =>
      rw [Option.none_or]
      split
      · exact fun heq => x.2.status_ne_running (Option.some.inj heq)
      · exact nofun

theorem NoneRunning.append {log log' rows : EventLog} {r : Uuid} (h : NoneRunning log)
    (happ : Appended log log' r rows)
    (hrows : ∀ i, lastWrite (EventPayload.itemStatus? i) (payloads rows) ≠ some .running) :
    NoneRunning log' := by
  intro r' i
  rw [happ.payloads_stream, lastWrite_append]
  have hrows := hrows i
  split
  · cases hlast : lastWrite (EventPayload.itemStatus? i) (payloads rows) with
    | some status => rwa [hlast] at hrows
    | none => exact h r' i
  · exact h r' i

theorem NoneRunning.commit {a : Action} (h : NoneRunning s.log) (hcommit : Commit d s a s') :
    NoneRunning s'.log := by
  cases hcommit with
  | nothing _ hlog => rwa [hlog]
  | request _ hreq =>
    refine h.append hreq.appended fun i hlast => ?_
    obtain ⟨p, hp, hwrite⟩ := lastWrite_mem hlast
    have horchestrated := hreq.decided.orchestrated p hp
    rw [not_orchestrated_of_running hwrite] at horchestrated
    cases horchestrated
  | batch _ hbatch =>
    obtain ⟨executor, state, state', executed, summary, -, hadv⟩ := hbatch.prepared.advanced
    refine h.append hbatch.appended fun i hlast => ?_
    rw [lastWrite_replayBatch hadv hbatch.payloads fun _ => rfl] at hlast
    exact lastWrite_executed_ne_running executed hlast

end running

/-- The events that the worker's grouping of a stream leaves out set no item's status. -/
theorem lastWrite_itemStatus_runEvents {log : EventLog} (hwf : WellFormed log) (r i : Uuid) :
    lastWrite (EventPayload.itemStatus? i) (payloads (runEvents (stream log r) r)) =
      lastWrite (EventPayload.itemStatus? i) (payloads (stream log r)) := by
  rw [← lastWrite_payloads, ← lastWrite_payloads]
  refine lastWrite_filter fun e he hwrites => decide_eq_true (hwf.runIdForEvent_eq he ?_)
  unfold runIdForEvent
  cases hp : e.payload <;> simp_all [EventPayload.itemStatus?, EventPayload.runId?]

/-- Whatever fails and whenever a worker stops, no item of a stream is left running: neither the
orchestrator's nor the worker's replay of the stream, in the order of the revisions, has an item with
status `running`. -/
theorem no_item_running (h : Reachable (faulty d) s) (r : Uuid) :
    (stream s.log r).Pairwise (·.revision < ·.revision) ∧
    (∀ i item, (RunReplayState.fromEvents (stream s.log r)).workItems.lookup i = some item →
      item.status ≠ .running) ∧
    ∀ r' state, (runStatesFromEvents (stream s.log r)).lookup r' = some state →
      ∀ i item, state.items.lookup i = some item → item.status ≠ .running := by
  have hwf : WellFormed s.log := (World.Inv.of_faulty h).sound.wellFormed
  have hnone : NoneRunning s.log :=
    faulty_log_invariant h (fun _ _ => nofun) fun _ _ _ _ hI hcommit => hI.commit hcommit
  refine ⟨(hwf.gapFree r).pairwise, fun i item hitem hrunning => hnone r i ?_,
    fun r' state hstate i item hitem hrunning => hnone r i ?_⟩
  · rw [RunReplayState.lookup_fromEvents, lastWrite_blockableStatus (hwf.written_stream r)] at hitem
    obtain ⟨status, hstatus, rfl⟩ := Option.map_eq_some_iff.mp hitem
    exact hrunning ▸ hstatus
  · rw [lookup_runStatesFromEvents] at hstate
    rw [lookup_items_replayRun hstate] at hitem
    obtain ⟨status, hstatus, rfl⟩ := Option.map_eq_some_iff.mp hitem
    -- the worker finds events of no other run in the stream
    obtain rfl : r' = r := by
      obtain ⟨e, he⟩ := List.exists_mem_of_ne_nil _ (replayRun_isSome.mp (by rw [hstate]; rfl))
      obtain ⟨he, hrun⟩ := List.mem_filter.mp he
      obtain ⟨hlog, hres⟩ := mem_stream.mp he
      rw [← hres, hwf.resourceId_eq hlog (by simpa using hrun)]
    rw [← lastWrite_itemStatus_runEvents hwf, hstatus]
    exact congrArg some hrunning

theorem no_item_running_prompt :
    (stream (logAfterActions promptActions) sampleRun).Pairwise (·.revision < ·.revision) ∧
    (∀ i item, (RunReplayState.fromEvents
        (stream (logAfterActions promptActions) sampleRun)).workItems.lookup i = some item →
      item.status ≠ .running) ∧
    ∀ r' state, (runStatesFromEvents
        (stream (logAfterActions promptActions) sampleRun)).lookup r' = some state →
      ∀ i item, state.items.lookup i = some item → item.status ≠ .running :=
  no_item_running (Reach.faulty (World.reach_after (.init rfl) (by decide +kernel))) sampleRun

end SamtaDashboard

import SamtaDashboard.System.Ledger

/-!
# Control calls on a completed run

`retry_run` returns without a change on a run that its replay finds running or completed. `pause_run`,
`resume_run` and `cancel_run` share `change_status`, which compares the replayed status with the new
one only; on a completed run each of them is carried out, and a resumed run is no longer completed.
-/

namespace SamtaDashboard

open EventFold Transition

/-- A call of a control operation with what it draws. -/
inductive ControlCall where
  | pause (draws : Draws)
  | resume (draws : Draws)
  | cancel (draws : Draws)
  | retry (draws : Draws) (order : List Uuid)

namespace ControlCall

def run (log : EventLog) (runId : Uuid) : ControlCall → Except String (Bool × EventLog)
  | pause draws => pauseRun draws log runId
  | resume draws => resumeRun draws log runId
  | cancel draws => cancelRun draws log runId
  | retry draws order => retryRun draws order log runId

def isRetry : ControlCall → Bool
  | retry .. => true
  | _ => false

def status : ControlCall → String
  | pause _ => "paused"
  | resume _ | retry .. => "running"
  | cancel _ => "cancelled"

/-- Calls made one after the other: what each returns and the log in the end. A call that fails leaves
the log as it is. -/
def runAll (runId : Uuid) (log : EventLog) :
    List ControlCall → List (Except String Bool) × EventLog
  | [] => ([], log)
  | call :: calls =>
    match call.run log runId with
    | .ok (changed, log') => ((runAll runId log' calls).map (.ok changed :: ·) id)
    | .error message => ((runAll runId log calls).map (.error message :: ·) id)

end ControlCall

/-- Every call returns `Ok(false)`, and the run's stream stays as it is. -/
def AllRefused (log : EventLog) (r : Uuid) (calls : List ControlCall) : Prop :=
  (∀ result ∈ (ControlCall.runAll r log calls).1, result = .ok false) ∧
    stream (ControlCall.runAll r log calls).2 r = stream log r

section refused

variable {log : EventLog} {r : Uuid} {events : List EventEnvelope}

/-! ### One call -/

theorem control_of_decide_eq_none {decide : List EventEnvelope → Option (List EventPayload)}
    {draws : Draws} (hload : load log r = .ok events) (hne : events ≠ [])
    (hdecide : decide events = none) : control decide draws log r = .ok (false, log) := by
  simp [control, hload, bind, Except.bind, hne, hdecide, pure, Except.pure]

theorem control_ne_refused {decide : List EventEnvelope → Option (List EventPayload)}
    {draws : Draws} {ps : List EventPayload} (hload : load log r = .ok events)
    (hne : events ≠ []) (hdecide : decide events = some ps) (log' : EventLog) :
    control decide draws log r ≠ .ok (false, log') := by
  simp only [control, hload, bind, Except.bind, List.isEmpty_iff, hne, if_false, hdecide, pure,
    Except.pure]
  cases happ : appendNext draws log r ps <;> simp

theorem ne_nil_of_completed (hstatus : (RunReplayState.fromEvents events).status = "completed") :
    events ≠ [] := by
  rintro rfl
  exact absurd hstatus (by decide)

variable {call : ControlCall} (hload : load log r = .ok events)
  (hstatus : (RunReplayState.fromEvents events).status = "completed")

include hload hstatus

theorem ControlCall.run_of_isRetry (hretry : call.isRetry) :
    call.run log r = .ok (false, log) := by
  cases call with
  | pause | resume | cancel => cases hretry
  | retry draws order =>
    refine control_of_decide_eq_none hload (ne_nil_of_completed hstatus) ?_
    rw [retryPayloads, hstatus, if_neg (by decide), if_pos rfl]

/-- The status that another operation sets is not the one it finds. -/
theorem ControlCall.run_ne_refused (hretry : ¬ call.isRetry) (log' : EventLog) :
    call.run log r ≠ .ok (false, log') := by
  have hchange : ∀ (draws : Draws) (status : String) (reason : Option String),
      status ≠ "completed" → changeStatus draws log r status reason ≠ .ok (false, log') := by
    intro draws status reason hother
    refine control_ne_refused hload (ne_nil_of_completed hstatus) (if_neg ?_) log'
    rw [hstatus]
    exact hother.symm
  cases call with
  | pause draws => exact hchange draws "paused" _ (by decide)
  | resume draws => exact hchange draws "running" _ (by decide)
  | cancel draws => exact hchange draws "cancelled" _ (by decide)
  | retry => exact absurd rfl hretry

/-! ### Finitely many calls -/

/-- On a run whose stream replays to `completed` all calls are refused exactly if they are retries. -/
theorem allRefused_iff (calls : List ControlCall) :
    AllRefused log r calls ↔ ∀ call ∈ calls, call.isRetry := by
  unfold AllRefused
  induction calls with
  | nil => simp [ControlCall.runAll]
  | cons call calls ih =>
    by_cases hretry : call.isRetry
    · simp only [ControlCall.runAll, ControlCall.run_of_isRetry hload hstatus hretry, Prod.map_fst,
        Prod.map_snd, List.forall_mem_cons, hretry, true_and, id_eq]
      exact ih
    · refine iff_of_false (fun h => ?_) fun h => hretry (h call List.mem_cons_self)
      simp only [ControlCall.runAll] at h
      cases hrun : call.run log r with
      | error message => simp [hrun] at h
      | ok result =>
        obtain ⟨changed, log'⟩ := result
        rw [hrun] at h
        obtain rfl : changed = false := by simpa using h.1 (.ok changed) List.mem_cons_self
        exact ControlCall.run_ne_refused hload hstatus hretry log' hrun

end refused

def pauseCompleted : ControlCall := .pause (Draws.counting sampleRun 900)

theorem load_completedLog :
    load completedLog sampleRun = .ok (stream completedLog sampleRun) :=
  (history_wellFormed completedLog_reachable).gapFree.load_eq_ok.mpr ⟨rfl, by decide +kernel⟩

theorem replay_completedLog :
    (RunReplayState.fromEvents (stream completedLog sampleRun)).status = "completed" := by
  decide +kernel

theorem allRefused_retries :
    AllRefused completedLog sampleRun [.retry (Draws.counting sampleRun 900) []] ↔
      ∀ call ∈ [ControlCall.retry (Draws.counting sampleRun 900) []], call.isRetry :=
  allRefused_iff load_completedLog replay_completedLog _

/-- The pause returns `Ok(true)` and reopens the run. -/
theorem not_allRefused_pauseCompleted : Reachable history completedLog ∧
    (RunReplayState.fromEvents (stream completedLog sampleRun)).status = "completed" ∧
    (ControlCall.runAll sampleRun completedLog [pauseCompleted]).1 = [.ok true] ∧
    ¬ AllRefused completedLog sampleRun [pauseCompleted] := by
  have hresults : (ControlCall.runAll sampleRun completedLog [pauseCompleted]).1 = [.ok true] := by
    decide +kernel
  refine ⟨completedLog_reachable, replay_completedLog, hresults, fun h => ?_⟩
  cases h.1 (.ok true) (hresults ▸ List.mem_cons_self)

end SamtaDashboard

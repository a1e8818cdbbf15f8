import Mathlib.Computability.RegularExpressions
import SamtaDashboard.Application.TickMemory
import SamtaDashboard.System.ReplayAgreement

/-!
# The life of an item

An item is assigned, maybe several times, then started and either completed, with a progress chunk, or
failed; after a failure it may be assigned again, after a completion nothing happens to it. The steps
that a history records of an item match this pattern (`lifecycle`) as long as every execution has a
result and the worker reads the events of a run in their order. The arm of the loop for an executor
error records a failure without a start.
-/

namespace SamtaDashboard

open EventFold Transition Computability

/-! ### The steps of an item -/

inductive ItemStep where
  | assigned
  | started
  | completed
  | progress
  | failed
  deriving DecidableEq

def ItemStep.status? : ItemStep → Option ItemStatus
  | assigned => some .assigned
  | started => some .running
  | completed => some .completed
  | progress => none
  | failed => some .failed

/-- The step of item `i` that a payload records. -/
def EventPayload.itemStep? (i : Uuid) : EventPayload → Option ItemStep
  | workItemAssigned _ itemId _ => if itemId = i then some .assigned else none
  | workItemStarted _ itemId _ => if itemId = i then some .started else none
  | workItemCompleted _ itemId .. => if itemId = i then some .completed else none
  | progressChunkEmitted _ itemId .. => if itemId = i then some .progress else none
  | workItemFailed _ itemId _ => if itemId = i then some .failed else none
  | _ => none

/-- The steps of item `i` that some payloads record. -/
def itemSteps (i : Uuid) (ps : List EventPayload) : List ItemStep :=
  ps.filterMap (EventPayload.itemStep? i)

/-- `Assigned+ (Started (Completed Progress | Failed))?` -/
def itemRound : RegularExpression ItemStep :=
  .char .assigned * .star (.char .assigned) *
    (1 + .char .started * (.char .completed * .char .progress + .char .failed))

/-- `(Assigned+ (Started (Completed Progress | Failed))?)*` -/
def lifecycle : RegularExpression ItemStep := .star itemRound

/-- The steps match the pattern, and nothing follows a completion with its progress chunk. -/
def ItemLifecycle (steps : List ItemStep) : Prop :=
  steps ∈ lifecycle.matches' ∧
    ∀ pre post, steps = pre ++ [.completed, .progress] ++ post → post = []

section steps

variable {i : Uuid} {ps qs : List EventPayload}

theorem itemSteps_append : itemSteps i (ps ++ qs) = itemSteps i ps ++ itemSteps i qs :=
  List.filterMap_append ..

theorem lastWrite_status_itemSteps :
    lastWrite ItemStep.status? (itemSteps i ps) = lastWrite (EventPayload.itemStatus? i) ps := by
  unfold lastWrite itemSteps
  rw [List.filterMap_filterMap]
  refine congrArg List.getLast? (List.filterMap_congr fun p _ => ?_)
  cases p <;> simp only [EventPayload.itemStep?, EventPayload.itemStatus?] <;>
    first | rfl | (split <;> rfl)

theorem itemSteps_of_none (h : ∀ p ∈ ps, p.itemId? = none) : itemSteps i ps = [] := by
  refine List.filterMap_eq_nil_iff.mpr fun p hp => ?_
  have hnone := h p hp
  cases p <;> simp_all [EventPayload.itemStep?, EventPayload.itemId?]

theorem itemSteps_assignments (r : Uuid) (assigned : Assignments) :
    (∀ step ∈ itemSteps i (assigned.payloads r), step = .assigned) ∧
      (i ∉ assigned.map (·.1) → itemSteps i (assigned.payloads r) = []) := by
  constructor
  · intro step hstep
    obtain ⟨p, hp, hkind⟩ := List.mem_filterMap.mp hstep
    obtain ⟨x, -, rfl⟩ := Assignments.mem_payloads hp
    rw [EventPayload.itemStep?, Option.ite_none_right_eq_some] at hkind
    exact (Option.some.inj hkind.2).symm
  · intro hi
    refine List.filterMap_eq_nil_iff.mpr fun p hp => ?_
    obtain ⟨x, hx, rfl⟩ := Assignments.mem_payloads hp
    exact if_neg fun heq : x.1 = i => hi (heq ▸ List.mem_map_of_mem hx)

/-- The steps that the worker records for an execution. -/
def Outcome.steps : Outcome → List ItemStep
  | .error _ => [.failed]
  | .ok result => if result.success then [.started, .completed, .progress] else [.started, .failed]

theorem itemSteps_outcome (worker : Worker) (r itemId : Uuid) (outcome : Outcome) :
    itemSteps i (outcome.payloads worker r itemId) = if itemId = i then outcome.steps else [] := by
  by_cases h : itemId = i
  · cases outcome with
    | error message => simp [itemSteps, Outcome.payloads, Outcome.steps, EventPayload.itemStep?, h]
    | ok result =>
      cases hsucc : result.success <;>
        simp [itemSteps, Outcome.payloads, Outcome.steps, EventPayload.itemStep?, h, hsucc]
  · rw [if_neg h]
    refine List.filterMap_eq_nil_iff.mpr fun p hp => ?_
    have hitem := (mem_outcome_payloads worker r itemId outcome hp).2.1
    cases p <;> simp_all [EventPayload.itemStep?, EventPayload.itemId?]

theorem itemSteps_executed_of_not_mem {worker : Worker} {r : Uuid}
    {executed : List (Uuid × Outcome)} (h : i ∉ executed.map (·.1)) :
    itemSteps i (executedPayloads worker r executed) = [] := by
  induction executed with
  | nil => rfl
  | cons x executed ih =>
    rw [List.map_cons, List.mem_cons, not_or] at h
    rw [executedPayloads_cons, itemSteps_append, itemSteps_outcome, if_neg (Ne.symm h.1), ih h.2,
      List.append_nil]

theorem itemSteps_executed_of_mem {worker : Worker} {r : Uuid} {executed : List (Uuid × Outcome)}
    (hnodup : (executed.map (·.1)).Nodup) {outcome : Outcome} (h : (i, outcome) ∈ executed) :
    itemSteps i (executedPayloads worker r executed) = outcome.steps := by
  induction executed with
  | nil => cases h
  | cons x executed ih =>
    rw [List.map_cons, List.nodup_cons] at hnodup
    rw [executedPayloads_cons, itemSteps_append, itemSteps_outcome]
    rcases List.mem_cons.mp h with rfl | h
    · rw [if_pos rfl, itemSteps_executed_of_not_mem hnodup.1, List.append_nil]
    · have hne : x.1 ≠ i := fun heq => hnodup.1 (heq ▸ List.mem_map_of_mem h)
      rw [if_neg hne, ih hnodup.2 h, List.nil_append]

end steps

/-! ### How an item lives -/

/-- What happens to an item in a history without executor errors. -/
inductive Lived : List ItemStep → Prop
  | nil : Lived []
  | assigned {steps : List ItemStep} : Lived steps → .progress ∉ steps → Lived (steps ++ [.assigned])
  | executed {steps : List ItemStep} {outcome : Outcome} : Lived steps → .progress ∉ steps →
      outcome.isResult → Lived (steps ++ [.assigned] ++ outcome.steps)

theorem Outcome.steps_of_isResult {outcome : Outcome} (h : outcome.isResult) :
    outcome.steps = [.started, .completed, .progress] ∨ outcome.steps = [.started, .failed] := by
  cases outcome with
  | error message => cases h
  | ok result =>
    unfold steps
    dsimp only
    split
    · exact Or.inl rfl
    · exact Or.inr rfl

namespace Lived

variable {steps more : List ItemStep}

theorem matches_append (h : steps ∈ lifecycle.matches') (hmore : more ∈ itemRound.matches') :
    steps ++ more ∈ lifecycle.matches' := by
  rw [lifecycle, RegularExpression.matches'_star] at h ⊢
  have hstar : itemRound.matches'∗ * itemRound.matches' ≤ itemRound.matches'∗ := kstar_mul_le_kstar
  exact hstar (Language.append_mem_mul h hmore)

theorem matches' (h : Lived steps) : steps ∈ lifecycle.matches' := by
  induction h with
  | nil =>
    rw [lifecycle, RegularExpression.matches'_star]
    exact Language.nil_mem_kstar _
  | assigned _ _ ih => exact matches_append ih (by decide)
  | executed _ _ hresult ih =>
    rw [List.append_assoc]
    refine matches_append ih ?_
    rcases Outcome.steps_of_isResult hresult with hsteps | hsteps <;> rw [hsteps] <;> decide

theorem progress_not_mem_dropLast (h : Lived steps) : .progress ∉ steps.dropLast := by
  cases h with
  | nil => exact List.not_mem_nil
  | assigned _ hprogress => rwa [List.dropLast_concat]
  | @executed steps outcome _ hprogress hresult =>
    rcases Outcome.steps_of_isResult hresult with hsteps | hsteps
    · rw [hsteps, show steps ++ [.assigned] ++ [.started, .completed, .progress] =
        steps ++ [.assigned, .started, .completed] ++ [.progress] by simp, List.dropLast_concat]
      simp [hprogress]
    · rw [hsteps, show steps ++ [.assigned] ++ [.started, .failed] =
        steps ++ [.assigned, .started] ++ [.failed] by simp, List.dropLast_concat]
      simp [hprogress]

theorem itemLifecycle (h : Lived steps) : ItemLifecycle steps := by
  refine ⟨h.matches', fun pre post heq => ?_⟩
  by_contra hpost
  refine h.progress_not_mem_dropLast ?_
  rw [heq, List.dropLast_append_of_ne_nil hpost]
  simp

theorem append_assigned (h : Lived steps) (hmore : ∀ step ∈ more, step = .assigned)
    (hprogress : more ≠ [] → .progress ∉ steps) : Lived (steps ++ more) := by
  induction more using List.reverseRecOn with
  | nil => rwa [List.append_nil]
  | append_singleton more step ih =>
    rw [List.forall_mem_append, List.forall_mem_singleton] at hmore
    have hsteps : ItemStep.progress ∉ steps := hprogress (by simp)
    rw [← List.append_assoc, hmore.2]
    refine (ih hmore.1 fun _ => hsteps).assigned fun hmem => ?_
    rcases List.mem_append.mp hmem with hmem | hmem
    · exact hsteps hmem
    · exact ItemStep.noConfusion (hmore.1 _ hmem)

theorem completed_of_progress (h : Lived steps) (hprogress : .progress ∈ steps) :
    lastWrite ItemStep.status? steps = some .completed := by
  cases h with
  | nil => cases hprogress
  | assigned _ hnot => simp_all
  | executed _ hnot hresult =>
    rcases Outcome.steps_of_isResult hresult with hsteps | hsteps
    · rw [hsteps, lastWrite_append]
      rfl
    · simp_all

theorem of_assigned (h : Lived steps) (hstatus : lastWrite ItemStep.status? steps = some .assigned) :
    ∃ before, steps = before ++ [.assigned] ∧ Lived before ∧ .progress ∉ before := by
  cases h with
  | nil => cases hstatus
  | assigned hbefore hnot => exact ⟨_, rfl, hbefore, hnot⟩
  | executed _ _ hresult =>
    rw [lastWrite_append] at hstatus
    rcases Outcome.steps_of_isResult hresult with hsteps | hsteps <;> rw [hsteps] at hstatus <;>
      cases hstatus

theorem append_executed (h : Lived steps)
    (hstatus : lastWrite ItemStep.status? steps = some .assigned) {outcome : Outcome}
    (hresult : outcome.isResult) : Lived (steps ++ outcome.steps) := by
  obtain ⟨before, rfl, hbefore, hnot⟩ := h.of_assigned hstatus
  exact hbefore.executed hnot hresult

end Lived

/-! ### Histories without executor errors -/

def Operation.ResultsInOrder (log : EventLog) : Operation → Prop
  | .tick input events => ∀ r state, (runStatesFromEvents events).lookup r = some state →
      LoopConfig.skips state = false →
        InOrder log r ∧ ∀ x ∈ input.executions r state, x.2.isResult
  | _ => True

/-- Every item of every stream lives like this. -/
def AllLived (log : EventLog) : Prop := ∀ r i, Lived (itemSteps i (payloads (stream log r)))

section invariant

variable {base log log' rows : EventLog} {r : Uuid}

theorem AllLived.append (h : AllLived log) (happ : Appended log log' r rows)
    (hrows : ∀ i, Lived (itemSteps i (payloads (stream log r)) ++ itemSteps i (payloads rows))) :
    AllLived log' := by
  intro r' i
  rw [happ.payloads_stream]
  split
  · next heq =>
    subst heq
    rw [itemSteps_append]
    exact hrows i
  · rw [List.append_nil]
    exact h r' i

theorem AllLived.append_quiet (h : AllLived log) (happ : Appended log log' r rows)
    (hrows : ∀ p ∈ payloads rows, p.itemId? = none) : AllLived log' := by
  refine h.append happ fun i => ?_
  rw [itemSteps_of_none hrows, List.append_nil]
  exact h r i

theorem AllLived.visited {input : TickInput} {events : List EventEnvelope} {state state' : RunState}
    {batch : List EventEnvelope} {summary : Option String} (h : AllLived log) (hwf : WellFormed log)
    (hrun : RunLog log) (hvisited : Visited input base events log log' r state state' batch summary)
    (hguard : (Operation.tick input events).ResultsInOrder base) : AllLived log' := by
  obtain ⟨horder, hresults⟩ := hguard r state hvisited.lookup hvisited.processed
  have hadv := hvisited.advances.advanced
  have hstate : replayRun (stream log r) = some state := by
    refine hvisited.advances.read.replayRun_stream hwf hrun ?_
    rwa [InOrder, ← hvisited.unchanged]
  obtain ⟨rows, happ, hps⟩ := hvisited.advances.appended
  refine h.append happ fun i => ?_
  have hsteps : itemSteps i (payloads rows) = itemSteps i
      (executedPayloads input.config.worker r (input.executions r state)) := by
    rw [hps, hadv.payloads, itemSteps_append]
    refine (congrArg _ (itemSteps_of_none fun p hp => ?_)).trans (List.append_nil _)
    obtain ⟨text, -, rfl⟩ := List.mem_map.mp hp
    rfl
  rw [hsteps]
  by_cases hi : i ∈ (input.executions r state).map (·.1)
  · obtain ⟨⟨j, outcome⟩, hx, rfl⟩ := List.mem_map.mp hi
    rw [itemSteps_executed_of_mem hadv.nodup hx]
    -- the worker's replay of the stream is what the item was selected on
    obtain ⟨item, hitem, heligible⟩ := hadv.eligible _ hx
    have hassigned : state.itemStatus j = some .assigned := by
      rw [RunState.itemStatus, hitem, Option.map_some, (LoopConfig.eligible_iff.mp heligible).1]
    rw [itemStatus_replayRun hstate, ← lastWrite_status_itemSteps] at hassigned
    exact (h r j).append_executed hassigned (hresults _ hx)
  · rw [itemSteps_executed_of_not_mem hi, List.append_nil]
    exact h r i

theorem AllLived.makes {operation : Operation} (h : AllLived log) (hwf : WellFormed log)
    (hrun : RunLog log) (hmakes : operation.Makes base log log')
    (hguard : operation.ResultsInOrder base) : AllLived log' := by
  cases hmakes with
  | @startRun draws workspaceId _ _ _ _ hstarted =>
    obtain ⟨rows, objective, target, agents, happ, hps⟩ := hstarted.appended
    refine h.append happ fun i => ?_
    have hnil : stream base draws.resource = [] := hstarted.new.1
    have hsteps : itemSteps i (payloads rows) = itemSteps i
        ((plannedAssignments draws objective target agents).payloads draws.resource) := by
      rw [hps, startRunPayloads_eq]
      rfl
    rw [hnil, hsteps]
    exact Lived.nil.append_assigned (itemSteps_assignments _ _).1 fun _ => List.not_mem_nil
  | pauseRun hstatus | resumeRun hstatus | cancelRun hstatus =>
    obtain ⟨rows, reason, happ, hps⟩ := hstatus.appended
    refine h.append_quiet happ fun p hp => ?_
    rw [hps, List.mem_singleton] at hp
    rw [hp]
    rfl
  | @retryRun draws order r rows _ _ _ happ hps =>
    obtain ⟨-, -, -, heq⟩ := retryPayloads_eq_some.mp hps
    refine h.append happ fun i => ?_
    have hsteps : itemSteps i (payloads rows) = itemSteps i
        ((retryAssignments draws order (stream base r)).payloads r) := by
      rw [heq]
      rfl
    rw [hsteps]
    refine (h r i).append_assigned (itemSteps_assignments _ _).1 fun hne hprogress => ?_
    have hmem : i ∈ (retryAssignments draws order (stream base r)).map (·.1) := by
      by_contra hnot
      exact hne ((itemSteps_assignments _ _).2 hnot)
    have hdone := (h r i).completed_of_progress hprogress
    rw [lastWrite_status_itemSteps, ← lastWrite_blockableStatus (hwf.written_stream r)] at hdone
    rw [map_fst_retryAssignments, map_fst_retriedItems, List.mem_filter,
      RunReplayState.lookup_fromEvents, hdone] at hmem
    simp at hmem
  | tick hvisited => exact h.visited hwf hrun hvisited hguard

end invariant

/-- In every history whose ticks get a result for every item, and read the events of the runs in their
order, the steps of every item match the pattern. -/
theorem item_lifecycle {log : EventLog}
    (h : Reach history (fun log operation => operation.ResultsInOrder log) log) (r : Uuid) :
    (stream log r).Pairwise (·.revision < ·.revision) ∧
      ∀ i, ItemLifecycle (itemSteps i (payloads (stream log r))) := by
  obtain ⟨hwf, -, hlived⟩ := history_guarded (I := fun log => RunLog log ∧ AllLived log)
    ⟨Recorded.empty.runLog, fun _ _ => .nil⟩ (fun _ _ _ _ _ hguard hmakes hwf hI =>
      ⟨hI.1.change hwf hmakes.change, hI.2.makes hwf hI.1 hmakes hguard⟩) h
  exact ⟨(hwf.gapFree r).pairwise, fun i => (hlived r i).itemLifecycle⟩

def doneLog : EventLog := tickedLog (sampleExecutor []) 200 (startedLog 1)

theorem item_lifecycle_done :
    (stream doneLog sampleRun).Pairwise (·.revision < ·.revision) ∧
      ∀ i, ItemLifecycle (itemSteps i (payloads (stream doneLog sampleRun))) := by
  have hstarted : Reach history (fun log operation => operation.ResultsInOrder log) (startedLog 1) :=
    .step (.startRun (.counting sampleRun 100) sampleWorkspace "" (some 1) (some 1)) (.init rfl)
      ⟨⟨rfl, by simp⟩, rfl⟩ trivial
  refine item_lifecycle (tickedLog_reach hstarted _ _ (by decide) (by decide) ?_) sampleRun
  intro r state _ hskips
  have htimes : (startedLog 1).Pairwise (·.occurredAt ≤ ·.occurredAt) := by decide
  refine ⟨htimes.sublist List.filter_sublist, fun x hx => ?_⟩
  obtain ⟨summary, hadv⟩ := LoopConfig.advanceRun_spec (sampleWorker (sampleExecutor []))
    (countingStamp 200) _ r hskips
  obtain ⟨ctx, hctx⟩ := hadv.outcome x hx
  rw [← hctx]
  rfl

/-- An item that the executor reports an error for fails without a start. -/
theorem item_lifecycle_failed : Reachable history failedLog ∧
    itemSteps ⟨10⟩ (payloads (stream failedLog sampleRun)) = [.assigned, .failed] ∧
    ¬ ItemLifecycle (itemSteps ⟨10⟩ (payloads (stream failedLog sampleRun))) := by
  have hsteps : itemSteps ⟨10⟩ (payloads (stream failedLog sampleRun)) = [.assigned, .failed] := by
    decide
  refine ⟨failedLog_reachable, hsteps, fun h => ?_⟩
  rw [hsteps] at h
  exact absurd h.1 (by decide)

end SamtaDashboard

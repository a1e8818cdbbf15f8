import Mathlib.Data.List.Induction
import SamtaDashboard.Domain.Entities
import SamtaDashboard.Events.Envelope
import SamtaDashboard.Lib.EventFold

/-!
# What the replays take from a payload

Three folds read the events: the worker's `run_states_from_events`, the orchestrator's
`RunReplayState::from_events` and `rebuild_projections`. The status of a run, the status and the
agent of an item are in each of them the last value that an event wrote; here is what every payload
writes in each fold.
-/

namespace SamtaDashboard

open EventFold

theorem lastWrite_payloads {V : Type} (w : EventPayload → Option V) (events : List EventEnvelope) :
    lastWrite (fun e => w e.payload) events = lastWrite w (payloads events) :=
  lastWrite_comap w EventEnvelope.payload events

namespace EventPayload

/-- The run status in the orchestrator's replay. -/
def orchestratorStatus? : EventPayload → Option String
  | runStarted .. => some "running"
  | runStatusChanged _ status _ => some status
  | blockerEncountered .. => some "blocked"
  | runCompleted .. => some "completed"
  | _ => none

/-- The run status in the worker's replay: a failed item blocks the run. -/
def workerStatus? : EventPayload → Option String
  | workItemFailed .. => some "blocked"
  | payload => payload.orchestratorStatus?

/-- The run status in the rebuild: a completion and a progress chunk set the run running. -/
def rebuildStatus? : EventPayload → Option String
  | workItemCompleted .. | progressChunkEmitted .. => some "running"
  | payload => payload.workerStatus?

/-- The status of item `i` in the worker's replay. -/
def itemStatus? (i : Uuid) : EventPayload → Option ItemStatus
  | workItemAssigned _ itemId _ => if itemId = i then some .assigned else none
  | workItemStarted _ itemId _ => if itemId = i then some .running else none
  | workItemCompleted _ itemId .. => if itemId = i then some .completed else none
  | workItemFailed _ itemId _ => if itemId = i then some .failed else none
  | _ => none

/-- The status of item `i` in the other two: a blocker is a status of its own. -/
def blockableStatus? (i : Uuid) : EventPayload → Option ItemStatus
  | blockerEncountered _ itemId _ => if itemId = i then some .blocked else none
  | payload => payload.itemStatus? i

/-- The agent of item `i` in the worker's and the orchestrator's replay. -/
def itemAgent? (i : Uuid) : EventPayload → Option Uuid
  | workItemAssigned _ itemId agentId | workItemStarted _ itemId agentId =>
    if itemId = i then some agentId else none
  | _ => none

/-- The agent of item `i` in the rebuild. -/
def assignee? (i : Uuid) : EventPayload → Option Uuid
  | workItemAssigned _ itemId agentId => if itemId = i then some agentId else none
  | _ => none

/-- The workspace of the run. -/
def workspace? : EventPayload → Option Uuid
  | runStarted workspaceId _ => some workspaceId
  | _ => none

theorem itemId?_of_blockableStatus? {i : Uuid} {p : EventPayload} (h : p.blockableStatus? i ≠ none) :
    p.itemId? = some i := by
  cases p <;> simp_all [blockableStatus?, itemStatus?, itemId?]

theorem itemId?_of_itemStatus? {i : Uuid} {p : EventPayload} (h : p.itemStatus? i ≠ none) :
    p.itemId? = some i := by
  cases p <;> simp_all [itemStatus?, itemId?]

theorem itemId?_of_itemAgent? {i : Uuid} {p : EventPayload} (h : p.itemAgent? i ≠ none) :
    p.itemId? = some i := by
  cases p <;> simp_all [itemAgent?, itemId?]

theorem itemId?_of_assignee? {i : Uuid} {p : EventPayload} (h : p.assignee? i ≠ none) :
    p.itemId? = some i := by
  cases p <;> simp_all [assignee?, itemId?]

theorem lastWrite_itemAgent_of_assigned {i : Uuid} {ps : List EventPayload}
    (h : lastWrite (itemStatus? i) ps = some .assigned) :
    lastWrite (itemAgent? i) ps = lastWrite (assignee? i) ps := by
  obtain ⟨pre, p, post, rfl, hp, hpost⟩ := lastWrite_eq_some.mp h
  have hassigned : ∃ r agentId, p = .workItemAssigned r i agentId := by
    cases p <;> simp_all [itemStatus?]
  obtain ⟨r, agentId, rfl⟩ := hassigned
  have hagent : ∀ q ∈ post, q.itemAgent? i = none ∧ q.assignee? i = none := by
    intro q hq
    have hnone := hpost q hq
    cases q <;> simp_all [itemStatus?, itemAgent?, assignee?]
  simp only [lastWrite_append, lastWrite_cons, lastWrite_of_none fun q hq => (hagent q hq).1,
    lastWrite_of_none fun q hq => (hagent q hq).2]
  simp [itemAgent?, assignee?]

end EventPayload

/-! ### Failures that stand

The three replays differ in how a failed item and what follows it show in the status of the run. -/

namespace EventPayload

/-- A failed item raises a failure of the run, an event of the run itself ends it. -/
def failure? : EventPayload → Option Bool
  | workItemFailed .. => some true
  | runStarted .. | runStatusChanged .. | runCompleted .. => some false
  | _ => none

/-- The same, but a completion or a progress chunk ends it as well. -/
def visibleFailure? : EventPayload → Option Bool
  | workItemCompleted .. | progressChunkEmitted .. => some false
  | payload => payload.failure?

theorem rebuildStatus?_of_quiet {p : EventPayload} (h : p.charge? = none) :
    p.rebuildStatus? = p.workerStatus? ∧ p.visibleFailure? = p.failure? := by
  cases p <;> first | exact ⟨rfl, rfl⟩ | cases h

theorem rebuildStatus?_of_charged {p : EventPayload} (h : p.charge? ≠ none) :
    p.failure? = none ∧ p.visibleFailure? = some false ∧ p.rebuildStatus? = some "running" ∧
      p.workerStatus? = none := by
  cases p <;> first | exact ⟨rfl, rfl, rfl, rfl⟩ | exact absurd rfl h

theorem workerStatus?_of_failure?_eq_none {p : EventPayload} (hwritten : p.isWritten)
    (h : p.failure? = none) : p.workerStatus? = none := by
  cases p <;> first | rfl | exact absurd hwritten Bool.false_ne_true | cases h

theorem workerStatus?_of_failure?_eq_some {p : EventPayload} {b : Bool} (h : p.failure? = some b) :
    ∃ status, p.workerStatus? = some status := by
  cases p <;> first | exact ⟨_, rfl⟩ | cases h

end EventPayload

/-- Of the run's `RunStarted`, `RunStatusChanged`, `RunCompleted` and `WorkItemFailed` events the
last one is a `WorkItemFailed`. -/
def FailureStands (ps : List EventPayload) : Prop :=
  lastWrite EventPayload.failure? ps = some true

/-- A failure stands, and a `WorkItemCompleted` or a `ProgressChunkEmitted` follows it. -/
def MaskedFailure (ps : List EventPayload) : Prop :=
  FailureStands ps ∧ lastWrite EventPayload.visibleFailure? ps = some false

instance (ps : List EventPayload) : Decidable (FailureStands ps) :=
  inferInstanceAs (Decidable (_ = _))

instance (ps : List EventPayload) : Decidable (MaskedFailure ps) :=
  inferInstanceAs (Decidable (_ ∧ _))

section written

variable {ps : List EventPayload} (hps : ∀ p ∈ ps, p.isWritten)

include hps

/-- Nobody writes blockers, so a blocked item has failed. -/
theorem lastWrite_blockableStatus (i : Uuid) :
    lastWrite (EventPayload.blockableStatus? i) ps = lastWrite (EventPayload.itemStatus? i) ps := by
  refine lastWrite_congr fun p hp => ?_
  have hwritten := hps p hp
  cases p <;> simp_all [EventPayload.blockableStatus?, EventPayload.isWritten]

theorem lastWrite_orchestratorStatus_ne :
    (lastWrite EventPayload.orchestratorStatus? ps).getD "pending" ≠ "blocked" := by
  cases h : lastWrite EventPayload.orchestratorStatus? ps with
  | none => decide
  | some status =>
    obtain ⟨p, hp, hwrite⟩ := lastWrite_mem h
    have hwritten := hps p hp
    rw [Option.getD_some]
    rintro rfl
    cases p <;>
      simp_all [EventPayload.orchestratorStatus?, EventPayload.isWritten,
        EventPayload.controlStatuses]

theorem lastWrite_workerStatus_of_failureStands (h : FailureStands ps) :
    lastWrite EventPayload.workerStatus? ps = some "blocked" := by
  obtain ⟨pre, p, post, rfl, hp, hpost⟩ := lastWrite_eq_some.mp h
  refine lastWrite_eq_some.mpr ⟨pre, p, post, rfl, ?_, fun q hq => ?_⟩
  · cases p <;> simp_all [EventPayload.failure?, EventPayload.workerStatus?]
  · have hnone := hpost q hq
    have hwritten := hps q (by simp [hq])
    cases q <;> simp_all [EventPayload.failure?, EventPayload.workerStatus?,
      EventPayload.orchestratorStatus?, EventPayload.isWritten]

omit hps in
theorem lastWrite_workerStatus_of_not_failureStands (h : ¬ FailureStands ps) :
    lastWrite EventPayload.workerStatus? ps = lastWrite EventPayload.orchestratorStatus? ps := by
  induction ps using List.reverseRecOn with
  | nil => rfl
  | append_singleton ps p ih =>
    unfold FailureStands at h ih
    rw [lastWrite_append, lastWrite_singleton] at h
    rw [lastWrite_append, lastWrite_append, lastWrite_singleton, lastWrite_singleton]
    cases p with
    | workItemFailed r i m => simp [EventPayload.failure?] at h
    | runStarted w o => rfl
    | runStatusChanged r status reason => rfl
    | runCompleted r text => rfl
    | blockerEncountered r i m => rfl
    | workspaceCreated name | agentProfileCreated name role cost =>
      exact ih (by simpa [EventPayload.failure?] using h)
    | workItemAssigned r i a | workItemStarted r i a =>
      exact ih (by simpa [EventPayload.failure?] using h)
    | workItemCompleted r i f c | progressChunkEmitted r i f c =>
      exact ih (by simpa [EventPayload.failure?] using h)

/-- The worker and the orchestrator replay the same status unless a failure stands. -/
theorem workerStatus_eq_orchestratorStatus_iff :
    (lastWrite EventPayload.orchestratorStatus? ps).getD "pending" =
        (lastWrite EventPayload.workerStatus? ps).getD "pending" ↔ ¬ FailureStands ps := by
  constructor
  · intro heq hstands
    rw [lastWrite_workerStatus_of_failureStands hps hstands] at heq
    exact lastWrite_orchestratorStatus_ne hps heq
  · intro hnot
    rw [lastWrite_workerStatus_of_not_failureStands hnot]

end written

/-! ### Completions in a running run -/

/-- Completions and progress chunks are recorded only while the orchestrator sees the run running. -/
inductive RecordedWhileRunning : List EventPayload → Prop
  | nil : RecordedWhileRunning []
  | quiet {ps : List EventPayload} {p : EventPayload} : RecordedWhileRunning ps →
      p.charge? = none → RecordedWhileRunning (ps ++ [p])
  | charged {ps : List EventPayload} {p : EventPayload} : RecordedWhileRunning ps →
      p.charge? ≠ none → lastWrite EventPayload.orchestratorStatus? ps = some "running" →
      RecordedWhileRunning (ps ++ [p])

namespace RecordedWhileRunning

variable {ps qs : List EventPayload}

theorem append_quiet (h : RecordedWhileRunning ps) (hqs : ∀ q ∈ qs, q.charge? = none) :
    RecordedWhileRunning (ps ++ qs) := by
  induction qs using List.reverseRecOn with
  | nil => rwa [List.append_nil]
  | append_singleton qs q ih =>
    rw [List.forall_mem_append, List.forall_mem_singleton] at hqs
    rw [← List.append_assoc]
    exact (ih hqs.1).quiet hqs.2

theorem append_running (h : RecordedWhileRunning ps)
    (hrunning : lastWrite EventPayload.orchestratorStatus? ps = some "running")
    (hqs : ∀ q ∈ qs, q.orchestratorStatus? = none) : RecordedWhileRunning (ps ++ qs) := by
  induction qs using List.reverseRecOn with
  | nil => rwa [List.append_nil]
  | append_singleton qs q ih =>
    rw [List.forall_mem_append, List.forall_mem_singleton] at hqs
    rw [← List.append_assoc]
    by_cases hcharge : q.charge? = none
    · exact (ih hqs.1).quiet hcharge
    · refine (ih hqs.1).charged hcharge ?_
      rw [lastWrite_append, lastWrite_of_none hqs.1, Option.none_or, hrunning]

/-- The rebuild takes a masked failure for a running run and else agrees with the worker. -/
theorem lastWrite_rebuildStatus (h : RecordedWhileRunning ps) (hps : ∀ p ∈ ps, p.isWritten) :
    (MaskedFailure ps → lastWrite EventPayload.rebuildStatus? ps = some "running") ∧
      (¬ MaskedFailure ps → lastWrite EventPayload.rebuildStatus? ps =
        lastWrite EventPayload.workerStatus? ps) := by
  unfold MaskedFailure
  induction h with
  | nil => exact ⟨fun h => absurd h.2 nofun, fun _ => rfl⟩
  | @quiet ps p _ hcharge ih =>
    rw [List.forall_mem_append, List.forall_mem_singleton] at hps
    have ih := ih hps.1
    obtain ⟨hrebuild, hvisible⟩ := EventPayload.rebuildStatus?_of_quiet hcharge
    unfold FailureStands at ih ⊢
    simp only [lastWrite_append, lastWrite_singleton, hrebuild, hvisible]
    cases hfailure : p.failure? with
    | none =>
      rw [EventPayload.workerStatus?_of_failure?_eq_none hps.2 hfailure]
      simpa only [Option.none_or] using ih
    | some b =>
      -- the event ends what was masked, and both replays take its status
      obtain ⟨status, hstatus⟩ := EventPayload.workerStatus?_of_failure?_eq_some hfailure
      rw [hstatus]
      simp only [Option.some_or, Option.some.injEq]
      exact ⟨fun hmasked => absurd (hmasked.1.symm.trans hmasked.2) (by decide), fun _ => trivial⟩
  | @charged ps p _ hcharge hrunning ih =>
    obtain ⟨hfailure, hvisible, hrebuild, hworker⟩ := EventPayload.rebuildStatus?_of_charged hcharge
    unfold FailureStands
    simp only [lastWrite_append, lastWrite_singleton, hfailure, hvisible, hrebuild, hworker,
      Option.none_or, Option.some_or]
    refine ⟨fun _ => trivial, fun hnot => ?_⟩
    rw [lastWrite_workerStatus_of_not_failureStands fun hstands => hnot ⟨hstands, trivial⟩, hrunning]

theorem rebuildStatus_eq_workerStatus_iff (h : RecordedWhileRunning ps)
    (hps : ∀ p ∈ ps, p.isWritten) :
    (lastWrite EventPayload.workerStatus? ps).getD "pending" =
        (lastWrite EventPayload.rebuildStatus? ps).getD "pending" ↔ ¬ MaskedFailure ps := by
  obtain ⟨hmasked, hvisible⟩ := h.lastWrite_rebuildStatus hps
  constructor
  · intro heq hm
    rw [hmasked hm, lastWrite_workerStatus_of_failureStands hps hm.1] at heq
    exact absurd heq (by decide)
  · intro hm
    rw [hvisible hm]

end RecordedWhileRunning

/-! ### Assignments -/

/-- The items of a run with their new agents. -/
abbrev Assignments := List (Uuid × Uuid)

/-- The `WorkItemAssigned` payloads of some assignments. -/
def Assignments.payloads (r : Uuid) (assigned : Assignments) : List EventPayload :=
  assigned.map fun x => .workItemAssigned r x.1 x.2

namespace Assignments

variable {r : Uuid} {assigned : Assignments}

theorem mem_payloads {p : EventPayload} (h : p ∈ assigned.payloads r) :
    ∃ x ∈ assigned, p = .workItemAssigned r x.1 x.2 := by
  obtain ⟨x, hx, rfl⟩ := List.mem_map.mp h
  exact ⟨x, hx, rfl⟩

theorem lastWrite_eq_none {V : Type} {w : EventPayload → Option V}
    (h : ∀ i agentId, w (.workItemAssigned r i agentId) = none) :
    lastWrite w (assigned.payloads r) = none := by
  refine lastWrite_of_none fun p hp => ?_
  obtain ⟨x, -, rfl⟩ := List.mem_map.mp hp
  exact h x.1 x.2

theorem lastWrite_itemStatus (i : Uuid) :
    lastWrite (EventPayload.itemStatus? i) (assigned.payloads r) =
      if i ∈ assigned.map (·.1) then some .assigned else none := by
  induction assigned with
  | nil => rfl
  | cons x assigned ih =>
    rw [payloads] at ih
    rw [payloads, List.map_cons, lastWrite_cons, ih, List.map_cons]
    by_cases hi : i ∈ assigned.map (·.1)
    · rw [if_pos hi, if_pos (List.mem_cons_of_mem _ hi), Option.some_or]
    · rw [if_neg hi, Option.none_or]
      by_cases hx : x.1 = i
      · subst hx
        simp [EventPayload.itemStatus?]
      · have hne : i ∉ x.1 :: assigned.map (·.1) := by
          rw [List.mem_cons, not_or]
          exact ⟨Ne.symm hx, hi⟩
        rw [if_neg hne, EventPayload.itemStatus?, if_neg hx]

theorem lastWrite_itemAgent {i agentId : Uuid} (hmem : (i, agentId) ∈ assigned)
    (hnodup : (assigned.map (·.1)).Nodup) :
    lastWrite (EventPayload.itemAgent? i) (assigned.payloads r) = some agentId := by
  induction assigned with
  | nil => cases hmem
  | cons x assigned ih =>
    rw [List.map_cons, List.nodup_cons] at hnodup
    rw [payloads] at ih
    rw [payloads, List.map_cons, lastWrite_cons]
    rcases List.mem_cons.mp hmem with rfl | hmem
    · rw [EventFold.lastWrite_eq_none.mpr, Option.none_or]
      · simp [EventPayload.itemAgent?]
      · intro p hp
        obtain ⟨y, hy, rfl⟩ := List.mem_map.mp hp
        exact if_neg fun heq => hnodup.1 (List.mem_map.mpr ⟨y, hy, heq⟩)
    · rw [ih hmem hnodup.2, Option.some_or]

theorem lastWrite_of_not_mem {V : Type} {w : EventPayload → Option V} {i : Uuid}
    (hw : ∀ p, w p ≠ none → p.itemId? = some i) (h : i ∉ assigned.map (·.1)) :
    lastWrite w (assigned.payloads r) = none := by
  refine lastWrite_of_none fun p hp => ?_
  obtain ⟨x, hx, rfl⟩ := List.mem_map.mp hp
  by_contra hwrite
  exact h (List.mem_map.mpr ⟨x, hx, Option.some.inj (hw _ hwrite)⟩)

end Assignments

/-! ### Totals -/

def chargedCost (ps : List EventPayload) : F64 :=
  (ps.filterMap EventPayload.charge?).foldl (fun cost charge => cost.add charge.2) .zero

def chargedEffort (ps : List EventPayload) : Int :=
  (ps.filterMap EventPayload.charge?).foldl (fun effort charge => effort + charge.1.val) 0

theorem foldl_effort (charges : List (I32 × F64)) (effort : Int) :
    charges.foldl (fun effort charge => effort + charge.1.val) effort =
      effort + (charges.map (·.1.val)).sum := by
  induction charges generalizing effort with
  | nil => exact (Int.add_zero _).symm
  | cons charge charges ih => rw [List.foldl_cons, ih, List.map_cons, List.sum_cons, Int.add_assoc]

theorem chargedEffort_eq_sum (ps : List EventPayload) :
    chargedEffort ps = ((ps.filterMap EventPayload.charge?).map (·.1.val)).sum := by
  rw [chargedEffort, foldl_effort, Int.zero_add]

end SamtaDashboard

import SamtaDashboard.System.Finishes
import SamtaDashboard.System.TickReplay

/-!
# What workers add to a run that waits for them

Workers that have read a run at different times append their batches in any order, and `load_all` mixes
them by their times. Of a run that waited before (`Waits`) all orders make the same: it is over as soon as
one of the rows completes the run or fails an item (`Stops`), and until then the items that no row names
are assigned and the other ones completed (`leftOf`).
-/

namespace SamtaDashboard

open EventFold Transition

/-! ### The rows of batches -/

/-- Rows that workers have appended to run `r`: what they started, they have also executed. -/
structure OfWorkers (r : Uuid) (rows : List EventEnvelope) : Prop where
  kind : ∀ p ∈ payloads rows, p.runId? = some r ∧ (p.isExecution ∨ p.isRunCompleted)
  executed : ∀ e ∈ rows, ∀ i, e.payload.itemStatus? i ≠ none → ∃ e' ∈ rows, timeLe e e' ∧
    ∃ status ∈ e'.payload.itemStatus? i, status = .completed ∨ status = .failed

def Stops (rows : List EventEnvelope) : Prop :=
  ∃ p ∈ payloads rows, p.isRunCompleted ∨ p.failsItem

/-- The assigned items that the rows leave alone. -/
def leftOf (before : RunState) (rows : List EventEnvelope) : Finset Uuid :=
  before.assignedItems.filter fun i => ∀ p ∈ payloads rows, p.itemStatus? i = none

section rows

variable {r : Uuid} {rows more : List EventEnvelope} {before : RunState} {p : EventPayload}

theorem workerStatus?_of_kind (h : p.isExecution ∨ p.isRunCompleted) :
    p.workerStatus? = if p.isRunCompleted then some "completed"
      else if p.failsItem then some "blocked" else none := by
  cases p <;> simp_all [EventPayload.isExecution, EventPayload.isRunCompleted, EventPayload.failsItem,
    EventPayload.workerStatus?, EventPayload.orchestratorStatus?]

theorem workerStatus?_ne_none_iff (h : p.isExecution ∨ p.isRunCompleted) :
    p.workerStatus? ≠ none ↔ p.isRunCompleted ∨ p.failsItem := by
  rw [workerStatus?_of_kind h]
  cases p.isRunCompleted <;> cases p.failsItem <;> simp

theorem workspace?_of_kind (h : p.isExecution ∨ p.isRunCompleted) : p.workspace? = none := by
  cases p <;> simp_all [EventPayload.isExecution, EventPayload.isRunCompleted, EventPayload.workspace?]

theorem Stops.mono (h : Stops rows) (hrows : rows ⊆ more) : Stops more := by
  obtain ⟨p, hp, hstops⟩ := h
  exact ⟨p, List.map_subset _ hrows hp, hstops⟩

theorem leftOf_anti (hrows : rows ⊆ more) : leftOf before more ⊆ leftOf before rows := by
  intro i hi
  obtain ⟨hassigned, huntouched⟩ := Finset.mem_filter.mp hi
  exact Finset.mem_filter.mpr ⟨hassigned, fun p hp => huntouched p (List.map_subset _ hrows hp)⟩

theorem leftOf_nil : leftOf before [] = before.assignedItems := by
  simp [leftOf, payloads]

theorem OfWorkers.nil : OfWorkers r [] where
  kind := fun _ hp => absurd hp List.not_mem_nil
  executed := fun _ he => absurd he List.not_mem_nil

theorem OfWorkers.append (h : OfWorkers r rows) (h' : OfWorkers r more) : OfWorkers r (rows ++ more) where
  kind := by
    rw [payloads_append]
    exact List.forall_mem_append.mpr ⟨h.kind, h'.kind⟩
  executed := fun e he i hi => by
    rcases List.mem_append.mp he with he | he
    · obtain ⟨e', he', hexecuted⟩ := h.executed e he i hi
      exact ⟨e', List.mem_append_left _ he', hexecuted⟩
    · obtain ⟨e', he', hexecuted⟩ := h'.executed e he i hi
      exact ⟨e', List.mem_append_right _ he', hexecuted⟩

theorem OfWorkers.of_batch {config : LoopConfig} {state state' : RunState} {batch : List EventEnvelope}
    {executed : List (Uuid × Outcome)} {summary : Option String}
    (hadv : Advanced config r state state' batch executed summary)
    (hrows : payloads rows = payloads batch) (hsorted : rows.Pairwise timeLe) : OfWorkers r rows := by
  rw [hadv.payloads] at hrows
  constructor
  · intro p hp
    rw [hrows] at hp
    rcases List.mem_append.mp hp with hp | hp
    · obtain ⟨x, -, hp⟩ := mem_executedPayloads hp
      obtain ⟨hrun, -, hkind⟩ := mem_outcome_payloads _ _ _ _ hp
      exact ⟨hrun, Or.inl hkind⟩
    · obtain ⟨text, -, rfl⟩ := List.mem_map.mp hp
      exact ⟨rfl, Or.inr rfl⟩
  · intro e he i hi
    have hcompletion : lastWrite (EventPayload.itemStatus? i)
        (summary.toList.map (.runCompleted r)) = none :=
      lastWrite_of_none fun p hp => by
        obtain ⟨text, -, rfl⟩ := List.mem_map.mp hp
        rfl
    have hlast : lastWrite (EventPayload.itemStatus? i) (payloads rows) =
        lastWrite (EventPayload.itemStatus? i) (executedPayloads config.worker r executed) := by
      rw [hrows, lastWrite_append, hcompletion, Option.none_or]
    have hwrites := fun itemId outcome =>
      lastWrite_itemStatus_outcome config.worker r itemId outcome i
    obtain ⟨status, hstatus⟩ : ∃ status,
        lastWrite (EventPayload.itemStatus? i) (payloads rows) = some status :=
      Option.ne_none_iff_exists'.mp fun hnone =>
        hi (lastWrite_eq_none.mp hnone _ (List.mem_map_of_mem he))
    have hexecuted : status = .completed ∨ status = .failed := by
      rw [hlast] at hstatus
      by_cases hmem : i ∈ executed.map (·.1)
      · obtain ⟨⟨_, outcome⟩, hx, rfl⟩ := List.mem_map.mp hmem
        rw [lastWrite_executed_of_mem hwrites hx hadv.nodup, Outcome.status] at hstatus
        obtain rfl := Option.some.inj hstatus
        split
        · exact Or.inl rfl
        · exact Or.inr rfl
      · rw [lastWrite_executed_of_not_mem hwrites hmem] at hstatus
        cases hstatus
    rw [← lastWrite_payloads] at hstatus
    obtain ⟨pre, e', post, rfl, he', hpost⟩ := lastWrite_eq_some.mp hstatus
    refine ⟨e', by simp, ?_, status, he', hexecuted⟩
    rcases List.mem_append.mp he with he | he
    · exact (List.pairwise_append.mp hsorted).2.2 e he e' List.mem_cons_self
    · rcases List.mem_cons.mp he with rfl | he
      · exact Or.inr ⟨rfl, le_refl _⟩
      · exact absurd (hpost e he) hi

theorem leftOf_of_completed {config : LoopConfig} {state state' : RunState} {batch : List EventEnvelope}
    {executed : List (Uuid × Outcome)} {summary : Option String}
    (hadv : Advanced config r state state' batch executed summary)
    (hrows : payloads rows = payloads batch) (hcompleted : ∃ p ∈ payloads rows, p.isRunCompleted) :
    leftOf state rows = ∅ := by
  have hsummary : summary.isSome := by
    obtain ⟨p, hp, hcompletes⟩ := hcompleted
    rw [hrows, hadv.payloads] at hp
    rcases List.mem_append.mp hp with hp | hp
    · rw [(mem_executedPayloads_quiet hp).1] at hcompletes
      cases hcompletes
    · obtain ⟨text, htext, -⟩ := List.mem_map.mp hp
      rw [Option.mem_toList] at htext
      exact Option.isSome_of_mem htext
  refine Finset.eq_empty_of_forall_notMem fun i hi => ?_
  obtain ⟨hassigned, huntouched⟩ := Finset.mem_filter.mp hi
  have hnone : lastWrite (EventPayload.itemStatus? i)
      (executedPayloads config.worker r executed) = none := by
    refine lastWrite_of_none fun p hp => huntouched p ?_
    rw [hrows, hadv.payloads]
    exact List.mem_append_left _ hp
  have hstatus := hadv.itemStatus i
  rw [hnone, Option.none_or, RunState.mem_assignedItems.mp hassigned] at hstatus
  cases hadv.completed hsummary i _ hstatus

end rows

/-! ### The replay of the rows -/

section replay

variable {r : Uuid} {rows read more : List EventEnvelope} {before state : RunState}

/-- The worker's replay goes over the rows in the order of the times. -/
structure ReadAs (rows read : List EventEnvelope) : Prop where
  perm : read.Perm rows
  sorted : read.Pairwise timeLe
  unique : ∀ a ∈ rows, ∀ b ∈ rows, timeLe a b → timeLe b a → a = b

theorem ReadAs.mem_payloads (h : ReadAs rows read) {p : EventPayload} :
    p ∈ payloads read ↔ p ∈ payloads rows := (h.perm.map _).mem_iff

theorem OfWorkers.lastWrite_itemStatus (h : OfWorkers r rows) (hread : ReadAs rows read) {i : Uuid}
    {status : ItemStatus}
    (hstatus : lastWrite (EventPayload.itemStatus? i) (payloads read) = some status) :
    status = .completed ∨ status = .failed := by
  rw [← lastWrite_payloads] at hstatus
  obtain ⟨pre, e, post, hsplit, he, hpost⟩ := lastWrite_eq_some.mp hstatus
  have hmem : e ∈ rows := hread.perm.subset (by simp [hsplit])
  obtain ⟨e', he', hle, status', hstatus', hexecuted⟩ :=
    h.executed e hmem i (by rw [he]; exact Option.some_ne_none _)
  have hsorted := hread.sorted
  rw [hsplit] at hsorted
  have hle' : timeLe e' e := by
    have hin := hread.perm.mem_iff.mpr he'
    rw [hsplit] at hin
    rcases List.mem_append.mp hin with hin | hin
    · exact (List.pairwise_append.mp hsorted).2.2 e' hin e List.mem_cons_self
    · rcases List.mem_cons.mp hin with rfl | hin
      · exact hle
      · have hquiet := hpost e' hin
        rw [Option.mem_def.mp hstatus'] at hquiet
        cases hquiet
  obtain rfl := hread.unique e hmem e' he' hle hle'
  rw [Option.mem_def.mp hstatus'] at he
  exact Option.some.inj he ▸ hexecuted

theorem OfWorkers.assignedItems (h : OfWorkers r rows) (hread : ReadAs rows read) :
    (read.foldl RunState.apply before).assignedItems = leftOf before rows := by
  ext i
  rw [RunState.mem_assignedItems, RunState.itemStatus_foldl_apply, leftOf, Finset.mem_filter,
    RunState.mem_assignedItems]
  cases hlast : lastWrite (EventPayload.itemStatus? i) (payloads read) with
  | none =>
    rw [Option.none_or]
    exact (and_iff_left fun p hp => lastWrite_eq_none.mp hlast p (hread.mem_payloads.mpr hp)).symm
  | some status =>
    obtain ⟨p, hp, hwrite⟩ := lastWrite_mem hlast
    rw [Option.some_or]
    constructor
    · intro hassigned
      rcases h.lastWrite_itemStatus hread hlast with rfl | rfl <;> cases hassigned
    · intro huntouched
      rw [huntouched.2 p (hread.mem_payloads.mp hp)] at hwrite
      cases hwrite

theorem OfWorkers.waits (h : OfWorkers r rows) (hread : ReadAs rows read) (hwaits : Waits before)
    (hopen : ¬ Stops rows) : Waits (read.foldl RunState.apply before) := by
  obtain ⟨hworkspace, hrunning, hitems⟩ := LoopConfig.skips_eq_false.mp hwaits.processed
  have hkind := fun p hp => (h.kind p (hread.mem_payloads.mp hp)).2
  have hquiet : lastWrite EventPayload.workerStatus? (payloads read) = none := by
    refine lastWrite_of_none fun p hp => by_contra fun hwrite => hopen ?_
    exact ⟨p, hread.mem_payloads.mp hp, (workerStatus?_ne_none_iff (hkind p hp)).mp hwrite⟩
  constructor
  · refine LoopConfig.skips_eq_false.mpr ⟨?_, ?_, ?_⟩
    · rwa [RunState.workspaceId_foldl_apply,
        lastWrite_of_none fun p hp => workspace?_of_kind (hkind p hp)]
    · rwa [RunState.status_foldl_apply, hquiet]
    · obtain ⟨i, hi⟩ := RunState.isEmpty_values_iff.mp hitems
      refine RunState.isEmpty_values_iff.mpr ⟨i, ?_⟩
      rw [RunState.itemStatus_foldl_apply]
      cases lastWrite (EventPayload.itemStatus? i) (payloads read) with
      | none => rwa [Option.none_or]
      | some status => exact Option.some_ne_none _
  · intro i status hi
    rw [RunState.itemStatus_foldl_apply] at hi
    cases hlast : lastWrite (EventPayload.itemStatus? i) (payloads read) with
    | none =>
      rw [hlast, Option.none_or] at hi
      exact hwaits.items i status hi
    | some status' =>
      rw [hlast, Option.some_or] at hi
      obtain rfl := Option.some.inj hi
      refine Or.inr ((h.lastWrite_itemStatus hread hlast).resolve_right ?_)
      rintro rfl
      obtain ⟨p, hp, hwrite⟩ := lastWrite_mem hlast
      refine hopen ⟨p, hread.mem_payloads.mp hp, Or.inr ?_⟩
      cases p <;> simp_all [EventPayload.itemStatus?, EventPayload.failsItem]

theorem OfWorkers.stopped (h : OfWorkers r rows) (hread : ReadAs rows read) (hstops : Stops rows) :
    ((read.foldl RunState.apply before).status = "completed" ∧ ∃ p ∈ payloads rows, p.isRunCompleted) ∨
      ((read.foldl RunState.apply before).status = "blocked" ∧ ∃ p ∈ payloads rows, p.failsItem) := by
  obtain ⟨p, hp, hstop⟩ := hstops
  have hsome : lastWrite EventPayload.workerStatus? (payloads read) ≠ none := fun hnone =>
    (workerStatus?_ne_none_iff (h.kind p hp).2).mpr hstop
      (lastWrite_eq_none.mp hnone p (hread.mem_payloads.mpr hp))
  obtain ⟨status, hstatus⟩ := Option.ne_none_iff_exists'.mp hsome
  obtain ⟨q, hq, hwrite⟩ := lastWrite_mem hstatus
  replace hq := hread.mem_payloads.mp hq
  rw [RunState.status_foldl_apply, hstatus, Option.getD_some]
  rw [workerStatus?_of_kind (h.kind q hq).2] at hwrite
  split at hwrite
  · next hcompleted => exact Or.inl ⟨(Option.some.inj hwrite).symm, q, hq, hcompleted⟩
  · split at hwrite
    · next hfailed => exact Or.inr ⟨(Option.some.inj hwrite).symm, q, hq, hfailed⟩
    · cases hwrite

theorem leftOf_append (h : state.assignedItems = leftOf before rows) :
    leftOf before (rows ++ more) = leftOf state more := by
  ext i
  rw [leftOf, leftOf, h, leftOf, Finset.filter_filter, payloads_append]
  simp only [List.forall_mem_append]

/-- The batch of an iteration without affinity stops a run that waits, or leaves as many items fewer as
the bound of the iteration admits. -/
theorem OfWorkers.stops_or_left {config : LoopConfig} {stamp : Nat → Stamp} {order : List Uuid}
    (h : OfWorkers r rows) (hread : ReadAs rows rows) (hwaits : Waits state)
    (horder : state.items.IsOrder order) (haffinity : config.itemAffinity = false)
    (hrows : payloads rows = payloads (config.advanceRun stamp order r state).2) :
    Stops rows ∨ 0 < (leftOf state rows).card ∧
      (leftOf state rows).card + config.maxItemsPerLoop = state.assignedItems.card := by
  have hnext := (Underway.refl hwaits).advance horder haffinity hrows
  rw [List.nil_append, h.assignedItems hread] at hnext
  refine hnext.imp (fun hfinished => ?_) And.right
  rcases hfinished.outcome with ⟨-, -, hcount, -⟩ | ⟨-, -, -, hcount⟩
  · obtain ⟨p, hp, hcompletes⟩ := List.countP_pos_iff.mp (hcount ▸ Nat.one_pos)
    exact ⟨p, hp, Or.inl hcompletes⟩
  · obtain ⟨p, hp, hfails⟩ := List.countP_pos_iff.mp hcount
    exact ⟨p, hp, Or.inr hfails⟩

end replay

end SamtaDashboard

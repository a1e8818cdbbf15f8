import SamtaDashboard.Application.WorkerLoop

/-!
# What one iteration of the worker's loop does

An iteration executes some eligible items, each once. `Executed` says what that leaves: the batch is
the concatenation of the items' groups of events, and the status of the run and of every item in
memory are what the worker's own replay would make of the batch. `itemLoop_executed` and
`advanceRun_spec` prove it for the loop and for the whole iteration; the stamps of a batch are drawn
in order (`StampedBy`).
-/

namespace SamtaDashboard

open EventFold

/-- What an executor gives back. -/
abbrev Outcome := Except String ExecutionResult

namespace Outcome

/-- The execution was recorded as a success. -/
def succeeded : Outcome → Bool
  | .ok result => result.success
  | .error _ => false

/-- The item status that an execution ends in. -/
def status (outcome : Outcome) : ItemStatus := if outcome.succeeded then .completed else .failed

/-- The payloads that the worker records for an execution. -/
def payloads (worker : Worker) (runId itemId : Uuid) : Outcome → List EventPayload
  | .error message => [.workItemFailed runId itemId message]
  | .ok result =>
    if result.success then
      [.workItemStarted runId itemId worker.agentId,
        .workItemCompleted runId itemId result.effort result.cost,
        .progressChunkEmitted runId itemId result.chunkEffort result.cost.half]
    else
      [.workItemStarted runId itemId worker.agentId,
        .workItemFailed runId itemId (result.error.getD "executor failed")]

end Outcome

theorem payloads_eventsForExecution (worker : Worker) (stamp : Nat → Stamp) (runId itemId : Uuid)
    (revision : Int) (agentId : Uuid) (result : ExecutionResult) :
    payloads (eventsForExecution worker stamp runId itemId revision agentId result) =
      Outcome.payloads worker runId itemId (.ok result) := by
  cases h : result.success <;> simp only [eventsForExecution, Outcome.payloads, h] <;> rfl

/-! ### The payloads of an execution -/

section outcome

variable (worker : Worker) (runId itemId : Uuid) (outcome : Outcome)

theorem mem_outcome_payloads {p : EventPayload} (h : p ∈ outcome.payloads worker runId itemId) :
    p.runId? = some runId ∧ p.itemId? = some itemId ∧ p.isExecution := by
  unfold Outcome.payloads at h
  split at h
  · obtain rfl := List.mem_singleton.mp h
    exact ⟨rfl, rfl, rfl⟩
  · split at h
    · simp only [List.mem_cons, List.not_mem_nil, or_false] at h
      rcases h with rfl | rfl | rfl <;> exact ⟨rfl, rfl, rfl⟩
    · simp only [List.mem_cons, List.not_mem_nil, or_false] at h
      rcases h with rfl | rfl <;> exact ⟨rfl, rfl, rfl⟩

theorem lastWrite_workerStatus_outcome :
    lastWrite EventPayload.workerStatus? (outcome.payloads worker runId itemId) =
      if outcome.succeeded then none else some "blocked" := by
  unfold Outcome.payloads Outcome.succeeded
  split
  · rfl
  · split <;> rfl

theorem lastWrite_itemStatus_outcome (i : Uuid) :
    lastWrite (EventPayload.itemStatus? i) (outcome.payloads worker runId itemId) =
      if itemId = i then some outcome.status else none := by
  by_cases h : itemId = i
  · subst h
    unfold Outcome.payloads Outcome.status Outcome.succeeded
    split
    · simp [EventPayload.itemStatus?]
    · split <;> simp_all [EventPayload.itemStatus?, lastWrite_cons]
  · rw [if_neg h, lastWrite_of_none]
    intro p hp
    have hitem := (mem_outcome_payloads worker runId itemId outcome hp).2.1
    cases p <;> simp_all [EventPayload.itemId?, EventPayload.itemStatus?]

end outcome

/-! ### The payloads of several executions -/

/-- The payloads recorded for some items, in order. -/
def executedPayloads (worker : Worker) (runId : Uuid) (executed : List (Uuid × Outcome)) :
    List EventPayload :=
  executed.flatMap fun x => x.2.payloads worker runId x.1

section executed

variable {worker : Worker} {runId : Uuid} {executed : List (Uuid × Outcome)}

@[simp] theorem executedPayloads_nil : executedPayloads worker runId [] = [] := rfl

@[simp] theorem executedPayloads_cons (x : Uuid × Outcome) :
    executedPayloads worker runId (x :: executed) =
      x.2.payloads worker runId x.1 ++ executedPayloads worker runId executed := rfl

theorem mem_executedPayloads {p : EventPayload} (h : p ∈ executedPayloads worker runId executed) :
    ∃ x ∈ executed, p ∈ x.2.payloads worker runId x.1 := by
  simpa [executedPayloads] using h

theorem lastWrite_workerStatus_executed :
    lastWrite EventPayload.workerStatus? (executedPayloads worker runId executed) =
      if executed.all (·.2.succeeded) then none else some "blocked" := by
  induction executed with
  | nil => rfl
  | cons x executed ih =>
    rw [executedPayloads_cons, lastWrite_append, ih, lastWrite_workerStatus_outcome, List.all_cons]
    cases x.2.succeeded <;> cases executed.all (·.2.succeeded) <;> rfl

section item

variable {V : Type} {w : EventPayload → Option V} {value : Outcome → Option V} {i : Uuid}
  (hw : ∀ itemId outcome, lastWrite w (Outcome.payloads worker runId itemId outcome) =
    if itemId = i then value outcome else none)

include hw

theorem lastWrite_executed_of_not_mem (h : i ∉ executed.map (·.1)) :
    lastWrite w (executedPayloads worker runId executed) = none := by
  induction executed with
  | nil => rfl
  | cons x executed ih =>
    simp only [List.map_cons, List.mem_cons, not_or] at h
    rw [executedPayloads_cons, lastWrite_append, ih h.2, hw, if_neg (Ne.symm h.1), Option.or_none]

theorem lastWrite_executed_of_mem {outcome : Outcome} (hx : (i, outcome) ∈ executed)
    (hnodup : (executed.map (·.1)).Nodup) :
    lastWrite w (executedPayloads worker runId executed) = value outcome := by
  induction executed with
  | nil => simp at hx
  | cons y executed ih =>
    rw [List.map_cons, List.nodup_cons] at hnodup
    rw [executedPayloads_cons, lastWrite_append]
    rcases List.mem_cons.mp hx with rfl | hx
    · rw [lastWrite_executed_of_not_mem hw hnodup.1, hw, if_pos rfl, Option.none_or]
    · have hne : y.1 ≠ i := fun heq => hnodup.1 (heq ▸ List.mem_map_of_mem hx)
      rw [ih hx hnodup.2, hw, if_neg hne, Option.or_none]

end item

end executed

/-! ### One iteration in memory -/

/-- The items that the `while` loop executes, in order, with what the executor gives back. -/
def LoopConfig.executions (config : LoopConfig) (stamp : Nat → Stamp) (order : List Uuid)
    (runId : Uuid) : Nat → LoopState → List (Uuid × Outcome)
  | 0, _ => []
  | remaining + 1, s =>
    match config.nextItem order s.state with
    | none => []
    | some itemId =>
      (itemId, config.executor (config.context runId s.state itemId)) ::
        config.executions stamp order runId remaining (config.executeItem stamp runId s itemId)

/-- From `s` the worker executed the items of `executed`, in this order and with these outcomes. -/
structure Executed (config : LoopConfig) (runId : Uuid) (s s' : LoopState)
    (executed : List (Uuid × Outcome)) : Prop where
  payloads : payloads s'.runEvents =
    payloads s.runEvents ++ executedPayloads config.worker runId executed
  nodup : (executed.map (·.1)).Nodup
  eligible : ∀ x ∈ executed, ∃ item, s.state.items.lookup x.1 = some item ∧ config.eligible item
  outcome : ∀ x ∈ executed, ∃ ctx, config.executor ctx = x.2
  status : s'.state.status = if executed.all (·.2.succeeded) then s.state.status else "blocked"
  itemStatus : ∀ i, s'.state.itemStatus i =
    (lastWrite (EventPayload.itemStatus? i) (executedPayloads config.worker runId executed)).or
      (s.state.itemStatus i)
  itemAgent : ∀ i, s'.state.itemAgent i = s.state.itemAgent i
  workspaceId : s'.state.workspaceId = s.state.workspaceId

namespace LoopConfig

variable {config : LoopConfig} {stamp : Nat → Stamp} {order : List Uuid} {runId itemId : Uuid}
  {s : LoopState} {state : RunState}

theorem eligible_iff {item : ItemState} :
    config.eligible item ↔ item.status = .assigned ∧
      (config.itemAffinity = true → item.assignedAgentId = some config.worker.agentId) := by
  unfold eligible
  cases config.itemAffinity <;> simp

theorem nextItem_eq_some (h : config.nextItem order state = some itemId) :
    itemId ∈ order ∧ ∃ item, state.items.lookup itemId = some item ∧ config.eligible item := by
  obtain ⟨hfound, pre, post, rfl, -⟩ := List.find?_eq_some_iff_append.mp h
  refine ⟨by simp, ?_⟩
  simpa [Option.any_eq_true] using hfound

theorem lookup_markItem (items : HashMap ItemState) (status : ItemStatus) (i : Uuid) :
    (markItem items itemId status).lookup i =
      if i = itemId then (items.lookup itemId).map ({ · with status := status })
      else items.lookup i :=
  HashMap.lookup_modify ..

theorem lookup_executeItem {outcome : Outcome}
    (h : config.executor (config.context runId s.state itemId) = outcome) (i : Uuid) :
    (config.executeItem stamp runId s itemId).state.items.lookup i =
      if i = itemId then (s.state.items.lookup itemId).map ({ · with status := outcome.status })
      else s.state.items.lookup i := by
  simp only [executeItem, h]
  cases outcome with
  | error message =>
    simp only [recordError, lookup_markItem, Outcome.status, Outcome.succeeded]
    by_cases hi : i = itemId <;> simp [hi, Function.comp_def]
  | ok result =>
    cases hsucc : result.success <;>
      simp only [recordResult, applyResult, hsucc, Outcome.status, Outcome.succeeded, if_true,
        Bool.false_eq_true, if_false, lookup_markItem] <;>
      by_cases hi : i = itemId <;> simp [hi, Function.comp_def]

theorem itemAgent_executeItem (i : Uuid) :
    (config.executeItem stamp runId s itemId).state.itemAgent i = s.state.itemAgent i := by
  unfold RunState.itemAgent
  rw [lookup_executeItem rfl]
  split
  · next hi =>
    subst hi
    cases s.state.items.lookup i <;> rfl
  · rfl

theorem itemStatus_executeItem {outcome : Outcome}
    (h : config.executor (config.context runId s.state itemId) = outcome) (i : Uuid) :
    (config.executeItem stamp runId s itemId).state.itemStatus i =
      if i = itemId then (s.state.items.lookup itemId).map fun _ => outcome.status
      else s.state.itemStatus i := by
  unfold RunState.itemStatus
  rw [lookup_executeItem h]
  split
  · rw [Option.map_map]
    rfl
  · rfl

theorem not_eligible_executeItem {item : ItemState}
    (hitem : (config.executeItem stamp runId s itemId).state.items.lookup itemId = some item) :
    ¬ config.eligible item := by
  intro heligible
  rw [lookup_executeItem rfl, if_pos rfl, Option.map_eq_some_iff] at hitem
  obtain ⟨before, -, rfl⟩ := hitem
  have hstatus := (eligible_iff.mp heligible).1
  unfold Outcome.status at hstatus
  split at hstatus <;> cases hstatus

theorem payloads_executeItem {outcome : Outcome}
    (h : config.executor (config.context runId s.state itemId) = outcome) :
    payloads (config.executeItem stamp runId s itemId).runEvents =
      payloads s.runEvents ++ outcome.payloads config.worker runId itemId := by
  simp only [executeItem, h]
  cases outcome with
  | error message => simp only [recordError, payloads_append]; rfl
  | ok result => simp only [recordResult, payloads_append, payloads_eventsForExecution]

theorem status_executeItem {outcome : Outcome}
    (h : config.executor (config.context runId s.state itemId) = outcome)
    (hstatus : s.state.status = "running" ∨ s.state.status = "blocked") :
    (config.executeItem stamp runId s itemId).state.status =
      if outcome.succeeded then s.state.status else "blocked" := by
  simp only [executeItem, h]
  cases outcome with
  | error message => rfl
  | ok result =>
    cases hsucc : result.success
    · simp [recordResult, applyResult, hsucc, Outcome.succeeded]
    · rcases hstatus with hstatus | hstatus <;>
        simp [recordResult, applyResult, hsucc, Outcome.succeeded, hstatus]

theorem workspaceId_executeItem :
    (config.executeItem stamp runId s itemId).state.workspaceId = s.state.workspaceId := by
  simp only [executeItem]
  cases config.executor (config.context runId s.state itemId) with
  | error message => rfl
  | ok result => cases hsucc : result.success <;> simp [recordResult, applyResult, hsucc]

theorem executed_cons {s' : LoopState} {executed : List (Uuid × Outcome)}
    (hstatus : s.state.status = "running" ∨ s.state.status = "blocked")
    (hnext : config.nextItem order s.state = some itemId)
    (h : Executed config runId (config.executeItem stamp runId s itemId) s' executed) :
    Executed config runId s s'
      ((itemId, config.executor (config.context runId s.state itemId)) :: executed) := by
  obtain ⟨-, item, hitem, heligible⟩ := nextItem_eq_some hnext
  generalize hout : config.executor (config.context runId s.state itemId) = outcome
  have hlookup : ∀ i, (config.executeItem stamp runId s itemId).state.items.lookup i =
      if i = itemId then (s.state.items.lookup itemId).map ({ · with status := Outcome.status outcome })
      else s.state.items.lookup i := lookup_executeItem hout
  -- the loop does not pick the executed item again
  have hfresh : itemId ∉ executed.map (·.1) := by
    intro hmem
    obtain ⟨x, hx, rfl⟩ := List.mem_map.mp hmem
    obtain ⟨item', hitem', heligible'⟩ := h.eligible x hx
    exact not_eligible_executeItem hitem' heligible'
  constructor
  · rw [h.payloads, payloads_executeItem hout, List.append_assoc, executedPayloads_cons]
  · exact List.nodup_cons.mpr ⟨hfresh, h.nodup⟩
  · intro x hx
    rcases List.mem_cons.mp hx with rfl | hx
    · exact ⟨item, hitem, heligible⟩
    · obtain ⟨item', hitem', heligible'⟩ := h.eligible x hx
      have hne : x.1 ≠ itemId := fun heq => hfresh (heq ▸ List.mem_map_of_mem hx)
      rw [hlookup, if_neg hne] at hitem'
      exact ⟨item', hitem', heligible'⟩
  · intro x hx
    rcases List.mem_cons.mp hx with rfl | hx
    · exact ⟨_, hout⟩
    · exact h.outcome x hx
  · rw [h.status, status_executeItem hout hstatus, List.all_cons]
    cases executed.all (·.2.succeeded) <;> cases Outcome.succeeded outcome <;> simp
  · intro i
    rw [h.itemStatus, executedPayloads_cons, lastWrite_append, lastWrite_itemStatus_outcome,
      Option.or_assoc]
    congr 1
    rw [itemStatus_executeItem hout]
    by_cases hi : i = itemId
    · subst hi
      simp [hitem]
    · simp [hi, Ne.symm hi]
  · intro i
    rw [h.itemAgent, itemAgent_executeItem]
  · rw [h.workspaceId, workspaceId_executeItem]

theorem itemLoop_executed (remaining : Nat)
    (hstatus : s.state.status = "running" ∨ s.state.status = "blocked") :
    Executed config runId s (config.itemLoop stamp order runId remaining s)
      (config.executions stamp order runId remaining s) := by
  have hnone : ∀ s : LoopState, Executed config runId s s [] := by
    intro s
    constructor <;> simp
  induction remaining generalizing s with
  | zero => exact hnone s
  | succ remaining ih =>
    unfold itemLoop executions
    cases hnext : config.nextItem order s.state with
    | none => exact hnone s
    | some itemId =>
      refine executed_cons hstatus hnext (ih ?_)
      rw [status_executeItem rfl hstatus]
      split
      · exact hstatus
      · exact Or.inr rfl

end LoopConfig

/-! ### The whole iteration -/

theorem RunState.isEmpty_values_iff {state : RunState} :
    state.items.values.isEmpty = false ↔ ∃ i, state.itemStatus i ≠ none := by
  rw [List.isEmpty_eq_false_iff]
  constructor
  · intro hne
    obtain ⟨item, hitem⟩ := List.exists_mem_of_ne_nil _ hne
    obtain ⟨i, hi⟩ := HashMap.mem_values.mp hitem
    exact ⟨i, by rw [itemStatus, hi]; exact Option.some_ne_none _⟩
  · rintro ⟨i, hi⟩
    obtain ⟨status, hstatus⟩ := Option.ne_none_iff_exists'.mp hi
    obtain ⟨item, hitem, -⟩ := Option.map_eq_some_iff.mp hstatus
    exact List.ne_nil_of_mem (HashMap.mem_values.mpr ⟨i, hitem⟩)

theorem RunState.allItemsCompleted_iff {state : RunState} :
    state.allItemsCompleted ↔ state.items.values.isEmpty = false ∧
      ∀ i status, state.itemStatus i = some status → status = .completed := by
  unfold allItemsCompleted itemStatus
  rw [Bool.and_eq_true, List.all_eq_true, Bool.not_eq_true']
  refine and_congr_right fun _ => ⟨fun h i status hi => ?_, fun h item hitem => ?_⟩
  · obtain ⟨item, hitem, rfl⟩ := Option.map_eq_some_iff.mp hi
    simpa using h item (HashMap.mem_values.mpr ⟨i, hitem⟩)
  · obtain ⟨i, hi⟩ := HashMap.mem_values.mp hitem
    simpa using h i item.status (by rw [hi, Option.map_some])

/-- An iteration that does not skip the run: the items it executed, and the summary of the
completion event if it recorded one. -/
structure Advanced (config : LoopConfig) (runId : Uuid) (state state' : RunState)
    (batch : List EventEnvelope) (executed : List (Uuid × Outcome)) (summary : Option String) :
    Prop where
  status_before : state.status = "running"
  workspace : state.workspaceId.isNil = false
  payloads : payloads batch = executedPayloads config.worker runId executed ++
    summary.toList.map (.runCompleted runId)
  nodup : (executed.map (·.1)).Nodup
  eligible : ∀ x ∈ executed, ∃ item, state.items.lookup x.1 = some item ∧ config.eligible item
  outcome : ∀ x ∈ executed, ∃ ctx, config.executor ctx = x.2
  completed : summary.isSome → ∀ i status, state'.itemStatus i = some status → status = .completed
  status : state'.status = if summary.isSome then "completed"
    else if executed.all (·.2.succeeded) then "running" else "blocked"
  itemStatus : ∀ i, state'.itemStatus i =
    (lastWrite (EventPayload.itemStatus? i) (executedPayloads config.worker runId executed)).or
      (state.itemStatus i)
  itemAgent : ∀ i, state'.itemAgent i = state.itemAgent i
  workspaceId : state'.workspaceId = state.workspaceId

theorem lastWrite_workerStatus_batch {config : LoopConfig} {runId : Uuid} {state state' : RunState}
    {batch : List EventEnvelope} {executed : List (Uuid × Outcome)} {summary : Option String}
    (h : Advanced config runId state state' batch executed summary) :
    (lastWrite EventPayload.workerStatus? (payloads batch)).getD "running" = state'.status := by
  rw [h.payloads, h.status, lastWrite_append, lastWrite_workerStatus_executed]
  cases summary with
  | some text => rfl
  | none => cases executed.all (·.2.succeeded) <;> rfl

theorem LoopConfig.skips_eq_false {state : RunState} :
    LoopConfig.skips state = false ↔ state.workspaceId.isNil = false ∧
      state.status = "running" ∧ state.items.values.isEmpty = false := by
  simp [LoopConfig.skips, and_assoc]

theorem LoopConfig.advanceRun_of_skips {config : LoopConfig} {stamp : Nat → Stamp}
    {order : List Uuid} {runId : Uuid} {state : RunState} (h : LoopConfig.skips state) :
    config.advanceRun stamp order runId state = (state, []) := by
  rw [LoopConfig.advanceRun, if_pos h]

theorem LoopConfig.advanceRun_spec (config : LoopConfig) (stamp : Nat → Stamp) (order : List Uuid)
    (runId : Uuid) {state : RunState} (h : LoopConfig.skips state = false) :
    ∃ summary, Advanced config runId state
      (config.advanceRun stamp order runId state).1 (config.advanceRun stamp order runId state).2
      (config.executions stamp order runId config.maxItemsPerLoop (enterRun state)) summary := by
  obtain ⟨hworkspace, hrunning, -⟩ := LoopConfig.skips_eq_false.mp h
  have hex : Executed config runId (enterRun state)
      (config.itemLoop stamp order runId config.maxItemsPerLoop (enterRun state))
      (config.executions stamp order runId config.maxItemsPerLoop (enterRun state)) :=
    itemLoop_executed config.maxItemsPerLoop (Or.inl hrunning)
  rw [LoopConfig.advanceRun, if_neg (by simp [h])]
  generalize config.executions stamp order runId config.maxItemsPerLoop (enterRun state) =
    executed at hex ⊢
  generalize config.itemLoop stamp order runId config.maxItemsPerLoop (enterRun state) = s at hex ⊢
  have hstatus : s.state.status = if executed.all (·.2.succeeded) then "running" else "blocked" := by
    rw [hex.status]
    exact congrArg (ite _ · _) hrunning
  by_cases hall : s.state.allItemsCompleted
  · have hnot : s.state.status ≠ "completed" := by
      rw [hstatus]
      split <;> decide
    rw [LoopConfig.finishRun, if_pos ⟨hall, hnot⟩]
    refine ⟨some s!"worker completed run after {s.state.completedItemCount} items", ?_⟩
    exact {
      status_before := hrunning
      workspace := hworkspace
      payloads := by
        rw [payloads_append, hex.payloads]
        rfl
      nodup := hex.nodup
      eligible := hex.eligible
      outcome := hex.outcome
      completed := fun _ => (RunState.allItemsCompleted_iff.mp hall).2
      status := rfl
      itemStatus := hex.itemStatus
      itemAgent := hex.itemAgent
      workspaceId := hex.workspaceId }
  · rw [LoopConfig.finishRun, if_neg fun hand => hall hand.1]
    exact ⟨none, {
      status_before := hrunning
      workspace := hworkspace
      payloads := by simpa [LoopConfig.enterRun] using hex.payloads
      nodup := hex.nodup
      eligible := hex.eligible
      outcome := hex.outcome
      completed := fun hsome => by simp at hsome
      status := hstatus
      itemStatus := hex.itemStatus
      itemAgent := hex.itemAgent
      workspaceId := hex.workspaceId }⟩

/-! ### Stamps and resource ids -/

/-- The events carry stamps with increasing numbers from `lo` to `hi`. -/
def StampedBy (stamp : Nat → Stamp) (lo hi : Nat) (events : List EventEnvelope) : Prop :=
  ∃ ks : List Nat, ks.Pairwise (· < ·) ∧ (∀ k ∈ ks, lo ≤ k ∧ k < hi) ∧
    events.map (fun e => Stamp.mk e.id e.occurredAt) = ks.map stamp

namespace StampedBy

variable {stamp : Nat → Stamp} {lo mid hi : Nat} {a b events : List EventEnvelope}

theorem nil : StampedBy stamp lo hi [] := ⟨[], List.Pairwise.nil, by simp, rfl⟩

theorem append (ha : StampedBy stamp lo mid a) (hb : StampedBy stamp mid hi b) (hlm : lo ≤ mid)
    (hmh : mid ≤ hi) : StampedBy stamp lo hi (a ++ b) := by
  obtain ⟨ks, hks, hrange, heq⟩ := ha
  obtain ⟨ks', hks', hrange', heq'⟩ := hb
  refine ⟨ks ++ ks', List.pairwise_append.mpr ⟨hks, hks', fun k hk k' hk' => ?_⟩, fun k hk => ?_,
    by rw [List.map_append, List.map_append, heq, heq']⟩
  · have := hrange k hk
    have := hrange' k' hk'
    omega
  · rcases List.mem_append.mp hk with hk | hk
    · have := hrange k hk
      omega
    · have := hrange' k hk
      omega

theorem mono (h : StampedBy stamp lo mid a) (hmh : mid ≤ hi) : StampedBy stamp lo hi a := by
  obtain ⟨ks, hks, hrange, heq⟩ := h
  exact ⟨ks, hks, fun k hk => ⟨(hrange k hk).1, lt_of_lt_of_le (hrange k hk).2 hmh⟩, heq⟩

theorem exists_stamp (h : StampedBy stamp lo hi events) {e : EventEnvelope} (he : e ∈ events) :
    ∃ k, e.id = (stamp k).id ∧ e.occurredAt = (stamp k).now := by
  obtain ⟨ks, -, -, heq⟩ := h
  have hmem : Stamp.mk e.id e.occurredAt ∈ ks.map stamp :=
    heq ▸ List.mem_map_of_mem (f := fun e => Stamp.mk e.id e.occurredAt) he
  obtain ⟨k, -, hk⟩ := List.mem_map.mp hmem
  exact ⟨k, by rw [hk], by rw [hk]⟩

theorem sorted (h : StampedBy stamp lo hi events) (hmono : Monotone fun k => (stamp k).now) :
    events.Pairwise (·.occurredAt ≤ ·.occurredAt) := by
  obtain ⟨ks, hks, -, heq⟩ := h
  have hsorted : (ks.map stamp).Pairwise (·.now ≤ ·.now) :=
    List.pairwise_map.mpr (hks.imp fun hlt => hmono (le_of_lt hlt))
  rw [← heq, List.pairwise_map] at hsorted
  exact hsorted

end StampedBy

theorem StampedBy.appendedRows {log : EventLog} {batch : List EventEnvelope} {r : Uuid}
    {stamp : Nat → Stamp} {lo hi : Nat}
    (h : StampedBy stamp lo hi batch) : StampedBy stamp lo hi (appendedRows log r batch) := by
  obtain ⟨ks, hks, hrange, heq⟩ := h
  refine ⟨ks, hks, hrange, ?_⟩
  rw [SamtaDashboard.appendedRows, List.map_map, ← heq]
  exact map_withRebasedRevisions _ fun _ _ => rfl

theorem eventsForExecution_stamped (worker : Worker) (stamp : Nat → Stamp) (lo : Nat)
    (runId itemId : Uuid) (revision : Int) (agentId : Uuid) (result : ExecutionResult) :
    let events := eventsForExecution worker (fun k => stamp (lo + k)) runId itemId revision agentId
      result
    StampedBy stamp lo (lo + events.length) events ∧ ∀ e ∈ events, e.resourceId = runId := by
  cases h : result.success <;>
    simp only [eventsForExecution, h, if_true, Bool.false_eq_true, if_false]
  · exact ⟨⟨[lo, lo + 1], by simp, by simp, rfl⟩,
      by simp [Worker.itemStartedEvent, Worker.itemFailedEvent, newEnvelope]⟩
  · exact ⟨⟨[lo, lo + 1, lo + 2], by simp, by simp, rfl⟩,
      by simp [Worker.itemStartedEvent, Worker.itemCompletedEvent, Worker.progressChunkEvent,
        newEnvelope]⟩

namespace LoopConfig

variable {config : LoopConfig} {stamp : Nat → Stamp} {order : List Uuid} {runId : Uuid}

/-- The batch so far carries the run's id and the stamps drawn so far. -/
def Stamped (stamp : Nat → Stamp) (runId : Uuid) (s : LoopState) : Prop :=
  StampedBy stamp 0 s.reads s.runEvents ∧ ∀ e ∈ s.runEvents, e.resourceId = runId

theorem stamped_extend {s : LoopState} (h : Stamped stamp runId s) {events : List EventEnvelope}
    {reads : Nat} (hevents : StampedBy stamp s.reads reads events) (hle : s.reads ≤ reads)
    (hrun : ∀ e ∈ events, e.resourceId = runId) {reads' : Nat} (hle' : reads ≤ reads')
    (state : RunState) (revision : Int) :
    Stamped stamp runId ⟨state, s.runEvents ++ events, revision, reads'⟩ := by
  refine ⟨(h.1.append hevents (Nat.zero_le _) hle).mono hle', fun e he => ?_⟩
  rcases List.mem_append.mp he with he | he
  · exact h.2 e he
  · exact hrun e he

theorem stamped_single (lo : Nat) {e : EventEnvelope} (hid : e.id = (stamp lo).id)
    (hnow : e.occurredAt = (stamp lo).now) : StampedBy stamp lo (lo + 1) [e] :=
  ⟨[lo], by simp, by simp, by simp [hid, hnow]⟩

theorem executeItem_stamped {s : LoopState} (h : Stamped stamp runId s) (itemId : Uuid) :
    Stamped stamp runId (config.executeItem stamp runId s itemId) := by
  simp only [executeItem]
  cases config.executor (config.context runId s.state itemId) with
  | error message =>
    exact stamped_extend h (stamped_single s.reads rfl rfl) (Nat.le_succ _)
      (by simp [Worker.itemFailedEvent, newEnvelope]) le_rfl _ _
  | ok result =>
    obtain ⟨hstamped, hrun⟩ := eventsForExecution_stamped config.worker stamp s.reads runId itemId
      (s.nextRevision + 1) (config.context runId s.state itemId).agentId result
    exact stamped_extend h hstamped (Nat.le_add_right _ _) hrun (Nat.le_succ _) _ _

theorem itemLoop_stamped (remaining : Nat) {s : LoopState} (h : Stamped stamp runId s) :
    Stamped stamp runId (config.itemLoop stamp order runId remaining s) := by
  induction remaining generalizing s with
  | zero => exact h
  | succ remaining ih =>
    unfold itemLoop
    split
    · exact h
    · exact ih (executeItem_stamped h _)

theorem finishRun_stamped {s : LoopState} (h : Stamped stamp runId s) :
    Stamped stamp runId (config.finishRun stamp runId s) := by
  unfold finishRun
  split
  · exact stamped_extend h (stamped_single s.reads rfl rfl) (Nat.le_succ _)
      (by simp [Worker.completeEvent, newEnvelope]) (Nat.le_succ _) _ _
  · exact h

theorem advanceRun_stamped (config : LoopConfig) (stamp : Nat → Stamp) (order : List Uuid)
    (runId : Uuid) (state : RunState) :
    (∃ hi, StampedBy stamp 0 hi (config.advanceRun stamp order runId state).2) ∧
      ∀ e ∈ (config.advanceRun stamp order runId state).2, e.resourceId = runId := by
  unfold advanceRun
  split
  · exact ⟨⟨0, StampedBy.nil⟩, by simp⟩
  · have hloop : Stamped stamp runId
        (config.itemLoop stamp order runId config.maxItemsPerLoop (enterRun state)) :=
      itemLoop_stamped _ ⟨StampedBy.nil, by simp [enterRun]⟩
    obtain ⟨hstamped, hrun⟩ : Stamped stamp runId (config.finishRun stamp runId
      (config.itemLoop stamp order runId config.maxItemsPerLoop (enterRun state))) :=
      finishRun_stamped hloop
    exact ⟨⟨_, hstamped⟩, hrun⟩

/-! ### Actors -/

/-- With affinity a worker executes an item in its own name. -/
theorem context_agentId {state : RunState} {itemId : Uuid} (haffinity : config.itemAffinity)
    (hnext : config.nextItem order state = some itemId) :
    (config.context runId state itemId).agentId = config.worker.agentId := by
  obtain ⟨-, item, hitem, heligible⟩ := nextItem_eq_some hnext
  have hagent := (eligible_iff.mp heligible).2 haffinity
  simp [context, RunState.itemAgent, hitem, hagent]

theorem itemLoop_actor (haffinity : config.itemAffinity) (remaining : Nat) {s : LoopState}
    (h : ∀ e ∈ s.runEvents, e.actorId = config.worker.agentId) :
    ∀ e ∈ (config.itemLoop stamp order runId remaining s).runEvents,
      e.actorId = config.worker.agentId := by
  induction remaining generalizing s with
  | zero => exact h
  | succ remaining ih =>
    unfold itemLoop
    split
    · exact h
    · next itemId hnext =>
      refine ih fun e he => ?_
      simp only [executeItem, context_agentId haffinity hnext] at he
      split at he
      · rcases List.mem_append.mp he with he | he
        · exact h e he
        · rw [List.mem_singleton.mp he]
          rfl
      · next result _ =>
        rcases List.mem_append.mp he with he | he
        · exact h e he
        · cases hsucc : result.success <;>
            simp only [eventsForExecution, hsucc, if_true, Bool.false_eq_true, if_false,
              List.mem_cons, List.not_mem_nil, or_false] at he
          · rcases he with rfl | rfl <;> rfl
          · rcases he with rfl | rfl | rfl <;> rfl

theorem advanceRun_actor (haffinity : config.itemAffinity) (state : RunState) :
    ∀ e ∈ (config.advanceRun stamp order runId state).2, e.actorId = config.worker.agentId := by
  unfold advanceRun
  split
  · exact fun _ he => nomatch he
  · have hloop : ∀ e ∈ (config.itemLoop stamp order runId config.maxItemsPerLoop
        (enterRun state)).runEvents, e.actorId = config.worker.agentId :=
      itemLoop_actor haffinity config.maxItemsPerLoop fun _ he => nomatch he
    unfold finishRun
    split
    · intro e he
      rcases List.mem_append.mp he with he | he
      · exact hloop e he
      · rw [List.mem_singleton.mp he]
        rfl
    · exact hloop

end LoopConfig

end SamtaDashboard

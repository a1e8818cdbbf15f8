import SamtaDashboard.Application.BatchShape

/-!
# What an iteration leaves in memory

The `while` loop executes the first `max_items_per_loop` eligible items in the iteration order of the
map (`executions_eq`). The state that it leaves is updated by hand next to the events: the revision is
set for a result and not for an executor error, a success is charged once, and the agents of the items
stay as they were (`Counted`). A replay of the batch on top of the state before comes to the same state
on the runs of `CommutesOn` only (`advanceRun_agrees_iff`).
-/

namespace SamtaDashboard

open EventFold

namespace Outcome

/-- The executor gave back a result, failed or not. -/
def isResult : Outcome → Bool
  | .ok _ => true
  | .error _ => false

/-- The effort that the worker adds in memory. -/
def effort : Outcome → Int
  | .ok result => if result.success then result.effort.val else 0
  | .error _ => 0

/-- The effort of the progress chunk that goes with it. -/
def chunkEffort : Outcome → Int
  | .ok result => if result.success then result.chunkEffort.val else 0
  | .error _ => 0

theorem isResult_of_succeeded {outcome : Outcome} (h : outcome.succeeded) : outcome.isResult := by
  cases outcome with
  | error message => cases h
  | ok result => rfl

theorem chunkEffort_eq_zero_iff {outcome : Outcome} :
    outcome.chunkEffort = 0 ↔ outcome.succeeded = false := by
  cases outcome with
  | error message => exact iff_of_true rfl rfl
  | ok result =>
    have := one_le_chunkEffort result
    cases hsucc : result.success with
    | false => simp [chunkEffort, succeeded, hsucc]
    | true =>
      simp only [chunkEffort, succeeded, hsucc, if_true, Bool.true_eq_false, iff_false]
      omega

theorem chunkEffort_nonneg (outcome : Outcome) : 0 ≤ outcome.chunkEffort := by
  cases outcome with
  | error message => exact le_refl _
  | ok result =>
    have := one_le_chunkEffort result
    unfold chunkEffort
    dsimp only
    split <;> omega

end Outcome

/-! ### What a replay charges for executions -/

section charges

variable {worker : Worker} {runId : Uuid}

theorem chargedEffort_append (ps qs : List EventPayload) :
    chargedEffort (ps ++ qs) = chargedEffort ps + chargedEffort qs := by
  simp only [chargedEffort_eq_sum, List.filterMap_append, List.map_append, List.sum_append]

theorem chargedEffort_outcome (itemId : Uuid) (outcome : Outcome) :
    chargedEffort (outcome.payloads worker runId itemId) = outcome.effort + outcome.chunkEffort := by
  cases outcome with
  | error message => rfl
  | ok result =>
    cases hsucc : result.success with
    | false =>
      simp only [Outcome.payloads, Outcome.effort, Outcome.chunkEffort, hsucc, Bool.false_eq_true,
        if_false]
      rfl
    | true =>
      simp only [Outcome.payloads, Outcome.effort, Outcome.chunkEffort, hsucc, if_true]
      show 0 + result.effort.val + result.chunkEffort.val = _
      omega

theorem chargedEffort_executed (executed : List (Uuid × Outcome)) :
    chargedEffort (executedPayloads worker runId executed) =
      (executed.map (·.2.effort)).sum + (executed.map (·.2.chunkEffort)).sum := by
  induction executed with
  | nil => rfl
  | cons x executed ih =>
    rw [executedPayloads_cons, chargedEffort_append, chargedEffort_outcome, ih]
    simp only [List.map_cons, List.sum_cons]
    omega

theorem sum_chunkEffort_nonneg (executed : List (Uuid × Outcome)) :
    0 ≤ (executed.map (·.2.chunkEffort)).sum := by
  induction executed with
  | nil => exact le_refl _
  | cons x executed ih =>
    have := x.2.chunkEffort_nonneg
    rw [List.map_cons, List.sum_cons]
    omega

theorem sum_chunkEffort_eq_zero_iff {executed : List (Uuid × Outcome)} :
    (executed.map (·.2.chunkEffort)).sum = 0 ↔ ∀ x ∈ executed, x.2.succeeded = false := by
  induction executed with
  | nil => simp
  | cons x executed ih =>
    have hhead : x.2.chunkEffort = 0 ↔ x.2.succeeded = false := Outcome.chunkEffort_eq_zero_iff
    have := sum_chunkEffort_nonneg executed
    have := x.2.chunkEffort_nonneg
    rw [List.forall_mem_cons, List.map_cons, List.sum_cons, ← hhead, ← ih]
    omega

theorem charge?_of_failed {executed : List (Uuid × Outcome)}
    (h : ∀ x ∈ executed, x.2.succeeded = false) :
    ∀ p ∈ executedPayloads worker runId executed, p.charge? = none := by
  intro p hp
  obtain ⟨x, hx, hp⟩ := mem_executedPayloads hp
  obtain ⟨itemId, outcome⟩ := x
  have hfailed : outcome.succeeded = false := h _ hx
  cases outcome with
  | error message =>
    obtain rfl := List.mem_singleton.mp hp
    rfl
  | ok result =>
    have hsucc : result.success = false := hfailed
    simp only [Outcome.payloads, hsucc, Bool.false_eq_true, if_false, List.mem_cons,
      List.not_mem_nil, or_false] at hp
    rcases hp with rfl | rfl <;> rfl

theorem lastWrite_itemAgent_outcome (i itemId : Uuid) (outcome : Outcome) :
    lastWrite (EventPayload.itemAgent? i) (outcome.payloads worker runId itemId) =
      if itemId = i then (if outcome.isResult then some worker.agentId else none) else none := by
  cases outcome with
  | error message => simp [Outcome.payloads, Outcome.isResult, EventPayload.itemAgent?]
  | ok result =>
    cases hsucc : result.success <;>
      simp [Outcome.payloads, Outcome.isResult, hsucc, lastWrite_cons, EventPayload.itemAgent?]

theorem Executed.succeeded {config : LoopConfig} {s s' : LoopState}
    {executed : List (Uuid × Outcome)} (h : Executed config runId s s' executed)
    (hall : s'.state.allItemsCompleted) : ∀ x ∈ executed, x.2.succeeded := by
  intro x hx
  have hwrite : lastWrite (EventPayload.itemStatus? x.1)
      (executedPayloads config.worker runId executed) = some (Outcome.status x.2) :=
    lastWrite_executed_of_mem (fun itemId outcome =>
      lastWrite_itemStatus_outcome config.worker runId itemId outcome x.1) hx h.nodup
  have hstatus := h.itemStatus x.1
  rw [hwrite, Option.some_or] at hstatus
  have hcompleted := (RunState.allItemsCompleted_iff.mp hall).2 _ _ hstatus
  by_contra hfailed
  rw [Outcome.status, if_neg hfailed] at hcompleted
  cases hcompleted

end charges

namespace LoopConfig

variable {config : LoopConfig} {stamp : Nat → Stamp} {order : List Uuid} {runId itemId : Uuid}
  {s : LoopState} {state : RunState}

/-! ### Which items are executed -/

def selected (config : LoopConfig) (order : List Uuid) (remaining : Nat) (state : RunState) :
    List Uuid :=
  (order.filter fun i => (state.items.lookup i).any config.eligible).take remaining

theorem filter_eligible_executeItem (horder : order.Nodup)
    (hnext : config.nextItem order s.state = some itemId) :
    (order.filter fun i => (s.state.items.lookup i).any config.eligible) = itemId ::
      order.filter fun i => ((config.executeItem stamp runId s itemId).state.items.lookup i).any
        config.eligible := by
  have hhead : (order.filter fun i => (s.state.items.lookup i).any config.eligible).head? =
      some itemId := by rw [List.head?_filter]; exact hnext
  obtain ⟨rest, hrest⟩ := List.head?_eq_some_iff.mp hhead
  have hnodup := horder.filter fun i => (s.state.items.lookup i).any config.eligible
  rw [hrest, List.nodup_cons] at hnodup
  have hafter : ∀ i, ((config.executeItem stamp runId s itemId).state.items.lookup i).any
      config.eligible = ((s.state.items.lookup i).any config.eligible && i != itemId) := by
    intro i
    rw [lookup_executeItem rfl]
    by_cases hi : i = itemId
    · subst hi
      have hstatus : ∀ (outcome : Outcome) (agent : Option Uuid),
          config.eligible ⟨outcome.status, agent⟩ = false := by
        intro outcome agent
        unfold Outcome.status eligible
        cases outcome.succeeded <;> rfl
      rw [if_pos rfl, bne_self_eq_false, Bool.and_false]
      cases s.state.items.lookup i with
      | none => rfl
      | some item => exact hstatus _ _
    · simp [hi]
  rw [hrest, List.filter_congr fun i _ => hafter i, ← List.filter_filter, List.filter_comm, hrest]
  congr 1
  rw [List.filter_cons_of_neg (by simp), List.filter_eq_self.mpr]
  intro i hi
  simpa using fun heq : i = itemId => hnodup.1 (heq ▸ hi)

theorem executions_eq (horder : order.Nodup) (remaining : Nat) :
    config.executions stamp order runId remaining s =
      (config.selected order remaining s.state).map fun i =>
        (i, config.executor (config.context runId s.state i)) := by
  induction remaining generalizing s with
  | zero => rfl
  | succ remaining ih =>
    unfold executions
    cases hnext : config.nextItem order s.state with
    | none =>
      have hnil : (order.filter fun i => (s.state.items.lookup i).any config.eligible) = [] := by
        rw [← List.head?_eq_none_iff, List.head?_filter]
        exact hnext
      rw [selected, hnil]
      rfl
    | some itemId =>
      have hcontext : ∀ i, config.context runId (config.executeItem stamp runId s itemId).state i =
          config.context runId s.state i := by
        intro i
        simp only [context, itemAgent_executeItem]
      have hfilter : (order.filter fun i => (s.state.items.lookup i).any config.eligible) = itemId ::
          order.filter fun i => ((config.executeItem stamp runId s itemId).state.items.lookup i).any
            config.eligible := filter_eligible_executeItem horder hnext
      dsimp only
      rw [ih, selected, selected, hfilter, List.take_succ_cons, List.map_cons]
      simp only [hcontext]

/-! ### The counters of the loop -/

theorem nextRevision_executeItem {outcome : Outcome}
    (h : config.executor (config.context runId s.state itemId) = outcome) :
    (config.executeItem stamp runId s itemId).nextRevision =
      s.nextRevision + (outcome.payloads config.worker runId itemId).length := by
  simp only [executeItem, h]
  cases outcome with
  | error message => rfl
  | ok result =>
    cases hsucc : result.success
    · show (((eventsForExecution ..).getLast?.map (·.revision)).getD _) = _
      simp only [eventsForExecution, Outcome.payloads, hsucc, Bool.false_eq_true, if_false]
      show s.nextRevision + 1 + 1 = s.nextRevision + 2
      omega
    · show (((eventsForExecution ..).getLast?.map (·.revision)).getD _) = _
      simp only [eventsForExecution, Outcome.payloads, hsucc, if_true]
      show s.nextRevision + 1 + 2 = s.nextRevision + 3
      omega

/-- The arm for an executor error leaves the revision of the run as it was. -/
theorem latestRevision_executeItem {outcome : Outcome}
    (h : config.executor (config.context runId s.state itemId) = outcome) :
    (config.executeItem stamp runId s itemId).state.latestRevision =
      if outcome.isResult then (config.executeItem stamp runId s itemId).nextRevision
      else s.state.latestRevision := by
  simp only [executeItem, h]
  cases outcome <;> rfl

theorem effortPoints_executeItem {outcome : Outcome}
    (h : config.executor (config.context runId s.state itemId) = outcome) :
    (config.executeItem stamp runId s itemId).state.effortPoints =
      s.state.effortPoints + outcome.effort := by
  simp only [executeItem, h]
  cases outcome with
  | error message => exact (Int.add_zero _).symm
  | ok result => cases hsucc : result.success <;> simp [recordResult, applyResult, Outcome.effort, hsucc]

theorem totalCost_executeItem {outcome : Outcome}
    (h : config.executor (config.context runId s.state itemId) = outcome)
    (hfailed : outcome.succeeded = false) :
    (config.executeItem stamp runId s itemId).state.totalCost = s.state.totalCost := by
  simp only [executeItem, h]
  cases outcome with
  | error message => rfl
  | ok result =>
    have hsucc : result.success = false := hfailed
    simp [recordResult, applyResult, hsucc]

/-- The counters after the executions of `executed`. The revision in memory is the one of the last event
unless the last execution was an executor error. -/
structure Counted (config : LoopConfig) (runId : Uuid) (s s' : LoopState)
    (executed : List (Uuid × Outcome)) : Prop where
  nextRevision : s'.nextRevision =
    s.nextRevision + (executedPayloads config.worker runId executed).length
  latest_le : s.state.latestRevision ≤ s.nextRevision → s'.state.latestRevision ≤ s'.nextRevision
  latest_eq_iff : s.state.latestRevision ≤ s.nextRevision →
    (s'.state.latestRevision = s'.nextRevision ↔
      executed.getLast?.elim (s.state.latestRevision = s.nextRevision) (·.2.isResult))
  effortPoints : s'.state.effortPoints =
    s.state.effortPoints + (executed.map (·.2.effort)).sum
  totalCost : (∀ x ∈ executed, x.2.succeeded = false) → s'.state.totalCost = s.state.totalCost

theorem counted_cons {s' : LoopState} {executed : List (Uuid × Outcome)}
    (h : Counted config runId (config.executeItem stamp runId s itemId) s' executed) :
    Counted config runId s s'
      ((itemId, config.executor (config.context runId s.state itemId)) :: executed) := by
  generalize hout : config.executor (config.context runId s.state itemId) = outcome
  have hnext : (config.executeItem stamp runId s itemId).nextRevision =
      s.nextRevision + (Outcome.payloads config.worker runId itemId outcome).length :=
    nextRevision_executeItem hout
  have hlatest : (config.executeItem stamp runId s itemId).state.latestRevision =
      if Outcome.isResult outcome then (config.executeItem stamp runId s itemId).nextRevision
      else s.state.latestRevision := latestRevision_executeItem hout
  have hpos : 0 < (Outcome.payloads config.worker runId itemId outcome).length := by
    cases outcome with
    | error message => exact Nat.one_pos
    | ok result =>
      unfold Outcome.payloads
      dsimp only
      split <;> exact Nat.succ_pos _
  have hle : s.state.latestRevision ≤ s.nextRevision →
      (config.executeItem stamp runId s itemId).state.latestRevision ≤
        (config.executeItem stamp runId s itemId).nextRevision := by
    intro hle
    rw [hlatest]
    split <;> omega
  constructor
  · rw [h.nextRevision, hnext, executedPayloads_cons, List.length_append]
    dsimp only
    omega
  · exact fun h₀ => h.latest_le (hle h₀)
  · intro h₀
    rw [h.latest_eq_iff (hle h₀), List.getLast?_cons]
    cases executed.getLast? with
    | some x => exact Iff.rfl
    | none =>
      show _ ↔ Outcome.isResult outcome = true
      rw [Option.elim_none, hlatest]
      split
      · next hresult => exact iff_of_true rfl hresult
      · next hresult => exact iff_of_false (by omega) hresult
  · rw [h.effortPoints, effortPoints_executeItem hout, List.map_cons, List.sum_cons,
      Int.add_assoc]
  · intro hfailed
    rw [List.forall_mem_cons] at hfailed
    rw [h.totalCost hfailed.2, totalCost_executeItem hout hfailed.1]

theorem itemLoop_counted (remaining : Nat) :
    Counted config runId s (config.itemLoop stamp order runId remaining s)
      (config.executions stamp order runId remaining s) := by
  have hnone : ∀ s : LoopState, Counted config runId s s [] := by
    intro s
    constructor <;> simp
  induction remaining generalizing s with
  | zero => exact hnone s
  | succ remaining ih =>
    unfold itemLoop executions
    cases config.nextItem order s.state with
    | none => exact hnone s
    | some itemId => exact counted_cons ih

/-! ### The whole iteration -/

theorem advanceRun_counted (config : LoopConfig) (stamp : Nat → Stamp) (order : List Uuid)
    (runId : Uuid) {state : RunState} (hskips : LoopConfig.skips state = false) :
    let executed := config.executions stamp order runId config.maxItemsPerLoop (enterRun state)
    let memory := (config.advanceRun stamp order runId state).1
    (memory.latestRevision =
        state.latestRevision + (config.advanceRun stamp order runId state).2.length ↔
      ∀ x ∈ executed.getLast?, x.2.isResult) ∧
    memory.effortPoints = state.effortPoints + (executed.map (·.2.effort)).sum ∧
    ((∀ x ∈ executed, x.2.succeeded = false) → memory.totalCost = state.totalCost) := by
  obtain ⟨-, hrunning, -⟩ := LoopConfig.skips_eq_false.mp hskips
  have hex : Executed config runId (enterRun state)
      (config.itemLoop stamp order runId config.maxItemsPerLoop (enterRun state))
      (config.executions stamp order runId config.maxItemsPerLoop (enterRun state)) :=
    itemLoop_executed config.maxItemsPerLoop (Or.inl hrunning)
  have hcount : Counted config runId (enterRun state)
      (config.itemLoop stamp order runId config.maxItemsPerLoop (enterRun state))
      (config.executions stamp order runId config.maxItemsPerLoop (enterRun state)) :=
    itemLoop_counted config.maxItemsPerLoop
  rw [advanceRun, if_neg (by simp [hskips])]
  generalize config.executions stamp order runId config.maxItemsPerLoop (enterRun state) =
    executed at hex hcount ⊢
  generalize config.itemLoop stamp order runId config.maxItemsPerLoop (enterRun state) = s
    at hex hcount ⊢
  have hlength : s.runEvents.length = (executedPayloads config.worker runId executed).length := by
    have hpayloads : payloads s.runEvents = executedPayloads config.worker runId executed := hex.payloads
    rw [← hpayloads, payloads, List.length_map]
  have hnext : s.nextRevision = state.latestRevision + s.runEvents.length := by
    rw [hlength]
    exact hcount.nextRevision
  unfold finishRun
  split
  · next hfinished =>
    refine ⟨iff_of_true ?_ fun x hx => ?_, hcount.effortPoints, hcount.totalCost⟩
    · rw [List.length_append, List.length_singleton]
      dsimp only
      omega
    · exact Outcome.isResult_of_succeeded (hex.succeeded hfinished.1 x (List.mem_of_getLast? hx))
  · refine ⟨?_, hcount.effortPoints, hcount.totalCost⟩
    rw [← hnext, hcount.latest_eq_iff (le_refl _)]
    cases executed.getLast? <;> simp [enterRun]

end LoopConfig

/-! ### The replay of the batch -/

/-- The two agree in what they know of a run. -/
structure RunState.Agrees (memory replayed : RunState) : Prop where
  status : memory.status = replayed.status
  totalCost : memory.totalCost = replayed.totalCost
  effortPoints : memory.effortPoints = replayed.effortPoints
  latestRevision : memory.latestRevision = replayed.latestRevision
  items : ∀ i, memory.items.lookup i = replayed.items.lookup i

/-- Of the items that are executed none succeeds, those that the executor gives a result for are
assigned to the worker itself, and the last one is among these. -/
def LoopConfig.CommutesOn (config : LoopConfig) (order : List Uuid) (runId : Uuid)
    (state : RunState) : Prop :=
  let selected := config.selected order config.maxItemsPerLoop state
  let outcome := fun i => config.executor (config.context runId state i)
  (∀ i ∈ selected, Outcome.succeeded (outcome i) = false) ∧
  (∀ i ∈ selected, Outcome.isResult (outcome i) →
    state.itemAgent i = some config.worker.agentId) ∧
  ∀ i ∈ selected.getLast?, Outcome.isResult (outcome i)

instance (config : LoopConfig) (order : List Uuid) (runId : Uuid) (state : RunState) :
    Decidable (config.CommutesOn order runId state) := inferInstanceAs (Decidable (_ ∧ _ ∧ _))

theorem Consecutive.foldl_max {n : Int} {events : List EventEnvelope} (h : Consecutive n events) :
    (events.map (·.revision)).foldl max n = n + events.length := by
  induction events generalizing n with
  | nil => exact (Int.add_zero n).symm
  | cons e events ih =>
    obtain ⟨hrevision, hrest⟩ := h
    rw [List.map_cons, List.foldl_cons, hrevision, max_eq_right (by omega), ih hrest,
      List.length_cons]
    omega

section replay

variable {config : LoopConfig} {runId : Uuid} {state state' : RunState}
  {batch rows : List EventEnvelope} {executed : List (Uuid × Outcome)} {summary : Option String}
  (h : Advanced config runId state state' batch executed summary)
  (hrows : payloads rows = payloads batch)

include h hrows

theorem status_replayBatch : (rows.foldl RunState.apply state).status = state'.status := by
  rw [RunState.status_foldl_apply, hrows, h.status_before, lastWrite_workerStatus_batch h]

theorem lastWrite_replayBatch {V : Type} {w : EventPayload → Option V}
    (hw : ∀ text, w (.runCompleted runId text) = none) :
    lastWrite w (payloads rows) = lastWrite w (executedPayloads config.worker runId executed) := by
  rw [hrows, h.payloads, lastWrite_append, lastWrite_of_none, Option.none_or]
  intro p hp
  obtain ⟨text, -, rfl⟩ := List.mem_map.mp hp
  exact hw text

theorem itemStatus_replayBatch (i : Uuid) :
    (rows.foldl RunState.apply state).itemStatus i = state'.itemStatus i := by
  rw [RunState.itemStatus_foldl_apply, lastWrite_replayBatch h hrows fun _ => rfl, h.itemStatus]

/-- A replay gives an item that was started to the worker, the memory leaves it with its agent. -/
theorem itemAgent_replayBatch_iff :
    (∀ i, state'.itemAgent i = (rows.foldl RunState.apply state).itemAgent i) ↔
      ∀ x ∈ executed, x.2.isResult → state.itemAgent x.1 = some config.worker.agentId := by
  have hreplay : ∀ i, (rows.foldl RunState.apply state).itemAgent i =
      (lastWrite (EventPayload.itemAgent? i) (executedPayloads config.worker runId executed)).or
        (state.itemAgent i) := fun i => by
    rw [RunState.itemAgent_foldl_apply, lastWrite_replayBatch h hrows fun _ => rfl]
  simp only [h.itemAgent, hreplay]
  have hmem : ∀ x ∈ executed, lastWrite (EventPayload.itemAgent? x.1)
      (executedPayloads config.worker runId executed) =
        if x.2.isResult then some config.worker.agentId else none := fun x hx =>
    lastWrite_executed_of_mem (lastWrite_itemAgent_outcome x.1 · ·) hx h.nodup
  constructor
  · intro hagree x hx hresult
    rw [hagree, hmem x hx, if_pos hresult, Option.some_or]
  · intro hown i
    by_cases hi : i ∈ executed.map (·.1)
    · obtain ⟨x, hx, rfl⟩ := List.mem_map.mp hi
      rw [hmem x hx]
      split
      · next hresult => rw [Option.some_or, hown x hx hresult]
      · rw [Option.none_or]
    · rw [lastWrite_executed_of_not_mem (lastWrite_itemAgent_outcome i · ·) hi, Option.none_or]

theorem filterMap_charge_replayBatch : (payloads rows).filterMap EventPayload.charge? =
    (executedPayloads config.worker runId executed).filterMap EventPayload.charge? := by
  rw [hrows, h.payloads, List.filterMap_append]
  cases summary <;> simp [EventPayload.charge?]

theorem effortPoints_replayBatch : (rows.foldl RunState.apply state).effortPoints =
    state.effortPoints + ((executed.map (·.2.effort)).sum + (executed.map (·.2.chunkEffort)).sum) := by
  rw [RunState.effortPoints_foldl_apply, chargedEffort, filterMap_charge_replayBatch h hrows]
  exact congrArg _ (chargedEffort_executed executed)

theorem totalCost_replayBatch (hfailed : ∀ x ∈ executed, x.2.succeeded = false) :
    (rows.foldl RunState.apply state).totalCost = state.totalCost := by
  rw [RunState.totalCost_foldl_apply, filterMap_charge_replayBatch h hrows,
    List.filterMap_eq_nil_iff.mpr (charge?_of_failed hfailed)]
  rfl

end replay

/-- The state in memory is the one that the replay makes of the batch exactly if the run is one that the
two commute on. -/
theorem LoopConfig.advanceRun_agrees_iff (config : LoopConfig) (stamp : Nat → Stamp)
    {order : List Uuid} {runId : Uuid} {state : RunState} (hskips : LoopConfig.skips state = false)
    (horder : order.Nodup) {rows : List EventEnvelope}
    (hrows : payloads rows = payloads (config.advanceRun stamp order runId state).2)
    (hcons : Consecutive state.latestRevision rows) :
    (config.advanceRun stamp order runId state).1.Agrees (rows.foldl RunState.apply state) ↔
      config.CommutesOn order runId state := by
  obtain ⟨summary, hadv⟩ := config.advanceRun_spec stamp order runId hskips
  obtain ⟨hlatest, heffort, hcost⟩ := config.advanceRun_counted stamp order runId hskips
  have hexecuted : config.executions stamp order runId config.maxItemsPerLoop (enterRun state) =
      (config.selected order config.maxItemsPerLoop state).map fun i =>
        (i, config.executor (config.context runId state i)) :=
    executions_eq horder config.maxItemsPerLoop
  have hcommutes : config.CommutesOn order runId state ↔
      (∀ x ∈ config.executions stamp order runId config.maxItemsPerLoop (enterRun state),
        x.2.succeeded = false) ∧
      (∀ x ∈ config.executions stamp order runId config.maxItemsPerLoop (enterRun state),
        x.2.isResult → state.itemAgent x.1 = some config.worker.agentId) ∧
      ∀ x ∈ (config.executions stamp order runId config.maxItemsPerLoop (enterRun state)).getLast?,
        x.2.isResult := by
    rw [hexecuted, List.getLast?_map]
    simp only [CommutesOn, List.forall_mem_map, Option.mem_map, forall_exists_index, and_imp,
      forall_apply_eq_imp_iff₂]
  rw [hcommutes]
  clear hcommutes hexecuted
  generalize config.executions stamp order runId config.maxItemsPerLoop (enterRun state) =
    executed at hadv hlatest heffort hcost ⊢
  generalize (config.advanceRun stamp order runId state).1 = memory at hadv hlatest heffort hcost ⊢
  generalize (config.advanceRun stamp order runId state).2 = batch at hadv hlatest hrows ⊢
  have hrevision : (rows.foldl RunState.apply state).latestRevision =
      state.latestRevision + batch.length := by
    have hlength : rows.length = batch.length := by
      simpa [payloads] using congrArg List.length hrows
    rw [RunState.latestRevision_foldl_apply, hcons.foldl_max, hlength]
  constructor
  · intro hagree
    refine ⟨sum_chunkEffort_eq_zero_iff.mp ?_, ?_, ?_⟩
    · have hequal := hagree.effortPoints
      rw [heffort, effortPoints_replayBatch hadv hrows] at hequal
      omega
    · refine (itemAgent_replayBatch_iff hadv hrows).mp fun i => ?_
      rw [RunState.itemAgent, hagree.items, RunState.itemAgent]
    · rw [← hlatest, hagree.latestRevision, hrevision]
  · rintro ⟨hfailed, hown, hlast⟩
    have hagent := (itemAgent_replayBatch_iff hadv hrows).mpr hown
    constructor
    · rw [status_replayBatch hadv hrows]
    · rw [hcost hfailed, totalCost_replayBatch hadv hrows hfailed]
    · rw [heffort, effortPoints_replayBatch hadv hrows, sum_chunkEffort_eq_zero_iff.mpr hfailed,
        Int.add_zero]
    · rw [hlatest.mpr hlast, hrevision]
    · intro i
      rw [RunState.lookup_items, RunState.lookup_items (rows.foldl RunState.apply state),
        itemStatus_replayBatch hadv hrows, hagent]

end SamtaDashboard

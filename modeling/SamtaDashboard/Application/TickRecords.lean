import SamtaDashboard.Application.TickMemory

/-!
# What an iteration records

The events of an iteration up to their ids, times and free text, as a function of the run's state and
of the items that are executed (`recorded`): each item leaves its group of events, and the completion
follows if afterwards all items are completed. The stamps do not matter, nor how the state came about.
-/

namespace SamtaDashboard

open EventFold

/-- A payload without its free text. -/
def EventPayload.untexted : EventPayload → EventPayload
  | runStarted workspaceId _ => .runStarted workspaceId ""
  | runStatusChanged runId status _ => .runStatusChanged runId status none
  | workItemFailed runId itemId _ => .workItemFailed runId itemId ""
  | blockerEncountered runId itemId _ => .blockerEncountered runId itemId ""
  | runCompleted runId _ => .runCompleted runId ""
  | payload => payload

/-- What an event records: its actor and its payload without free text. -/
def EventEnvelope.content (e : EventEnvelope) : Uuid × EventPayload := (e.actorId, e.payload.untexted)

theorem EventPayload.workerStatus?_untexted (p : EventPayload) :
    p.untexted.workerStatus? = p.workerStatus? := by
  cases p <;> rfl

theorem EventPayload.costIsFinite_untexted (p : EventPayload) :
    p.untexted.costIsFinite = p.costIsFinite := by
  cases p <;> rfl

/-- What the worker records for an execution in the name of `agentId`. -/
def Outcome.contents (worker : Worker) (runId itemId agentId : Uuid) :
    Outcome → List (Uuid × EventPayload)
  | .error _ => [(worker.agentId, .workItemFailed runId itemId "")]
  | .ok result =>
    if result.success then
      [(agentId, .workItemStarted runId itemId worker.agentId),
        (agentId, .workItemCompleted runId itemId result.effort result.cost),
        (agentId, .progressChunkEmitted runId itemId result.chunkEffort result.cost.half)]
    else
      [(agentId, .workItemStarted runId itemId worker.agentId),
        (worker.agentId, .workItemFailed runId itemId "")]

/-- A success whose cost can be read back: the next tick finds the run as this one leaves it. -/
def Outcome.goesOn : Outcome → Bool
  | .ok result => result.success && result.cost.isFinite
  | .error _ => false

section outcome

variable (worker : Worker) (runId itemId agentId : Uuid) (outcome : Outcome)

theorem contents_eventsForExecution (stamp : Nat → Stamp) (revision : Int) (result : ExecutionResult) :
    (eventsForExecution worker stamp runId itemId revision agentId result).map (·.content) =
      Outcome.contents worker runId itemId agentId (.ok result) := by
  cases h : result.success <;> simp only [eventsForExecution, Outcome.contents, h] <;> rfl

theorem length_contents_pos : 0 < (outcome.contents worker runId itemId agentId).length := by
  unfold Outcome.contents
  split
  · exact Nat.one_pos
  · split <;> exact Nat.succ_pos _

theorem Outcome.costIsFinite_contents (hsucceeded : outcome.succeeded) :
    (∀ x ∈ outcome.contents worker runId itemId agentId, x.2.costIsFinite = true) ↔ outcome.goesOn := by
  cases outcome with
  | error message => cases hsucceeded
  | ok result =>
    have hsucc : result.success = true := hsucceeded
    simp [Outcome.contents, Outcome.goesOn, hsucc, EventPayload.costIsFinite, F64.isFinite_half]

end outcome

namespace LoopConfig

variable {config : LoopConfig} {stamp : Nat → Stamp} {order : List Uuid} {runId itemId : Uuid}
  {s : LoopState} {state : RunState}

/-- What the executor gives back for an item of the run. -/
def outcome (config : LoopConfig) (runId : Uuid) (state : RunState) (itemId : Uuid) : Outcome :=
  config.executor (config.context runId state itemId)

/-- What executing an item of the run records. -/
def itemContents (config : LoopConfig) (runId : Uuid) (state : RunState) (itemId : Uuid) :
    List (Uuid × EventPayload) :=
  (config.outcome runId state itemId).contents config.worker runId itemId
    (config.context runId state itemId).agentId

/-- All items of the run are completed once those of `items` are executed. -/
def finished (config : LoopConfig) (runId : Uuid) (state : RunState) (items : List Uuid) : Bool :=
  state.items.keys.all fun i =>
    if i ∈ items then (config.outcome runId state i).succeeded
    else state.itemStatus i = some .completed

/-- What an iteration over the run records that executes `items`. -/
def recorded (config : LoopConfig) (runId : Uuid) (state : RunState) (items : List Uuid) :
    List (Uuid × EventPayload) :=
  items.flatMap (config.itemContents runId state) ++
    if config.finished runId state items then [(config.worker.agentId, .runCompleted runId "")] else []

/-- The items that may be executed, in the order in which they are picked. -/
def eligibleItems (config : LoopConfig) (order : List Uuid) (state : RunState) : List Uuid :=
  order.filter fun i => (state.items.lookup i).any config.eligible

theorem finished_iff {items : List Uuid} : config.finished runId state items ↔
    ∀ i, state.itemStatus i ≠ none → if i ∈ items then (config.outcome runId state i).succeeded
      else state.itemStatus i = some .completed := by
  rw [finished, List.all_eq_true]
  refine forall_congr' fun i => ?_
  have hkeys : i ∈ state.items.keys ↔ state.itemStatus i ≠ none := by
    rw [← AList.mem_keys, ← AList.lookup_isSome, RunState.itemStatus]
    cases state.items.lookup i <;> simp
  rw [hkeys]
  refine imp_congr_right fun _ => ?_
  split <;> simp

theorem map_fst_outcomes (items : List Uuid) :
    (items.map fun i => (i, config.outcome runId state i)).map (·.1) = items := by
  rw [List.map_map]
  exact List.map_id _

theorem or_itemStatus_executed {items : List Uuid}
    (hnodup : ((items.map fun i => (i, config.outcome runId state i)).map (·.1)).Nodup) (i : Uuid)
    (before : Option ItemStatus) :
    (lastWrite (EventPayload.itemStatus? i) (executedPayloads config.worker runId
        (items.map fun i => (i, config.outcome runId state i)))).or before =
      if i ∈ items then some (config.outcome runId state i).status else before := by
  have hwrites := fun itemId outcome =>
    lastWrite_itemStatus_outcome config.worker runId itemId outcome i
  split
  · next hi =>
    have hmem := List.mem_map_of_mem (f := fun i => (i, config.outcome runId state i)) hi
    rw [lastWrite_executed_of_mem hwrites hmem hnodup, Option.some_or]
  · next hi =>
    rw [lastWrite_executed_of_not_mem hwrites (by rwa [map_fst_outcomes]), Option.none_or]

theorem context_executeItem (i : Uuid) :
    config.context runId (config.executeItem stamp runId s itemId).state i =
      config.context runId s.state i := by
  simp only [context, itemAgent_executeItem]

theorem contents_executeItem : (config.executeItem stamp runId s itemId).runEvents.map (·.content) =
    s.runEvents.map (·.content) ++ config.itemContents runId s.state itemId := by
  simp only [executeItem, itemContents, outcome]
  cases config.executor (config.context runId s.state itemId) with
  | error message => exact List.map_append
  | ok result => simp only [recordResult, List.map_append, contents_eventsForExecution]

theorem contents_itemLoop (horder : order.Nodup) (remaining : Nat) :
    (config.itemLoop stamp order runId remaining s).runEvents.map (·.content) =
      s.runEvents.map (·.content) ++
        (config.selected order remaining s.state).flatMap (config.itemContents runId s.state) := by
  induction remaining generalizing s with
  | zero => exact (List.append_nil _).symm
  | succ remaining ih =>
    unfold itemLoop
    cases hnext : config.nextItem order s.state with
    | none =>
      have hnil : (order.filter fun i => (s.state.items.lookup i).any config.eligible) = [] := by
        rw [← List.head?_eq_none_iff, List.head?_filter]
        exact hnext
      rw [selected, hnil]
      exact (List.append_nil _).symm
    | some itemId =>
      have hcontents : config.itemContents runId (config.executeItem stamp runId s itemId).state =
          config.itemContents runId s.state := by
        funext i
        simp only [itemContents, outcome, context_executeItem]
      have hfilter : (order.filter fun i => (s.state.items.lookup i).any config.eligible) = itemId ::
          order.filter fun i => ((config.executeItem stamp runId s itemId).state.items.lookup i).any
            config.eligible := filter_eligible_executeItem horder hnext
      dsimp only
      rw [ih, contents_executeItem, hcontents, selected, selected, hfilter, List.take_succ_cons,
        List.flatMap_cons, List.append_assoc]

theorem allItemsCompleted_itemLoop (horder : order.Nodup) (hskips : skips state = false)
    (remaining : Nat) :
    (config.itemLoop stamp order runId remaining (enterRun state)).state.allItemsCompleted =
      config.finished runId state (config.selected order remaining state) := by
  obtain ⟨-, hrunning, hitems⟩ := skips_eq_false.mp hskips
  have hex : Executed config runId (enterRun state)
      (config.itemLoop stamp order runId remaining (enterRun state))
      (config.executions stamp order runId remaining (enterRun state)) :=
    itemLoop_executed remaining (Or.inl hrunning)
  rw [executions_eq horder] at hex
  generalize config.itemLoop stamp order runId remaining (enterRun state) = s at hex ⊢
  change Executed config runId (enterRun state) s
    ((config.selected order remaining state).map fun i => (i, config.outcome runId state i)) at hex
  generalize config.selected order remaining state = selected at hex ⊢
  have hknown : ∀ i ∈ selected, state.itemStatus i ≠ none := by
    intro i hi
    obtain ⟨item, hitem, -⟩ := hex.eligible _ (List.mem_map_of_mem hi)
    rw [RunState.itemStatus, show state.items.lookup i = some item from hitem]
    exact Option.some_ne_none _
  have hstatus : ∀ i, s.state.itemStatus i =
      if i ∈ selected then some (config.outcome runId state i).status else state.itemStatus i :=
    fun i => (hex.itemStatus i).trans (or_itemStatus_executed hex.nodup i _)
  have hcompleted : ∀ outcome : Outcome, outcome.status = .completed ↔ outcome.succeeded := by
    intro outcome
    unfold Outcome.status
    cases outcome.succeeded <;> simp
  have hne : s.state.items.values.isEmpty = false := by
    obtain ⟨i, hi⟩ := RunState.isEmpty_values_iff.mp hitems
    refine RunState.isEmpty_values_iff.mpr ⟨i, ?_⟩
    rw [hstatus]
    split
    · exact Option.some_ne_none _
    · exact hi
  rw [Bool.eq_iff_iff, RunState.allItemsCompleted_iff, finished_iff, and_iff_right hne]
  refine forall_congr' fun i => ?_
  rw [hstatus]
  split
  · next hi =>
    rw [← hcompleted]
    exact ⟨fun h _ => h _ rfl, fun h status heq => Option.some.inj heq ▸ h (hknown i hi)⟩
  · rw [Option.ne_none_iff_exists']
    constructor
    · rintro h ⟨status, heq⟩
      rw [heq, h status heq]
    · intro h status heq
      exact Option.some.inj (heq.symm.trans (h ⟨status, heq⟩))

theorem recorded_advanceRun (config : LoopConfig) (stamp : Nat → Stamp) (horder : order.Nodup)
    (runId : Uuid) (hskips : skips state = false) :
    let selected := config.selected order config.maxItemsPerLoop state
    (config.advanceRun stamp order runId state).2.map (·.content) =
      config.recorded runId state selected ∧
    (config.advanceRun stamp order runId state).1.status =
      if config.finished runId state selected then "completed"
      else if selected.all fun i => (config.outcome runId state i).succeeded then "running"
      else "blocked" := by
  obtain ⟨-, hrunning, -⟩ := skips_eq_false.mp hskips
  have hcontents : (config.itemLoop stamp order runId config.maxItemsPerLoop
        (enterRun state)).runEvents.map (·.content) =
      (config.selected order config.maxItemsPerLoop state).flatMap (config.itemContents runId state) :=
    contents_itemLoop horder _
  have hall : (config.itemLoop stamp order runId config.maxItemsPerLoop
        (enterRun state)).state.allItemsCompleted =
      config.finished runId state (config.selected order config.maxItemsPerLoop state) :=
    allItemsCompleted_itemLoop horder hskips _
  have hstatus : (config.itemLoop stamp order runId config.maxItemsPerLoop
        (enterRun state)).state.status =
      if (config.selected order config.maxItemsPerLoop state).all
        fun i => (config.outcome runId state i).succeeded then "running" else "blocked" := by
    have hex : Executed config runId (enterRun state)
        (config.itemLoop stamp order runId config.maxItemsPerLoop (enterRun state))
        (config.executions stamp order runId config.maxItemsPerLoop (enterRun state)) :=
      itemLoop_executed _ (Or.inl hrunning)
    rw [hex.status, executions_eq horder, List.all_map]
    exact congrArg (ite _ · _) hrunning
  rw [advanceRun, if_neg (by simp [hskips])]
  dsimp only
  rw [recorded, ← hall]
  generalize config.itemLoop stamp order runId config.maxItemsPerLoop (enterRun state) = s at *
  have hopen : s.state.status ≠ "completed" := by
    rw [hstatus]
    split <;> decide
  unfold finishRun
  split
  · next h =>
    rw [if_pos h.1, if_pos h.1, List.map_append, hcontents]
    exact ⟨rfl, rfl⟩
  · next h =>
    have hnot : ¬ s.state.allItemsCompleted = true := fun hall => h ⟨hall, hopen⟩
    rw [if_neg hnot, if_neg hnot, List.append_nil, hcontents]
    exact ⟨rfl, hstatus⟩

/-! ### The run that the next tick finds -/

/-- `state'` is the run after the items of `items` are executed, as a replay gives it. -/
structure AfterItems (config : LoopConfig) (runId : Uuid) (state : RunState) (items : List Uuid)
    (state' : RunState) : Prop where
  workspaceId : state'.workspaceId = state.workspaceId
  status : state'.status = if config.finished runId state items then "completed"
    else if items.all fun i => (config.outcome runId state i).succeeded then "running" else "blocked"
  itemStatus : ∀ i, state'.itemStatus i =
    if i ∈ items then some (config.outcome runId state i).status else state.itemStatus i
  itemAgent : ∀ i, i ∉ items → state'.itemAgent i = state.itemAgent i

theorem afterItems_replay (config : LoopConfig) (stamp : Nat → Stamp) (horder : order.Nodup)
    (runId : Uuid) (hskips : skips state = false) {rows : List EventEnvelope}
    (hrows : payloads rows = payloads (config.advanceRun stamp order runId state).2) :
    AfterItems config runId state (config.selected order config.maxItemsPerLoop state)
      (rows.foldl RunState.apply state) := by
  obtain ⟨summary, hadv⟩ := config.advanceRun_spec stamp order runId hskips
  have hstatus := (recorded_advanceRun config stamp horder runId hskips).2
  rw [executions_eq horder] at hadv
  change Advanced config runId state _ _ ((config.selected order config.maxItemsPerLoop state).map
    fun i => (i, config.outcome runId state i)) summary at hadv
  generalize config.selected order config.maxItemsPerLoop state = selected at hadv hstatus ⊢
  constructor
  · rw [RunState.workspaceId_foldl_apply, lastWrite_replayBatch hadv hrows fun _ => rfl,
      lastWrite_of_none, Option.getD_none]
    intro p hp
    obtain ⟨x, -, hp⟩ := mem_executedPayloads hp
    have hexec := (mem_outcome_payloads _ _ _ _ hp).2.2
    cases p <;> first | rfl | cases hexec
  · rw [status_replayBatch hadv hrows, hstatus]
  · intro i
    rw [itemStatus_replayBatch hadv hrows, hadv.itemStatus]
    exact or_itemStatus_executed hadv.nodup i _
  · intro i hi
    rw [RunState.itemAgent_foldl_apply, lastWrite_replayBatch hadv hrows fun _ => rfl,
      lastWrite_executed_of_not_mem (lastWrite_itemAgent_outcome i · ·) (by rwa [map_fst_outcomes]),
      Option.none_or]

namespace AfterItems

variable {items more : List Uuid} {state' : RunState}

theorem skips_of_finished (h : AfterItems config runId state items state')
    (hfinished : config.finished runId state items) : skips state' = true := by
  rw [← Bool.not_eq_false, skips_eq_false, h.status, if_pos hfinished]
  exact fun hnot => absurd hnot.2.1 (by decide)

theorem skips_of_failed (h : AfterItems config runId state items state') {i : Uuid} (hi : i ∈ items)
    (hfailed : (config.outcome runId state i).succeeded = false) : skips state' = true := by
  have hall : ¬ items.all fun i => (config.outcome runId state i).succeeded := by
    rw [List.all_eq_true]
    exact fun hall => absurd ((hall i hi).symm.trans hfailed) (by decide)
  rw [← Bool.not_eq_false, skips_eq_false, h.status, if_neg hall]
  intro hnot
  split at hnot <;> exact absurd hnot.2.1 (by decide)

theorem skips_eq (h : AfterItems config runId state items state') (hskips : skips state = false)
    (hopen : config.finished runId state items = false)
    (hall : ∀ i ∈ items, (config.outcome runId state i).succeeded) : skips state' = false := by
  obtain ⟨hworkspace, -, hitems⟩ := skips_eq_false.mp hskips
  refine skips_eq_false.mpr ⟨h.workspaceId ▸ hworkspace, ?_, ?_⟩
  · rw [h.status, if_neg (by simp [hopen]), if_pos (List.all_eq_true.mpr hall)]
  · obtain ⟨i, hi⟩ := RunState.isEmpty_values_iff.mp hitems
    refine RunState.isEmpty_values_iff.mpr ⟨i, ?_⟩
    rw [h.itemStatus]
    split
    · exact Option.some_ne_none _
    · exact hi

theorem eligibleItems_eq (h : AfterItems config runId state items state') (order : List Uuid) :
    config.eligibleItems order state' = (config.eligibleItems order state).filter (· ∉ items) := by
  rw [eligibleItems, eligibleItems, List.filter_filter]
  refine List.filter_congr fun i _ => ?_
  by_cases hi : i ∈ items
  · have hstatus := h.itemStatus i
    rw [if_pos hi] at hstatus
    obtain ⟨item, hitem, hitem'⟩ := Option.map_eq_some_iff.mp hstatus
    have hnot : config.eligible item = false := by
      rw [← Bool.not_eq_true, eligible_iff, hitem']
      unfold Outcome.status
      split <;> exact fun hnot => absurd hnot.1 (by decide)
    simp [hi, hitem, hnot]
  · have hlookup : state'.items.lookup i = state.items.lookup i := by
      rw [RunState.lookup_items, RunState.lookup_items, h.itemStatus, if_neg hi, h.itemAgent i hi]
    simp [hi, hlookup]

theorem context_eq (h : AfterItems config runId state items state') {i : Uuid} (hi : i ∉ items) :
    config.context runId state' i = config.context runId state i := by
  simp only [context, h.itemAgent i hi]

theorem outcome_eq (h : AfterItems config runId state items state') {i : Uuid} (hi : i ∉ items) :
    config.outcome runId state' i = config.outcome runId state i := by
  rw [outcome, h.context_eq hi, outcome]

theorem recorded_append (h : AfterItems config runId state items state')
    (hopen : config.finished runId state items = false)
    (hall : ∀ i ∈ items, (config.outcome runId state i).succeeded)
    (hmore : ∀ i ∈ more, i ∉ items) :
    config.recorded runId state (items ++ more) =
      config.recorded runId state items ++ config.recorded runId state' more := by
  have hfinished : config.finished runId state' more = config.finished runId state (items ++ more) := by
    rw [Bool.eq_iff_iff, finished_iff, finished_iff]
    refine forall_congr' fun i => ?_
    rw [h.itemStatus]
    by_cases hi : i ∈ items
    · have hcompleted : (config.outcome runId state i).status = .completed := by
        rw [Outcome.status, if_pos (hall i hi)]
      have hnot : i ∉ more := fun hmem => hmore i hmem hi
      simp [hi, hnot, hcompleted, hall i hi]
    · simp [hi, h.outcome_eq hi]
  have hcontents : more.flatMap (config.itemContents runId state') =
      more.flatMap (config.itemContents runId state) := by
    refine List.flatMap_congr fun i hi => ?_
    rw [itemContents, h.outcome_eq (hmore i hi), h.context_eq (hmore i hi), itemContents]
  rw [recorded, recorded, recorded, hfinished, hcontents, hopen, List.flatMap_append,
    if_neg Bool.false_ne_true, List.append_nil, List.append_assoc]

end AfterItems

end LoopConfig

end SamtaDashboard

import SamtaDashboard.Application.TickMemory

/-!
# The item loop, round by round

`LoopConfig.round` is one round of the `while` loop over the items of a run as it stands in the code:
with its condition, its `break`, the `continue` behind the second look at the item's status, and the
count of processed items. That `continue` would repeat the round forever; it is never reached, and
the loop ends with what `LoopConfig.itemLoop` computes (`round_ends_iff`). The batch of a tick then has
one group of events for each item executed, under the revisions that follow the last one of the run
(`tick_batch`).

A loop is given by its `round`: what one round makes of the locals, or `none` where the loop stops, at its
condition or at a `break`. A loop that runs forever has no end (`WhileLoop.Ends`).
-/

namespace WhileLoop

universe u

variable {S : Type u} {round : S → Option S}

/-- From the locals `s` the loop ends with the locals `t` after `n` rounds. -/
inductive Ends (round : S → Option S) : Nat → S → S → Prop
  | stop {s : S} : round s = none → Ends round 0 s s
  | again {n : Nat} {s s' t : S} : round s = some s' → Ends round n s' t → Ends round (n + 1) s t

theorem Ends.unique {n n' : Nat} {s t t' : S} (h : Ends round n s t) (h' : Ends round n' s t') :
    n = n' ∧ t = t' := by
  induction h generalizing n' with
  | stop hstop =>
    cases h' with
    | stop => exact ⟨rfl, rfl⟩
    | again hround => rw [hstop] at hround; cases hround
  | again hround _ ih =>
    cases h' with
    | stop hstop => rw [hstop] at hround; cases hround
    | again hround' hrest =>
      rw [hround] at hround'
      obtain rfl := Option.some.inj hround'
      obtain ⟨rfl, rfl⟩ := ih hrest
      exact ⟨rfl, rfl⟩

end WhileLoop

namespace SamtaDashboard

open EventFold WhileLoop

/-! ### Counting the values of a map -/

theorem HashMap.countP_values {V : Type} {m : HashMap V} {order : List Uuid} (h : m.IsOrder order)
    (p : V → Bool) :
    m.values.countP p = (order.filter fun key => (m.lookup key).any p).length := by
  have hperm : order.Perm m.keys := (List.perm_ext_iff_of_nodup h.1 m.keys_nodup).mpr h.2
  have hentry : ∀ entry ∈ m.entries, (m.lookup entry.1).any p = p entry.2 := by
    intro entry hmem
    rw [AList.mem_lookup_iff.mpr hmem, Option.any_some]
  have hkeys : m.keys = m.entries.map (·.1) := rfl
  rw [← List.countP_eq_length_filter, hperm.countP_eq, hkeys, values, List.countP_map,
    List.countP_map]
  refine List.countP_congr fun entry hmem => ?_
  simp only [Function.comp_apply, hentry entry hmem]

/-! ### Rebasing revisions that follow already -/

theorem Consecutive.withRebasedRevisions_eq {n : Int} {events : List EventEnvelope}
    (h : Consecutive n events) : withRebasedRevisions events n = events := by
  induction events generalizing n with
  | nil => rfl
  | cons e events ih =>
    obtain ⟨hrevision, hrest⟩ := h
    rw [withRebasedRevisions_cons, ih hrest, ← hrevision]

theorem consecutive_singleton {n : Int} {e : EventEnvelope} (h : e.revision = n + 1) :
    Consecutive n [e] := ⟨h, trivial⟩

namespace LoopConfig

variable {config : LoopConfig} {stamp : Nat → Stamp} {order : List Uuid} {runId : Uuid}

/-! ### The loop -/

/-- The locals of the `while` loop, and the calls of `executor.execute` with what they gave back. -/
structure LoopLocals where
  loop : LoopState
  processedCount : Nat
  calls : List (Uuid × Outcome)

/-- One round of `while processed_count < max_items_per_loop`. -/
def round (config : LoopConfig) (stamp : Nat → Stamp) (order : List Uuid) (runId : Uuid)
    (x : LoopLocals) : Option LoopLocals :=
  if x.processedCount < config.maxItemsPerLoop then
    match config.nextItem order x.loop.state with
    | none => none
    | some itemId =>
      if (x.loop.state.items.lookup itemId).any (·.status ≠ .assigned) then
        -- `continue`, without an item processed
        some x
      else
        some {
          loop := config.executeItem stamp runId x.loop itemId
          processedCount := x.processedCount + 1
          calls := x.calls ++
            [(itemId, config.executor (config.context runId x.loop.state itemId))] }
  else none

def enterLoop (state : RunState) : LoopLocals := ⟨enterRun state, 0, []⟩

theorem round_of_nextItem {x : LoopLocals} {itemId : Uuid}
    (hcount : x.processedCount < config.maxItemsPerLoop)
    (hnext : config.nextItem order x.loop.state = some itemId) :
    config.round stamp order runId x = some {
      loop := config.executeItem stamp runId x.loop itemId
      processedCount := x.processedCount + 1
      calls := x.calls ++
        [(itemId, config.executor (config.context runId x.loop.state itemId))] } := by
  obtain ⟨-, item, hitem, heligible⟩ := nextItem_eq_some hnext
  have hassigned : item.status = .assigned := (eligible_iff.mp heligible).1
  simp only [round, hcount, hnext, hitem, hassigned, if_true, Option.any_some, ne_eq,
    not_true_eq_false, decide_false, Bool.false_eq_true, if_false]

theorem round_ends (config : LoopConfig) (stamp : Nat → Stamp) (order : List Uuid) (runId : Uuid)
    (remaining : Nat) {x : LoopLocals}
    (hcount : x.processedCount + remaining = config.maxItemsPerLoop) :
    Ends (config.round stamp order runId)
      (config.executions stamp order runId remaining x.loop).length x {
        loop := config.itemLoop stamp order runId remaining x.loop
        processedCount := x.processedCount +
          (config.executions stamp order runId remaining x.loop).length
        calls := x.calls ++ config.executions stamp order runId remaining x.loop } := by
  induction remaining generalizing x with
  | zero =>
    have hstop : config.round stamp order runId x = none := by
      rw [round, if_neg (by omega)]
    simpa [executions, itemLoop] using Ends.stop hstop
  | succ remaining ih =>
    unfold executions itemLoop
    cases hnext : config.nextItem order x.loop.state with
    | none =>
      have hstop : config.round stamp order runId x = none := by
        simp only [round, hnext, ite_self]
      simpa using Ends.stop hstop
    | some itemId =>
      refine .again (round_of_nextItem (by omega) hnext) ?_
      have hrest := ih (x := ⟨config.executeItem stamp runId x.loop itemId, x.processedCount + 1,
        x.calls ++ [(itemId, config.executor (config.context runId x.loop.state itemId))]⟩)
        (by dsimp only; omega)
      simpa [Nat.add_assoc, Nat.add_comm, Nat.add_left_comm] using hrest

/-- The loop ends, after one round for each item that it executes. -/
theorem round_ends_iff {state : RunState} {n : Nat} {x : LoopLocals} :
    Ends (config.round stamp order runId) n (enterLoop state) x ↔
      n = (config.executions stamp order runId config.maxItemsPerLoop (enterRun state)).length ∧
      x = {
        loop := config.itemLoop stamp order runId config.maxItemsPerLoop (enterRun state)
        processedCount := n
        calls := config.executions stamp order runId config.maxItemsPerLoop (enterRun state) } := by
  have hends : Ends (config.round stamp order runId)
      (config.executions stamp order runId config.maxItemsPerLoop (enterRun state)).length
      (enterLoop state) {
        loop := config.itemLoop stamp order runId config.maxItemsPerLoop (enterRun state)
        processedCount :=
          (config.executions stamp order runId config.maxItemsPerLoop (enterRun state)).length
        calls := config.executions stamp order runId config.maxItemsPerLoop (enterRun state) } := by
    have hends := round_ends config stamp order runId config.maxItemsPerLoop
      (x := enterLoop state) (Nat.zero_add _)
    simpa only [enterLoop, Nat.zero_add, List.nil_append] using hends
  constructor
  · intro h
    obtain ⟨rfl, rfl⟩ := h.unique hends
    exact ⟨rfl, rfl⟩
  · rintro ⟨rfl, rfl⟩
    exact hends

/-! ### The revisions of a batch -/

/-- The batch so far carries the revisions up to `next_revision`. -/
def Numbered (n : Int) (s : LoopState) : Prop :=
  Consecutive n s.runEvents ∧ s.nextRevision = n + s.runEvents.length

theorem Numbered.extend {n revision : Int} {s : LoopState} (h : Numbered n s)
    {events : List EventEnvelope} (hevents : Consecutive s.nextRevision events)
    (hrevision : revision = s.nextRevision + events.length) (state : RunState) (reads : Nat) :
    Numbered n ⟨state, s.runEvents ++ events, revision, reads⟩ := by
  obtain ⟨hcons, hnext⟩ := h
  refine ⟨consecutive_append.mpr ⟨hcons, hnext ▸ hevents⟩, ?_⟩
  rw [hrevision, hnext, List.length_append]
  dsimp only
  omega

theorem consecutive_eventsForExecution (worker : Worker) (stamp : Nat → Stamp)
    (runId itemId agentId : Uuid) (n : Int) (result : ExecutionResult) :
    let events := eventsForExecution worker stamp runId itemId (n + 1) agentId result
    Consecutive n events ∧ (events.getLast?.map (·.revision)).getD (n + 1) = n + events.length := by
  cases hsucc : result.success with
  | false =>
    simp only [eventsForExecution, hsucc, Bool.false_eq_true, if_false]
    refine ⟨⟨rfl, rfl, trivial⟩, ?_⟩
    show n + 1 + 1 = n + 2
    omega
  | true =>
    simp only [eventsForExecution, hsucc, if_true]
    refine ⟨⟨rfl, rfl, ?_, trivial⟩, ?_⟩
    · show n + 1 + 2 = n + 1 + 1 + 1
      omega
    · show n + 1 + 2 = n + 3
      omega

theorem executeItem_numbered {n : Int} {s : LoopState} (h : Numbered n s) (itemId : Uuid) :
    Numbered n (config.executeItem stamp runId s itemId) := by
  simp only [executeItem]
  cases config.executor (config.context runId s.state itemId) with
  | error message => exact h.extend (consecutive_singleton rfl) rfl _ _
  | ok result =>
    obtain ⟨hcons, hlast⟩ := consecutive_eventsForExecution config.worker
      (fun k => stamp (s.reads + k)) runId itemId (config.context runId s.state itemId).agentId
      s.nextRevision result
    exact h.extend hcons hlast _ _

theorem itemLoop_numbered {n : Int} (remaining : Nat) {s : LoopState} (h : Numbered n s) :
    Numbered n (config.itemLoop stamp order runId remaining s) := by
  induction remaining generalizing s with
  | zero => exact h
  | succ remaining ih =>
    unfold itemLoop
    split
    · exact h
    · exact ih (executeItem_numbered h _)

theorem finishRun_numbered {n : Int} {s : LoopState} (h : Numbered n s) :
    Numbered n (config.finishRun stamp runId s) := by
  unfold finishRun
  split
  · exact h.extend (consecutive_singleton rfl) rfl _ _
  · exact h

/-! ### The batch of a tick -/

theorem length_executions {state : RunState} (horder : state.items.IsOrder order) :
    (config.executions stamp order runId config.maxItemsPerLoop (enterRun state)).length =
      min config.maxItemsPerLoop (state.items.values.countP config.eligible) := by
  rw [executions_eq horder.1, List.length_map, selected, List.length_take,
    HashMap.countP_values horder]
  rfl

theorem payloads_finishRun {s : LoopState}
    (hstatus : s.state.status = "running" ∨ s.state.status = "blocked") :
    payloads (config.finishRun stamp runId s).runEvents = payloads s.runEvents ++
      if s.state.allItemsCompleted then
        [.runCompleted runId s!"worker completed run after {s.state.completedItemCount} items"]
      else [] := by
  have hopen : s.state.status ≠ "completed" := by
    rcases hstatus with hstatus | hstatus <;> rw [hstatus] <;> decide
  unfold finishRun
  by_cases hall : s.state.allItemsCompleted
  · rw [if_pos ⟨hall, hopen⟩, if_pos hall, payloads_append]
    rfl
  · rw [if_neg fun hand => hall hand.1, if_neg hall, List.append_nil]

/-- What an iteration over a run leaves: `x` are the locals at the end of the loop, `batch` is the
batch after the completion event. -/
structure ItemBatch (config : LoopConfig) (stamp : Nat → Stamp) (order : List Uuid) (runId : Uuid)
    (state : RunState) (x : LoopLocals) (batch : List EventEnvelope) : Prop where
  ends : Ends (config.round stamp order runId) x.calls.length (enterLoop state) x
  processedCount : x.processedCount = x.calls.length
  count : x.calls.length = min config.maxItemsPerLoop (state.items.values.countP config.eligible)
  nodup : (x.calls.map (·.1)).Nodup
  eligible : ∀ call ∈ x.calls, ∃ item, state.items.lookup call.1 = some item ∧ config.eligible item
  outcome : ∀ call ∈ x.calls, call.2 = config.executor (config.context runId state call.1)
  events : batch = (config.finishRun stamp runId x.loop).runEvents
  payloads : payloads batch = executedPayloads config.worker runId x.calls ++
    if x.loop.state.allItemsCompleted then
      [.runCompleted runId s!"worker completed run after {x.loop.state.completedItemCount} items"]
    else []
  consecutive : Consecutive state.latestRevision batch
  rebased : withRebasedRevisions batch state.latestRevision = batch

/-- The loop over the items of a running run ends. It has executed each item that it took once, all
of them eligible, and as many as there are up to `max_items_per_loop`; the batch holds the events of
these executions in order, and then a completion exactly if all items are completed, under the
revisions that follow the last one, so that rebasing on it changes nothing. -/
theorem itemLoop_batch (config : LoopConfig) (stamp : Nat → Stamp) {order : List Uuid} (runId : Uuid)
    {state : RunState} (hrunning : state.status = "running") (horder : state.items.IsOrder order) :
    ∃ x batch, ItemBatch config stamp order runId state x batch ∧
      (skips state = false → (config.advanceRun stamp order runId state).2 = batch) := by
  have hends : Ends (config.round stamp order runId)
      (config.executions stamp order runId config.maxItemsPerLoop (enterRun state)).length
      (enterLoop state) {
        loop := config.itemLoop stamp order runId config.maxItemsPerLoop (enterRun state)
        processedCount :=
          (config.executions stamp order runId config.maxItemsPerLoop (enterRun state)).length
        calls := config.executions stamp order runId config.maxItemsPerLoop (enterRun state) } :=
    round_ends_iff.mpr ⟨rfl, rfl⟩
  have hex : Executed config runId (enterRun state)
      (config.itemLoop stamp order runId config.maxItemsPerLoop (enterRun state))
      (config.executions stamp order runId config.maxItemsPerLoop (enterRun state)) :=
    itemLoop_executed config.maxItemsPerLoop (Or.inl hrunning)
  have hnumbered : Numbered state.latestRevision (config.finishRun stamp runId
      (config.itemLoop stamp order runId config.maxItemsPerLoop (enterRun state))) :=
    finishRun_numbered (itemLoop_numbered _ ⟨trivial, (Int.add_zero _).symm⟩)
  have hcount : (config.executions stamp order runId config.maxItemsPerLoop (enterRun state)).length =
      min config.maxItemsPerLoop (state.items.values.countP config.eligible) :=
    length_executions horder
  have houtcome : ∀ call ∈ config.executions stamp order runId config.maxItemsPerLoop (enterRun state),
      call.2 = config.executor (config.context runId state call.1) := by
    intro call hcall
    rw [executions_eq horder.1] at hcall
    obtain ⟨i, -, rfl⟩ := List.mem_map.mp hcall
    rfl
  have hadvance : skips state = false → (config.advanceRun stamp order runId state).2 =
      (config.finishRun stamp runId (config.itemLoop stamp order runId config.maxItemsPerLoop
        (enterRun state))).runEvents := by
    intro hskips
    rw [advanceRun, if_neg (by simp [hskips])]
  generalize config.executions stamp order runId config.maxItemsPerLoop (enterRun state) = calls
    at hends hex hcount houtcome
  generalize config.itemLoop stamp order runId config.maxItemsPerLoop (enterRun state) = s
    at hends hex hnumbered hadvance
  have hstatus : s.state.status = "running" ∨ s.state.status = "blocked" := by
    rw [hex.status]
    split
    · exact Or.inl hrunning
    · exact Or.inr rfl
  exact ⟨⟨s, calls.length, calls⟩, (config.finishRun stamp runId s).runEvents, {
    ends := hends
    processedCount := rfl
    count := hcount
    nodup := hex.nodup
    eligible := hex.eligible
    outcome := houtcome
    events := rfl
    payloads := by
      rw [payloads_finishRun hstatus, hex.payloads]
      rfl
    consecutive := hnumbered.1
    rebased := hnumbered.1.withRebasedRevisions_eq }, hadvance⟩

/-! ### A run with two items -/

/-- One item is done and the other one is assigned. -/
def halfDone : RunState where
  workspaceId := ⟨2⟩
  status := "running"
  totalCost := .zero
  effortPoints := 0
  latestRevision := 6
  updatedAt := 0
  items := AList.insert ⟨10⟩ ⟨.completed, some ⟨20⟩⟩ (AList.insert ⟨11⟩ ⟨.assigned, some ⟨20⟩⟩ ∅)

/-- An executor that gives an error on every item. -/
def brokenConfig : LoopConfig := ⟨⟨⟨60⟩⟩, fun _ => .error "no connection", 2, false⟩

theorem itemLoop_batch_halfDone : ∃ x batch,
    ItemBatch brokenConfig (fun _ => ⟨⟨100⟩, 0⟩) halfDone.items.keys ⟨1⟩ halfDone x batch ∧
      (skips halfDone = false →
        (brokenConfig.advanceRun (fun _ => ⟨⟨100⟩, 0⟩) halfDone.items.keys ⟨1⟩ halfDone).2 = batch) :=
  itemLoop_batch brokenConfig _ ⟨1⟩ rfl (HashMap.isOrder_keys _)

end LoopConfig

end SamtaDashboard

import SamtaDashboard.Application.TickRecords
import SamtaDashboard.Lib.Drain
import SamtaDashboard.System.Clock
import SamtaDashboard.System.Completion
import SamtaDashboard.System.Stuck
import Mathlib.Data.Finset.Card

/-!
# Ticks finish a run

A run that waits for the workers has assigned and completed items only. A tick without affinity
executes as many of the assigned items as its bound admits. If one of them fails the run is blocked, if
none does and none is left the run is completed; otherwise it waits with that many assigned items fewer
(`Underway.tick`). So the ticks that follow finish the run as soon as their bounds add up to the number
of assigned items, whatever the workers are, and whatever else happens to other runs in between
(`ticks_finish`).
-/

namespace SamtaDashboard

open EventFold Transition

/-! ### What a tick adds to a stream -/

section tick

variable {input : TickInput} {runStates : HashMap RunState} {db : Db} {r : Uuid}

theorem TickInput.stream_visitRun (hgap : GapFree db.log)
    (hfinite : ∀ e ∈ stream db.log r, e.payload.costIsFinite = true)
    (hfresh : ∀ b ∈ input.batch runStates r, ∀ e ∈ db.log, e.id ≠ b.id)
    (hdistinct : ((input.batch runStates r).map (·.id)).Nodup) :
    stream (input.visitRun runStates db r).log r =
      stream db.log r ++ appendedRows db.log r (input.batch runStates r) := by
  by_cases hbatch : input.batch runStates r = []
  · have hsame : input.visitRun runStates db r = db := by
      unfold visitRun
      cases hlookup : runStates.lookup r with
      | none => rfl
      | some state =>
        rw [batch_eq hlookup] at hbatch
        simp only [hbatch, List.isEmpty_nil, if_true]
    rw [hsame, hbatch]
    exact (List.append_nil _).symm
  · obtain ⟨state, hlookup⟩ : ∃ state, runStates.lookup r = some state := by
      cases hlookup : runStates.lookup r with
      | none =>
        rw [batch, hlookup] at hbatch
        exact absurd rfl hbatch
      | some state => exact ⟨state, rfl⟩
    rw [visitRun_log hgap hlookup hbatch hfinite hfresh hdistinct, stream_append, appendedRows,
      stream_map_bindTo, if_pos rfl]

theorem TickInput.stream_visitRun_of_ne {r' : Uuid} (hgap : GapFree db.log) (hne : r ≠ r') :
    stream (input.visitRun runStates db r').log r = stream db.log r := by
  obtain ⟨rows, hlog, hrun, -, -⟩ := input.visitRun_rows runStates r' hgap
  rw [hlog, stream_append, stream_rows hrun, if_neg hne, List.append_nil]

theorem TickInput.stream_visitRuns_of_not_mem {runs : List Uuid} (hr : r ∉ runs)
    (hgap : GapFree db.log) :
    stream (runs.foldl (input.visitRun runStates) db).log r = stream db.log r := by
  induction runs generalizing db with
  | nil => rfl
  | cons r' runs ih =>
    rw [List.mem_cons, not_or] at hr
    obtain ⟨rows, hlog, -, -, hgap'⟩ := input.visitRun_rows runStates r' hgap
    rw [← hlog] at hgap'
    rw [List.foldl_cons, ih hr.2 hgap', stream_visitRun_of_ne hgap hr.1]

theorem TickInput.stream_visitRuns {runs : List Uuid} (hnodup : runs.Nodup) (hr : r ∈ runs)
    (hgap : GapFree db.log) (hfinite : ∀ e ∈ stream db.log r, e.payload.costIsFinite = true)
    (hfresh : ∀ r' ∈ runs, ∀ b ∈ input.batch runStates r', ∀ e ∈ db.log, e.id ≠ b.id)
    (hdistinct : ((runs.flatMap (input.batch runStates)).map (·.id)).Nodup) :
    stream (runs.foldl (input.visitRun runStates) db).log r =
      stream db.log r ++ appendedRows db.log r (input.batch runStates r) := by
  induction runs generalizing db with
  | nil => cases hr
  | cons r' runs ih =>
    rw [List.nodup_cons] at hnodup
    rw [List.forall_mem_cons] at hfresh
    rw [List.flatMap_cons, List.map_append, List.nodup_append] at hdistinct
    obtain ⟨rows, hlog, -, hids, hgap'⟩ := input.visitRun_rows runStates r' hgap
    rw [← hlog] at hgap'
    rw [List.foldl_cons]
    rcases List.mem_cons.mp hr with rfl | hr
    · rw [stream_visitRuns_of_not_mem hnodup.1 hgap',
        stream_visitRun hgap hfinite hfresh.1 hdistinct.1]
    · have hne : r ≠ r' := fun heq => hnodup.1 (heq ▸ hr)
      have hsame : stream (input.visitRun runStates db r').log r = stream db.log r :=
        stream_visitRun_of_ne hgap hne
      have hrows : appendedRows (input.visitRun runStates db r').log r (input.batch runStates r) =
          appendedRows db.log r (input.batch runStates r) := by
        rw [appendedRows, hsame, appendedRows]
      rw [← hsame, ← hrows]
      refine ih hnodup.2 hr hgap' (hsame ▸ hfinite) (fun r'' hr'' b hb e he => ?_) hdistinct.2.1
      rw [hlog] at he
      rcases List.mem_append.mp he with he | he
      · exact hfresh.2 r'' hr'' b hb e he
      · obtain ⟨b', hb', hid⟩ := hids e he
        rw [hid]
        exact hdistinct.2.2 _ (List.mem_map_of_mem hb') _
          (List.mem_map_of_mem (List.mem_flatMap.mpr ⟨r'', hr'', hb⟩))

end tick

/-! ### Assigned items -/

def RunState.assignedItems (state : RunState) : Finset Uuid :=
  state.items.keys.toFinset.filter fun i => state.itemStatus i = some .assigned

theorem RunState.mem_assignedItems {state : RunState} {i : Uuid} :
    i ∈ state.assignedItems ↔ state.itemStatus i = some .assigned := by
  unfold assignedItems
  rw [Finset.mem_filter, and_iff_right_iff_imp, List.mem_toFinset, ← AList.mem_keys,
    ← AList.lookup_isSome]
  intro hstatus
  obtain ⟨item, hitem, -⟩ := Option.map_eq_some_iff.mp hstatus
  rw [hitem]
  rfl

section selection

variable {config : LoopConfig} {order : List Uuid} {r : Uuid} {state state' : RunState}
  {items : List Uuid}

theorem LoopConfig.mem_eligibleItems (horder : state.items.IsOrder order)
    (haffinity : config.itemAffinity = false) {i : Uuid} :
    i ∈ config.eligibleItems order state ↔ i ∈ state.assignedItems := by
  rw [eligibleItems, List.mem_filter, RunState.mem_assignedItems, Option.any_eq_true]
  constructor
  · rintro ⟨-, item, hitem, heligible⟩
    rw [RunState.itemStatus, hitem, Option.map_some, (eligible_iff.mp heligible).1]
  · intro hstatus
    obtain ⟨item, hitem, hassigned⟩ := Option.map_eq_some_iff.mp hstatus
    refine ⟨(horder.2 i).mpr (AList.lookup_isSome.mp (by rw [hitem]; rfl)), item, hitem,
      eligible_iff.mpr ⟨hassigned, fun h => ?_⟩⟩
    rw [haffinity] at h
    cases h

theorem LoopConfig.length_eligibleItems (horder : state.items.IsOrder order)
    (haffinity : config.itemAffinity = false) :
    (config.eligibleItems order state).length = state.assignedItems.card := by
  have hnodup : (config.eligibleItems order state).Nodup := horder.1.filter _
  rw [← List.toFinset_card_of_nodup hnodup]
  congr 1
  ext i
  rw [List.mem_toFinset, mem_eligibleItems horder haffinity]

theorem LoopConfig.AfterItems.assignedItems_eq (h : config.AfterItems r state items state') :
    state'.assignedItems = state.assignedItems \ items.toFinset := by
  ext i
  rw [Finset.mem_sdiff, List.mem_toFinset, RunState.mem_assignedItems, RunState.mem_assignedItems,
    h.itemStatus]
  by_cases hi : i ∈ items
  · rw [if_pos hi]
    unfold Outcome.status
    split <;> simp [hi]
  · simp [hi]

theorem LoopConfig.AfterItems.card_assignedItems (h : config.AfterItems r state items state')
    (hnodup : items.Nodup) (hitems : ∀ i ∈ items, i ∈ state.assignedItems) :
    state'.assignedItems.card + items.length = state.assignedItems.card := by
  have hsubset : items.toFinset ⊆ state.assignedItems := fun i hi => hitems i (List.mem_toFinset.mp hi)
  have hcard := Finset.card_sdiff_add_card_eq_card hsubset
  rwa [← h.assignedItems_eq, List.toFinset_card_of_nodup hnodup] at hcard

end selection

/-! ### What a tick records -/

def EventPayload.failsItem : EventPayload → Bool
  | workItemFailed .. => true
  | _ => false

section records

variable {config : LoopConfig} {r : Uuid} {state : RunState} {items : List Uuid}

theorem countP_contents {f : EventPayload → Bool} (hf : ∀ p, f p.untexted = f p)
    (events : List EventEnvelope) :
    (payloads events).countP f = (events.map (·.content)).countP fun x => f x.2 := by
  rw [payloads, List.countP_map, List.countP_map]
  refine List.countP_congr fun e _ => ?_
  simp only [Function.comp_apply, EventEnvelope.content, hf]

theorem LoopConfig.length_itemContents (i : Uuid) :
    (config.itemContents r state i).length ≤ 3 := by
  unfold itemContents Outcome.contents
  split
  · exact Nat.one_le_ofNat
  · split <;> simp

theorem LoopConfig.countP_failsItem_itemContents (i : Uuid) :
    (config.itemContents r state i).countP (fun x => x.2.failsItem) =
      if (config.outcome r state i).succeeded then 0 else 1 := by
  unfold itemContents
  cases config.outcome r state i with
  | error message => rfl
  | ok result =>
    cases hsucc : result.success <;>
      simp only [Outcome.contents, Outcome.succeeded, hsucc] <;> rfl

theorem LoopConfig.countP_isRunCompleted_itemContents (i : Uuid) :
    (config.itemContents r state i).countP (fun x => x.2.isRunCompleted) = 0 := by
  unfold itemContents Outcome.contents
  split
  · rfl
  · split <;> rfl

theorem LoopConfig.length_recorded : (config.recorded r state items).length ≤
    3 * items.length + if config.finished r state items then 1 else 0 := by
  have hgroups : (items.flatMap (config.itemContents r state)).length ≤ 3 * items.length := by
    induction items with
    | nil => exact Nat.le_refl _
    | cons i items ih =>
      have hgroup : (config.itemContents r state i).length ≤ 3 := config.length_itemContents i
      rw [List.flatMap_cons, List.length_append, List.length_cons]
      omega
  rw [recorded, List.length_append]
  split
  · exact Nat.add_le_add_right hgroups 1
  · exact hgroups

theorem LoopConfig.countP_isRunCompleted_recorded :
    (config.recorded r state items).countP (fun x => x.2.isRunCompleted) =
      if config.finished r state items then 1 else 0 := by
  have hgroups : (items.flatMap (config.itemContents r state)).countP
      (fun x => x.2.isRunCompleted) = 0 := by
    induction items with
    | nil => rfl
    | cons i items ih =>
      rw [List.flatMap_cons, List.countP_append, ih, countP_isRunCompleted_itemContents]
  rw [recorded, List.countP_append, hgroups, Nat.zero_add]
  split <;> rfl

theorem LoopConfig.countP_failsItem_recorded :
    (config.recorded r state items).countP (fun x => x.2.failsItem) =
      items.countP fun i => !(config.outcome r state i).succeeded := by
  have hgroups : (items.flatMap (config.itemContents r state)).countP (fun x => x.2.failsItem) =
      items.countP fun i => !(config.outcome r state i).succeeded := by
    induction items with
    | nil => rfl
    | cons i items ih =>
      rw [List.flatMap_cons, List.countP_append, ih, countP_failsItem_itemContents, List.countP_cons]
      cases (config.outcome r state i).succeeded <;> simp [Nat.add_comm]
  rw [recorded, List.countP_append, hgroups]
  split <;> rfl

end records

/-! ### A run that waits for the workers -/

/-- The workers advance the run, and its items are assigned or completed. -/
structure Waits (state : RunState) : Prop where
  processed : LoopConfig.skips state = false
  items : ∀ i status, state.itemStatus i = some status → status = .assigned ∨ status = .completed

/-- What has been recorded of a run that was `before` leaves it waiting. -/
structure Underway (before : RunState) (ps : List EventPayload) (after : RunState) : Prop where
  waits : Waits after
  known : ∀ i, after.itemStatus i = none ↔ before.itemStatus i = none
  assigned : after.assignedItems ⊆ before.assignedItems
  completions : ps.countP (·.isRunCompleted) = 0
  failures : ps.countP (·.failsItem) = 0
  length : ps.length + 3 * after.assignedItems.card ≤ 3 * before.assignedItems.card

/-- What has been recorded of a run that was `before` finishes it: all its items are completed and the
run is, once, or an item that was assigned has failed and the run is blocked. -/
structure Finished (before : RunState) (ps : List EventPayload) (after : RunState) : Prop where
  length : ps.length ≤ 3 * before.assignedItems.card + 1
  outcome : after.status = "completed" ∧
      (∀ i, after.itemStatus i = (before.itemStatus i).map fun _ => .completed) ∧
      ps.countP (·.isRunCompleted) = 1 ∧ ps.countP (·.failsItem) = 0 ∨
    after.status = "blocked" ∧ (∃ i ∈ before.assignedItems, after.itemStatus i = some .failed) ∧
      ps.countP (·.isRunCompleted) = 0 ∧ 0 < ps.countP (·.failsItem)

theorem Underway.refl {before : RunState} (h : Waits before) : Underway before [] before where
  waits := h
  known := fun _ => Iff.rfl
  assigned := Finset.Subset.refl _
  completions := rfl
  failures := rfl
  length := Nat.le_of_eq (Nat.zero_add _)

theorem Finished.skips {before after : RunState} {ps : List EventPayload}
    (h : Finished before ps after) : LoopConfig.skips after = true := by
  rw [← Bool.not_eq_false, LoopConfig.skips_eq_false]
  intro hnot
  rcases h.outcome with ⟨hstatus, -⟩ | ⟨hstatus, -⟩ <;>
    exact absurd (hstatus.symm.trans hnot.2.1) (by decide)

section advance

variable {before state next : RunState} {ps qs : List EventPayload} {config : LoopConfig}
  {stamp : Nat → Stamp} {order : List Uuid} {r : Uuid} {items : List Uuid}

/-- What the executions of `items` record. -/
structure RecordsOf (config : LoopConfig) (r : Uuid) (state : RunState) (items : List Uuid)
    (qs : List EventPayload) : Prop where
  length : qs.length ≤ 3 * items.length + if config.finished r state items then 1 else 0
  completions : qs.countP (·.isRunCompleted) = if config.finished r state items then 1 else 0
  failures : qs.countP (·.failsItem) = items.countP fun i => !(config.outcome r state i).succeeded

theorem records_of_contents {batch : List EventEnvelope}
    (hbatch : batch.map (·.content) = config.recorded r state items) (hqs : qs = payloads batch) :
    RecordsOf config r state items qs where
  length := by
    have hlength : (config.recorded r state items).length ≤
        3 * items.length + if config.finished r state items then 1 else 0 := config.length_recorded
    rwa [← hbatch, List.length_map, ← List.length_map (f := (·.payload)), ← payloads, ← hqs] at hlength
  completions := by
    rw [hqs, countP_contents fun p => by cases p <;> rfl, hbatch,
      config.countP_isRunCompleted_recorded]
  failures := by
    rw [hqs, countP_contents fun p => by cases p <;> rfl, hbatch, config.countP_failsItem_recorded]

theorem Underway.blocked (h : Underway before ps state) (hrec : RecordsOf config r state items qs)
    (hafter : config.AfterItems r state items next) (hnodup : items.Nodup)
    (hitems : ∀ i ∈ items, i ∈ state.assignedItems) {i : Uuid} (hi : i ∈ items)
    (hfailed : (config.outcome r state i).succeeded = false) : Finished before (ps ++ qs) next := by
  have hknown : ∀ j ∈ items, state.itemStatus j ≠ none := fun j hj => by
    rw [RunState.mem_assignedItems.mp (hitems j hj)]
    exact Option.some_ne_none _
  have hopen : config.finished r state items = false := by
    rw [← Bool.not_eq_true, LoopConfig.finished_iff]
    intro hall
    have hsucceeded := hall i (hknown i hi)
    rw [if_pos hi, hfailed] at hsucceeded
    cases hsucceeded
  have hnot : (items.all fun i => (config.outcome r state i).succeeded) = false :=
    List.all_eq_false.mpr ⟨i, hi, by simp [hfailed]⟩
  have hcard := hafter.card_assignedItems hnodup hitems
  have hlength := hrec.length
  have hspent := h.length
  rw [hopen, if_neg Bool.false_ne_true] at hlength
  refine ⟨?_, Or.inr ⟨?_, ⟨i, h.assigned (hitems i hi), ?_⟩, ?_, ?_⟩⟩
  · rw [List.length_append]
    omega
  · rw [hafter.status, hopen, hnot, if_neg Bool.false_ne_true, if_neg Bool.false_ne_true]
  · rw [hafter.itemStatus, if_pos hi, Outcome.status, if_neg (by simp [hfailed])]
  · rw [List.countP_append, h.completions, hrec.completions, hopen]
    rfl
  · rw [List.countP_append, hrec.failures]
    have hpos : 0 < items.countP fun i => !(config.outcome r state i).succeeded :=
      List.countP_pos_iff.mpr ⟨i, hi, by simp [hfailed]⟩
    omega

theorem Underway.items_next (h : Underway before ps state) (hafter : config.AfterItems r state items next)
    (hall : ∀ i ∈ items, (config.outcome r state i).succeeded) (i : Uuid) (status : ItemStatus)
    (hi : next.itemStatus i = some status) : status = .assigned ∨ status = .completed := by
  rw [hafter.itemStatus] at hi
  split at hi
  · next hmem =>
    rw [Outcome.status, if_pos (hall i hmem)] at hi
    exact Or.inr (Option.some.inj hi).symm
  · exact h.waits.items i status hi

theorem Underway.known_next (h : Underway before ps state) (hafter : config.AfterItems r state items next)
    (hitems : ∀ i ∈ items, i ∈ state.assignedItems) (i : Uuid) :
    next.itemStatus i = none ↔ before.itemStatus i = none := by
  rw [← h.known, hafter.itemStatus]
  split
  · next hmem => simp [RunState.mem_assignedItems.mp (hitems i hmem)]
  · exact Iff.rfl

theorem Underway.failures_next (h : Underway before ps state) (hrec : RecordsOf config r state items qs)
    (hall : ∀ i ∈ items, (config.outcome r state i).succeeded) : (ps ++ qs).countP (·.failsItem) = 0 := by
  rw [List.countP_append, h.failures, hrec.failures, Nat.zero_add, List.countP_eq_zero]
  exact fun i hi => by simp [hall i hi]

theorem Underway.completed_next (h : Underway before ps state) (hafter : config.AfterItems r state items next)
    (hitems : ∀ i ∈ items, i ∈ state.assignedItems)
    (hall : ∀ i ∈ items, (config.outcome r state i).succeeded) (hempty : next.assignedItems = ∅) (i : Uuid) :
    next.itemStatus i = (before.itemStatus i).map fun _ => .completed := by
  have hknown := h.known_next hafter hitems i
  cases hi : next.itemStatus i with
  | none => rw [hknown.mp hi, Option.map_none]
  | some status =>
    rcases h.items_next hafter hall i status hi with rfl | rfl
    · have hmem := RunState.mem_assignedItems.mpr hi
      rw [hempty] at hmem
      cases hmem
    · obtain ⟨status, hstatus⟩ := Option.ne_none_iff_exists'.mp fun hnone =>
        absurd (hi.symm.trans (hknown.mpr hnone)) (Option.some_ne_none _)
      rw [hstatus, Option.map_some]

theorem Underway.finishes (h : Underway before ps state) (hrec : RecordsOf config r state items qs)
    (hafter : config.AfterItems r state items next) (hnodup : items.Nodup)
    (hitems : ∀ i ∈ items, i ∈ state.assignedItems)
    (hall : ∀ i ∈ items, (config.outcome r state i).succeeded) (hempty : next.assignedItems = ∅) :
    Finished before (ps ++ qs) next := by
  have hdone := h.completed_next hafter hitems hall hempty
  have hfinished : config.finished r state items = true := by
    rw [LoopConfig.finished_iff]
    intro i hi
    have hnext := hafter.itemStatus i
    split
    · next hmem => exact hall i hmem
    · next hmem =>
      rw [if_neg hmem, hdone] at hnext
      obtain ⟨status, hbefore⟩ := Option.ne_none_iff_exists'.mp fun hnone => hi ((h.known i).mpr hnone)
      rw [← hnext, hbefore, Option.map_some]
  have hcard := hafter.card_assignedItems hnodup hitems
  have hlength := hrec.length
  have hspent := h.length
  rw [hfinished, if_pos rfl] at hlength
  refine ⟨?_, Or.inl ⟨?_, hdone, ?_, h.failures_next hrec hall⟩⟩
  · rw [List.length_append]
    omega
  · rw [hafter.status, hfinished, if_pos rfl]
  · rw [List.countP_append, h.completions, hrec.completions, hfinished]
    rfl

theorem Underway.stays (h : Underway before ps state) (hrec : RecordsOf config r state items qs)
    (hafter : config.AfterItems r state items next) (hnodup : items.Nodup)
    (hitems : ∀ i ∈ items, i ∈ state.assignedItems)
    (hall : ∀ i ∈ items, (config.outcome r state i).succeeded) (hsome : next.assignedItems ≠ ∅) :
    Underway before (ps ++ qs) next := by
  obtain ⟨i, hi⟩ := Finset.nonempty_iff_ne_empty.mpr hsome
  have hassigned := hafter.assignedItems_eq ▸ hi
  rw [Finset.mem_sdiff, List.mem_toFinset] at hassigned
  have hopen : config.finished r state items = false := by
    rw [← Bool.not_eq_true, LoopConfig.finished_iff]
    intro hfin
    have hstatus := RunState.mem_assignedItems.mp hassigned.1
    have hi' := hfin i (by rw [hstatus]; exact Option.some_ne_none _)
    rw [if_neg hassigned.2, hstatus] at hi'
    cases hi'
  have hcard := hafter.card_assignedItems hnodup hitems
  have hlength := hrec.length
  have hspent := h.length
  rw [hopen, if_neg Bool.false_ne_true] at hlength
  constructor
  · exact ⟨hafter.skips_eq h.waits.processed hopen hall, h.items_next hafter hall⟩
  · exact h.known_next hafter hitems
  · rw [hafter.assignedItems_eq]
    exact Finset.sdiff_subset.trans h.assigned
  · rw [List.countP_append, h.completions, hrec.completions, hopen]
    rfl
  · exact h.failures_next hrec hall
  · rw [List.length_append]
    omega

theorem Underway.succeeded (h : Underway before ps state) (hrec : RecordsOf config r state items qs)
    (hafter : config.AfterItems r state items next) (hnodup : items.Nodup)
    (hitems : ∀ i ∈ items, i ∈ state.assignedItems)
    (hall : ∀ i ∈ items, (config.outcome r state i).succeeded) :
    if next.assignedItems = ∅ then Finished before (ps ++ qs) next
    else Underway before (ps ++ qs) next := by
  split
  · next hempty => exact h.finishes hrec hafter hnodup hitems hall hempty
  · next hsome => exact h.stays hrec hafter hnodup hitems hall hsome

theorem LoopConfig.selected_spec (horder : state.items.IsOrder order)
    (haffinity : config.itemAffinity = false) (n : Nat) :
    (config.selected order n state).Nodup ∧
      (∀ i ∈ config.selected order n state, i ∈ state.assignedItems) ∧
      (config.selected order n state).length = min n state.assignedItems.card := by
  have hselected : config.selected order n state = (config.eligibleItems order state).take n := rfl
  rw [hselected, List.length_take, length_eligibleItems horder haffinity]
  refine ⟨(horder.1.filter _).sublist (List.take_sublist _ _), fun i hi => ?_, rfl⟩
  exact (mem_eligibleItems horder haffinity).mp (List.take_subset _ _ hi)

/-- One iteration of a worker finishes a run that waits, or leaves fewer items of it assigned. -/
theorem Underway.advance (h : Underway before ps state) (horder : state.items.IsOrder order)
    (haffinity : config.itemAffinity = false) {rows : List EventEnvelope}
    (hrows : payloads rows = payloads (config.advanceRun stamp order r state).2) :
    Finished before (ps ++ payloads rows) (rows.foldl RunState.apply state) ∨
      Underway before (ps ++ payloads rows) (rows.foldl RunState.apply state) ∧
      0 < (rows.foldl RunState.apply state).assignedItems.card ∧
      (rows.foldl RunState.apply state).assignedItems.card + config.maxItemsPerLoop =
        state.assignedItems.card := by
  have hafter := LoopConfig.afterItems_replay config stamp horder.1 r h.waits.processed hrows
  have hrec := records_of_contents
    (LoopConfig.recorded_advanceRun config stamp horder.1 r h.waits.processed).1 hrows
  obtain ⟨hnodup, hitems, hlength⟩ :=
    LoopConfig.selected_spec horder haffinity config.maxItemsPerLoop
  by_cases hall : ∀ i ∈ config.selected order config.maxItemsPerLoop state,
      (config.outcome r state i).succeeded
  · have hnext := h.succeeded hrec hafter hnodup hitems hall
    split at hnext
    · exact Or.inl hnext
    · next hsome =>
      have hpos := Finset.card_pos.mpr (Finset.nonempty_iff_ne_empty.mpr hsome)
      have hcard := hafter.card_assignedItems hnodup hitems
      refine Or.inr ⟨hnext, hpos, ?_⟩
      omega
  · obtain ⟨i, hnot⟩ := not_forall.mp hall
    obtain ⟨hi, hfailed⟩ := Classical.not_imp.mp hnot
    exact Or.inl (h.blocked hrec hafter hnodup hitems hi (by simpa using hfailed))

end advance

/-! ### The ticks of a history -/

/-- The number of items of a run that an operation may execute. -/
def Operation.gain : Operation → Nat
  | .tick input _ => input.config.maxItemsPerLoop
  | _ => 0

/-- The operation leaves run `r` to workers without affinity: those control other runs, and the events
that a tick makes are new. -/
def Operation.LeavesTo (r : Uuid) (log : EventLog) : Operation → Prop
  | .startRun .. => True
  | .pauseRun _ r' | .resumeRun _ r' | .cancelRun _ r' => r' ≠ r
  | .retryRun _ _ r' => r' ≠ r
  | .tick input events => input.config.itemAffinity = false ∧ input.NewIds events log

section history

variable {base log log' : EventLog} {r : Uuid} {operation : Operation} {before state : RunState}

/-- What an operation that leaves the run to the workers does to the run's stream. -/
inductive Advance (log log' : EventLog) (r : Uuid) (state : RunState) : Operation → Prop
  | quiet {operation : Operation} : stream log' r = stream log r → operation.gain = 0 →
      Advance log log' r state operation
  | tick {input : TickInput} {events : List EventEnvelope} (rows : List EventEnvelope) :
      stream log' r = stream log r ++ rows →
      payloads rows =
        payloads (input.config.advanceRun (input.stamp r) (input.itemOrder r) r state).2 →
      state.items.IsOrder (input.itemOrder r) → input.config.itemAffinity = false →
      Advance log log' r state (.tick input events)

theorem stream_of_statusChanged {r' : Uuid} {status : String} {changed : Bool} (hne : r' ≠ r)
    (h : changed = false ∧ log' = log ∨ changed = true ∧ StatusChanged log log' r' status) :
    stream log' r = stream log r := by
  rcases h with ⟨-, rfl⟩ | ⟨-, h⟩
  · rfl
  · obtain ⟨rows, reason, happ, -⟩ := h.appended
    rw [happ.stream_eq, if_neg (Ne.symm hne), List.append_nil]

theorem historyStep_advance (hwf : WellFormed log) (hrun : RunLog log) (horder : InOrder log r)
    (hstate : replayRun (stream log r) = some state) (h : historyStep log operation log')
    (hleaves : operation.LeavesTo r log) : Advance log log' r state operation := by
  have hne : stream log r ≠ [] := replayRun_isSome.mp (by rw [hstate]; rfl)
  cases operation with
  | startRun draws workspaceId objective targetItemCount agentCount =>
    obtain ⟨-, hstarted⟩ := startRun_spec hwf h.1 h.2
    obtain ⟨rows, _, _, _, happ, -⟩ := hstarted.appended
    refine .quiet ?_ rfl
    rw [happ.stream_eq, if_neg (fun heq : r = draws.resource => hne (heq ▸ hstarted.new.1)), List.append_nil]
  | pauseRun draws r' | resumeRun draws r' | cancelRun draws r' =>
    obtain ⟨changed, hok⟩ := h
    exact .quiet (stream_of_statusChanged hleaves (changeStatus_spec hwf (by decide) hok)) rfl
  | retryRun draws order r' =>
    obtain ⟨-, changed, hok⟩ := h
    refine .quiet ?_ rfl
    rcases retryRun_appended hwf hok with ⟨-, rfl⟩ | ⟨-, -, rows, happ, -⟩
    · rfl
    · rw [happ.stream_eq, if_neg (Ne.symm hleaves), List.append_nil]
  | tick input events =>
    obtain ⟨hload, horders, rfl⟩ := h
    obtain ⟨haffinity, hids⟩ := hleaves
    obtain ⟨hread, hfinite⟩ := loadAll_eq_ok.mp hload
    have hlookup : (runStatesFromEvents events).lookup r = some state := by
      rw [lookup_runStatesFromEvents, hrun.runEvents_loadAll hwf horder hread, hstate]
    have hmem : r ∈ input.runOrder :=
      (horders.1.2 r).mpr (AList.lookup_isSome.mp (by rw [hlookup]; rfl))
    refine .tick _ (TickInput.stream_visitRuns horders.1.1 hmem hwf.gapFree
      (fun e he => hfinite e (mem_stream.mp he).1) hids.fresh hids.distinct) ?_
      (horders.2 r state hlookup) haffinity
    rw [payloads_appendedRows, TickInput.batch_eq hlookup]

/-- What has happened to run `r`, which was `before`, since the log was `base`. -/
structure Worked (base : EventLog) (r : Uuid) (before : RunState) (log : EventLog) : Prop where
  reach : Reach history Operation.OnClock log
  replay : ∃ rows after, stream log r = stream base r ++ rows ∧
    replayRun (stream log r) = some after ∧
      (Underway before (payloads rows) after ∨ Finished before (payloads rows) after)

/-- The workers do not advance the run any more. -/
def Rests (r : Uuid) (log : EventLog) : Prop :=
  ∃ state, replayRun (stream log r) = some state ∧ LoopConfig.skips state = true

/-- How many items of the run are assigned, or 1 for the completion. -/
def pending (r : Uuid) (log : EventLog) : Nat :=
  (replayRun (stream log r)).elim 0 fun state => max 1 state.assignedItems.card

theorem pending_eq (h : replayRun (stream log r) = some state) :
    pending r log = max 1 state.assignedItems.card := by
  rw [pending, h, Option.elim_some]

theorem Worked.step (h : Worked base r before log) (hstep : historyStep log operation log')
    (hclock : operation.OnClock log) (hleaves : operation.LeavesTo r log) :
    Worked base r before log' ∧ (Rests r log → Rests r log') ∧
      (¬ Rests r log → Rests r log' ∨ pending r log' + operation.gain ≤ pending r log) := by
  obtain ⟨hreach, rows, state, hstream, hstate, hcases⟩ := h
  have hreach' : Reach history Operation.OnClock log' := .step operation hreach hstep hclock
  have hadvance := historyStep_advance (history_wellFormed hreach.reachable)
    (history_runLog hreach.reachable) ((timeOrdered_of_onClock hreach).inOrder r) hstate hstep hleaves
  cases hadvance with
  | quiet hsame hgain =>
    rw [hgain, Rests, Rests, pending, pending, hsame]
    exact ⟨⟨hreach', rows, state, hsame.trans hstream, hsame ▸ hstate, hcases⟩, id,
      fun _ => Or.inr le_rfl⟩
  | @tick input events more hmore hpayloads horder haffinity =>
    have hstate' : replayRun (stream log' r) = some (more.foldl RunState.apply state) := by
      rw [hmore, replayRun_append hstate]
    have hstream' : stream log' r = stream base r ++ (rows ++ more) := by
      rw [hmore, hstream, List.append_assoc]
    rcases hcases with hunder | hfinished
    · have hopen := hunder.waits.processed
      have hrests : ¬ Rests r log := by
        rintro ⟨state', hstate'', hskips⟩
        rw [hstate] at hstate''
        rw [← Option.some.inj hstate'', hopen] at hskips
        cases hskips
      rcases hunder.advance horder haffinity hpayloads with hnext | ⟨hnext, hpos, hcard⟩
      · refine ⟨⟨hreach', _, _, hstream', hstate', Or.inr ?_⟩, fun h => absurd h hrests,
          fun _ => Or.inl ⟨_, hstate', hnext.skips⟩⟩
        rwa [payloads_append]
      · refine ⟨⟨hreach', _, _, hstream', hstate', Or.inl ?_⟩, fun h => absurd h hrests,
          fun _ => Or.inr ?_⟩
        · rwa [payloads_append]
        · rw [pending_eq hstate, pending_eq hstate', Operation.gain]
          omega
    · -- a tick adds nothing to a run that is finished
      rw [LoopConfig.advanceRun_of_skips hfinished.skips] at hpayloads
      obtain rfl : more = [] := List.map_eq_nil_iff.mp hpayloads
      rw [List.append_nil] at hmore
      have hrests : Rests r log' := ⟨state, hstate', hfinished.skips⟩
      exact ⟨⟨hreach', rows, state, hmore.trans hstream, hstate', Or.inr hfinished⟩,
        fun _ => hrests, fun _ => Or.inl hrests⟩

theorem Waits.finishes {n : Nat} (hwaits : Waits before) (h : Reach history Operation.OnClock base)
    (hbefore : replayRun (stream base r) = some before)
    (hrun : Drains history (fun log operation => operation.OnClock log ∧ operation.LeavesTo r log)
      (fun _ => Operation.gain) base n log)
    (hn : max 1 before.assignedItems.card ≤ n) :
    ∃ rows after, stream log r = stream base r ++ rows ∧ replayRun (stream log r) = some after ∧
      Finished before (payloads rows) after ∧ Reach history Operation.OnClock log := by
  have hworked : Worked base r before base :=
    ⟨h, [], before, (List.append_nil _).symm, hbefore, Or.inl (.refl hwaits)⟩
  have hkeeps := fun log operation log' (hlog : Worked base r before log)
      (hstep : history.step log operation log')
      (hguard : operation.OnClock log ∧ operation.LeavesTo r log) =>
    hlog.step hstep hguard.1 hguard.2
  have hall : Worked base r before log :=
    hrun.invariant hworked fun _ _ _ hlog hstep hguard => (hkeeps _ _ _ hlog hstep hguard).1
  have hrests : Rests r log := by
    refine hrun.done (Worked base r before) (Rests r) (pending r) hworked
      (fun _ _ _ hlog hstep hguard => (hkeeps _ _ _ hlog hstep hguard).1)
      (fun _ _ _ hlog hdone hstep hguard => (hkeeps _ _ _ hlog hstep hguard).2.1 hdone)
      (fun _ _ _ hlog hopen hstep hguard => (hkeeps _ _ _ hlog hstep hguard).2.2 hopen)
      (fun log hlog _ => ?_) (by rwa [pending_eq hbefore])
    obtain ⟨rows, state, -, hstate, -⟩ := hlog.replay
    rw [pending_eq hstate]
    omega
  obtain ⟨rows, after, hstream, hafter, hcases⟩ := hall.replay
  refine ⟨rows, after, hstream, hafter, hcases.resolve_left fun hunder => ?_, hall.reach⟩
  obtain ⟨state, hstate, hskips⟩ := hrests
  rw [hafter] at hstate
  rw [← Option.some.inj hstate, hunder.waits.processed] at hskips
  cases hskips

/-- In a history on a clock that does not run backwards: from a log in which the workers advance a run
whose items are assigned or completed, operations that leave it to workers without affinity finish it
as soon as the bounds of the ticks add up to the number of its assigned items, or to one if none is. -/
theorem ticks_finish {n : Nat} (h : Reach history Operation.OnClock base)
    (hbefore : (runStatesFromEvents (stream base r)).lookup r = some before) (hwaits : Waits before)
    (hrun : Drains history (fun log operation => operation.OnClock log ∧ operation.LeavesTo r log)
      (fun _ => Operation.gain) base n log)
    (hn : max 1 before.assignedItems.card ≤ n) :
    ∃ rows after, stream log r = stream base r ++ rows ∧
      (runStatesFromEvents (stream log r)).lookup r = some after ∧
        Finished before (payloads rows) after := by
  rw [(history_runLog h.reachable).lookup_stream] at hbefore
  obtain ⟨rows, after, hstream, hafter, hfinished, hreach⟩ := hwaits.finishes h hbefore hrun hn
  refine ⟨rows, after, hstream, ?_, hfinished⟩
  rw [(history_runLog hreach.reachable).lookup_stream, hafter]

/-! ### Two ticks over a run with three items -/

theorem tickedLog_drains {n : Nat} (time : Nat)
    (h : Drains history (fun log operation => operation.OnClock log ∧ operation.LeavesTo r log)
      (fun _ => Operation.gain) base n log)
    (executor : AgentExecutor) (hruns : (runStatesFromEvents log).keys = [sampleRun])
    (hsorted : log.Pairwise timeLe) (hfinite : ∀ e ∈ log, e.payload.costIsFinite = true)
    (htime : ∀ e ∈ log, e.occurredAt ≤ (countingStamp time 0).now)
    (hids : (TickInput.ofKeys (sampleWorker executor) (fun _ => countingStamp time) log).NewIds log
      log) :
    Drains history (fun log operation => operation.OnClock log ∧ operation.LeavesTo r log)
      (fun _ => Operation.gain) base (n + 2) (tickedLog executor time log) := by
  have hvisits : (runStatesFromEvents log).keys.Pairwise fun _ _ =>
      ∀ k, (countingStamp time k).now ≤ (countingStamp time 0).now := by
    rw [hruns]
    exact List.pairwise_singleton ..
  let operation : Operation :=
    .tick (.ofKeys (sampleWorker executor) (fun _ => countingStamp time) log) log
  have hstep : history.step log operation (tickedLog executor time log) :=
    ⟨loadAll_eq_ok.mpr ⟨⟨.refl _, hsorted⟩, hfinite⟩, TickInput.ofKeys_orders _ _ _, rfl⟩
  have hclock : operation.OnClock log :=
    ⟨fun _ _ => countingStamp_monotone time, hvisits, fun _ _ => htime⟩
  exact .step operation h hstep ⟨hclock, rfl, hids⟩

def twiceTickedLog : EventLog :=
  tickedLog (sampleExecutor []) 300 (tickedLog (sampleExecutor []) 200 (startedLog 3))

theorem ticks_finish_twice : ∃ before rows after,
    before.assignedItems.card = 3 ∧
    stream twiceTickedLog sampleRun = stream (startedLog 3) sampleRun ++ rows ∧
    (runStatesFromEvents (stream twiceTickedLog sampleRun)).lookup sampleRun = some after ∧
      Finished before (payloads rows) after := by
  obtain ⟨before, hbefore⟩ : ∃ before,
      (runStatesFromEvents (stream (startedLog 3) sampleRun)).lookup sampleRun = some before :=
    Option.isSome_iff_exists.mp (by decide)
  have hvalues : ∀ state ∈ (runStatesFromEvents (stream (startedLog 3) sampleRun)).lookup sampleRun,
      LoopConfig.skips state = false ∧ state.assignedItems.card = 3 ∧
        ∀ item ∈ state.items.values, item.status = .assigned := by decide
  obtain ⟨hskips, hcard, hitems⟩ := hvalues before hbefore
  have hwaits : Waits before := by
    refine ⟨hskips, fun i status hi => Or.inl ?_⟩
    obtain ⟨item, hitem, rfl⟩ := Option.map_eq_some_iff.mp hi
    exact hitems item (HashMap.mem_values.mpr ⟨i, hitem⟩)
  have hstarted : Reach history Operation.OnClock (startedLog 3) :=
    .step (.startRun (.counting sampleRun 100) sampleWorkspace "" (some 3) (some 1)) (.init rfl)
      ⟨⟨rfl, by simp⟩, rfl⟩ ⟨countingStamp_monotone 100, by simp⟩
  have hfirst := tickedLog_drains 200 (.refl (s := startedLog 3)) (r := sampleRun)
    (sampleExecutor []) (by decide) (by decide) (by decide) (by decide) ⟨by decide, by decide⟩
  have hsecond := tickedLog_drains 300 hfirst (sampleExecutor []) (by decide) (by decide)
    (by decide) (by decide) ⟨by decide, by decide⟩
  obtain ⟨rows, after, h⟩ := ticks_finish hstarted hbefore hwaits hsecond (by rw [hcard]; decide)
  exact ⟨before, rows, after, hcard, h⟩

end history

end SamtaDashboard

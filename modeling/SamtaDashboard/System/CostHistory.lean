import SamtaDashboard.System.Ledger
import SamtaDashboard.System.TickReplay
import Mathlib.Data.List.Infix

/-!
# The cost history of a run

`build_cost_effort_history` reads the stored rows of a stream again and adds up what it finds in their
JSON; the rebuild folds the events that `load_all` decodes. Over a stream of numbers the history is the
list of the running sums at the events with a charge that is not zero (`buildCostEffortHistory_eq`).
Where `load_all` gives the events of the run in the order of their revisions the rebuild adds up the same
charges, as the only event that resets its totals is the first one of the stream.
-/

namespace SamtaDashboard

open EventFold Transition

/-! ### Running sums -/

/-- An effort or a cost other than zero is charged. -/
def EventPayload.Charges (p : EventPayload) : Prop :=
  ∃ charge ∈ p.charge?, ¬ (charge.1.val = 0 ∧ charge.2 = .zero)

instance (p : EventPayload) : Decidable p.Charges :=
  inferInstanceAs (Decidable (∃ charge ∈ p.charge?, _))

/-- The totals over some events as a point at the last one, if that is charged. -/
def pointAt (events : List EventEnvelope) : Option CostEffortHistoryPoint :=
  events.getLast?.bind fun e =>
    if e.payload.Charges then
      some ⟨e.revision, e.occurredAt, chargedCost (payloads events), chargedEffort (payloads events)⟩
    else none

/-- The totals over the first events of a list, at every event that is charged. -/
def runningSums (events : List EventEnvelope) : List CostEffortHistoryPoint :=
  events.inits.filterMap pointAt

theorem runningSums_concat (events : List EventEnvelope) (e : EventEnvelope) :
    runningSums (events ++ [e]) = runningSums events ++ (pointAt (events ++ [e])).toList := by
  rw [runningSums, List.inits_append, List.filterMap_append, ← runningSums]
  cases h : pointAt (events ++ [e]) <;> simp [h]

theorem pointAt_concat (events : List EventEnvelope) (e : EventEnvelope) :
    pointAt (events ++ [e]) = if e.payload.Charges then
      some ⟨e.revision, e.occurredAt, chargedCost (payloads (events ++ [e])),
        chargedEffort (payloads (events ++ [e]))⟩ else none := by
  rw [pointAt, List.getLast?_append]
  rfl

theorem F64.add_zero (a : F64) : a.add .zero = a := by
  cases a <;> simp [F64.add, F64.zero]

theorem readCharge_of_charge? {p : EventPayload} (hfinite : p.costIsFinite) {charge : I32 × F64}
    (h : p.charge? = some charge) : readCharge p = charge := by
  have hcost : charge.2.isFinite := by
    cases p <;> cases h <;> exact hfinite
  obtain ⟨effort, cost⟩ := charge
  cases cost <;> simp_all [readCharge, F64.isFinite, Json.ofF64, Json.asF64]

theorem chargedCost_concat {p : EventPayload} (h : p.costIsFinite) (ps : List EventPayload) :
    chargedCost (ps ++ [p]) = (chargedCost ps).add (readCharge p).2 := by
  rw [chargedCost, List.filterMap_append, List.foldl_append, ← chargedCost]
  cases hcharge : p.charge? with
  | none => simp [hcharge, readCharge, F64.add_zero]
  | some charge => simp [hcharge, readCharge_of_charge? h hcharge]

theorem chargedEffort_concat {p : EventPayload} (h : p.costIsFinite) (ps : List EventPayload) :
    chargedEffort (ps ++ [p]) = chargedEffort ps + (readCharge p).1.val := by
  rw [chargedEffort, List.filterMap_append, List.foldl_append, ← chargedEffort]
  cases hcharge : p.charge? with
  | none =>
    simp [hcharge, readCharge]
    rfl
  | some charge => simp [hcharge, readCharge_of_charge? h hcharge]

theorem charges_iff {p : EventPayload} (h : p.costIsFinite) :
    p.Charges ↔ ¬ ((readCharge p).1.val = 0 ∧ (readCharge p).2 = .zero) := by
  unfold EventPayload.Charges
  cases hcharge : p.charge? with
  | none =>
    simp [hcharge, readCharge]
    rfl
  | some charge => simp [readCharge_of_charge? h hcharge]

theorem foldlM_addHistoryPoint (fuel : Nat) {events : List EventEnvelope}
    (hfinite : ∀ e ∈ events, e.payload.costIsFinite) :
    (events.map EventRow.ofEnvelope).foldlM (addHistoryPoint (fuel + 1)) ⟨.zero, 0, []⟩ =
      some ⟨chargedCost (payloads events), chargedEffort (payloads events), runningSums events⟩ := by
  induction events using List.reverseRecOn with
  | nil => rfl
  | append_singleton events e ih =>
    rw [List.forall_mem_append, List.forall_mem_singleton] at hfinite
    obtain ⟨hfront, he⟩ := hfinite
    have hcost := chargedCost_concat he (payloads events)
    have heffort := chargedEffort_concat he (payloads events)
    have hpayloads : payloads (events ++ [e]) = payloads events ++ [e.payload] := by simp [payloads]
    rw [List.map_append, List.foldlM_append, ih hfront, runningSums_concat, pointAt_concat,
      hpayloads, hcost, heffort]
    simp only [List.map_cons, List.map_nil, List.foldlM_cons, List.foldlM_nil, bind_pure,
      Option.bind_eq_bind, Option.bind_some, addHistoryPoint_readCharge]
    by_cases hcharges : e.payload.Charges
    · rw [if_neg ((charges_iff he).mp hcharges), if_pos hcharges]
      rfl
    · obtain ⟨hzero, hzeroCost⟩ := not_not.mp ((charges_iff he).not.mp hcharges)
      rw [if_pos ⟨hzero, hzeroCost⟩, if_neg hcharges, hzero, hzeroCost, F64.add_zero, Int.add_zero]
      simp

theorem buildCostEffortHistory_eq (fuel : Nat) {events : List EventEnvelope}
    (hfinite : ∀ e ∈ events, e.payload.costIsFinite) :
    buildCostEffortHistory (fuel + 1) (events.map EventRow.ofEnvelope) =
      some (runningSums events) := by
  rw [buildCostEffortHistory, foldlM_addHistoryPoint fuel hfinite]
  rfl

theorem map_revision_runningSums (events : List EventEnvelope) :
    ((runningSums events).map (·.revision)).Sublist (events.map (·.revision)) := by
  induction events using List.reverseRecOn with
  | nil => exact List.Sublist.refl []
  | append_singleton events e ih =>
    rw [runningSums_concat, pointAt_concat, List.map_append, List.map_append]
    refine ih.append ?_
    split
    · exact List.Sublist.refl _
    · exact List.nil_sublist _

theorem lastTotals_runningSums {events : List EventEnvelope}
    (hfinite : ∀ e ∈ events, e.payload.costIsFinite) :
    lastTotals (runningSums events) =
      (chargedCost (payloads events), chargedEffort (payloads events)) := by
  induction events using List.reverseRecOn with
  | nil => rfl
  | append_singleton events e ih =>
    rw [List.forall_mem_append, List.forall_mem_singleton] at hfinite
    obtain ⟨hfront, he⟩ := hfinite
    rw [runningSums_concat, pointAt_concat]
    by_cases hcharges : e.payload.Charges
    · rw [if_pos hcharges, lastTotals, Option.toList_some, List.getLast?_append]
      rfl
    · obtain ⟨hzero, hzeroCost⟩ := not_not.mp ((charges_iff he).not.mp hcharges)
      have hpayloads : payloads (events ++ [e]) = payloads events ++ [e.payload] := by
        simp [payloads]
      rw [if_neg hcharges, Option.toList_none, List.append_nil, ih hfront, hpayloads,
        chargedCost_concat he, chargedEffort_concat he, hzero, hzeroCost, F64.add_zero,
        Int.add_zero]

/-! ### The rebuild -/

section stream

variable {log : EventLog} {r : Uuid} {events : List EventEnvelope}

theorem InTimeOrder.runEvents_eq (h : InTimeOrder log events) (hwf : WellFormed log)
    (hgrouped : ∀ e ∈ stream log r, e.payload.isGrouped) :
    runEvents events r = events.filter (·.resourceId = r) := by
  refine List.filter_congr fun e he => ?_
  have hlog := h.perm.mem_iff.mp he
  rw [decide_eq_decide]
  refine ⟨hwf.resourceId_eq hlog, fun hres => ?_⟩
  have hmem : e ∈ stream log r := mem_stream.mpr ⟨hlog, hres⟩
  exact hwf.runIdForEvent_eq hmem (runIdForEvent_ne_none.mpr (hgrouped e hmem))

theorem WellFormed.started_cons (hwf : WellFormed log)
    (hrun : ∃ e ∈ stream log r, e.payload.isRunStarted) :
    ∃ started rest, stream log r = started :: rest ∧ (∃ w o, started.payload = .runStarted w o) ∧
      ∀ e ∈ rest, ∀ w o, e.payload ≠ .runStarted w o := by
  obtain ⟨e, he, hstarted⟩ := hrun
  have hrest := hwf.started r
  obtain ⟨started, rest, hcons⟩ := List.exists_cons_of_ne_nil (List.ne_nil_of_mem he)
  rw [hcons, List.tail_cons] at hrest
  rw [hcons] at he
  refine ⟨started, rest, hcons, ?_, fun x hx w o hp => ?_⟩
  · rcases List.mem_cons.mp he with rfl | he
    · cases hp : e.payload <;> simp_all [EventPayload.isRunStarted]
    · rw [hrest e he] at hstarted
      cases hstarted
  · have hnot := hrest x hx
    rw [hp] at hnot
    cases hnot

theorem lookup_runStates_of_order (hwf : WellFormed log) (htails : GroupedTails log)
    (hrun : ∃ e ∈ stream log r, e.payload.isRunStarted) (hread : InTimeOrder log events)
    (horder : events.filter (·.resourceId = r) = stream log r) :
    ∃ row, (RebuildState.fromEvents events).runStates.lookup r = some row ∧
      row.totalCost = chargedCost (payloads (stream log r)) ∧
      row.effortPoints = chargedEffort (payloads (stream log r)) := by
  obtain ⟨e, he, hstarted⟩ := hrun
  have hevents : runEvents events r = stream log r :=
    (hread.runEvents_eq hwf (htails.stream hwf he hstarted)).trans horder
  obtain ⟨started, rest, hcons, hhead, hrest⟩ := hwf.started_cons ⟨e, he, hstarted⟩
  rw [hcons] at hevents ⊢
  exact ⟨_, RebuildState.lookup_runStates_cons hevents,
    RebuildState.totalCost_rowAfter hhead hrest, RebuildState.effortPoints_rowAfter hhead hrest⟩

end stream

/-- The history of a reachable run's stream is the list of its running sums, at increasing revisions, and
where `load_all` gives the run's events in the order of the revisions it ends with the totals that the
rebuild computes. -/
theorem costHistory_ends_at_totals {d : Deployment} {s : World} {r : Uuid}
    {events : List EventEnvelope} (h : Reachable (interleaving d) s)
    (hrun : ∃ e ∈ stream s.log r, e.payload.isRunStarted) (hload : LoadAll s.log (.ok events))
    (horder : load s.log r = .ok (events.filter (·.resourceId = r))) (fuel : Nat) :
    ∃ points row,
      buildCostEffortHistory (fuel + 1) ((stream s.log r).map EventRow.ofEnvelope) = some points ∧
        (RebuildState.fromEvents events).runStates.lookup r = some row ∧
        points.Pairwise (·.revision < ·.revision) ∧ points = runningSums (stream s.log r) ∧
        lastTotals points = (row.totalCost, row.effortPoints) := by
  have hwf : WellFormed s.log := (World.Inv.of_reach h).sound.wellFormed
  obtain ⟨hread, hfinite⟩ := loadAll_eq_ok.mp hload
  have hstream : ∀ e ∈ stream s.log r, e.payload.costIsFinite := fun e he =>
    hfinite e (mem_stream.mp he).1
  obtain ⟨row, hrow, hcost, heffort⟩ := lookup_runStates_of_order hwf
    (World.Grouped.of_reach h).tails hrun hread (hwf.gapFree.load_eq_ok.mp horder).1
  refine ⟨_, row, buildCostEffortHistory_eq fuel hstream, hrow, ?_, rfl, ?_⟩
  · exact List.pairwise_map.mp (((List.pairwise_map.mpr (hwf.gapFree r).pairwise)).sublist
      (map_revision_runningSums (stream s.log r)))
  · rw [lastTotals_runningSums hstream, hcost, heffort]

/-- After one execution with an effort of 2 and a cost of 1 the history ends at the rebuilt totals. -/
theorem costHistory_ends_at_totals_prompt :
    ∃ points row,
      buildCostEffortHistory 1 ((stream (logAfterActions promptActions) sampleRun).map
        EventRow.ofEnvelope) = some points ∧
      (RebuildState.fromEvents (logAfterActions promptActions)).runStates.lookup sampleRun =
        some row ∧
      points = runningSums (stream (logAfterActions promptActions) sampleRun) ∧
      lastTotals points = (row.totalCost, row.effortPoints) := by
  have hreach : Reachable (interleaving sampleDeployment)
      (World.init.after sampleDeployment promptActions) :=
    World.reach_after (.init rfl) (by decide +kernel)
  have hgap := (World.Inv.of_reach hreach).sound.wellFormed.gapFree
  have hfacts : (logAfterActions promptActions).Pairwise timeLe ∧
      (∀ e ∈ logAfterActions promptActions, e.payload.costIsFinite = true) ∧
      ∃ e ∈ stream (logAfterActions promptActions) sampleRun, e.payload.isRunStarted := by
    decide +kernel
  obtain ⟨hsorted, hfinite, hrun⟩ := hfacts
  obtain ⟨points, row, hpoints, hrow, -, hsums, htotals⟩ :=
    costHistory_ends_at_totals hreach hrun (loadAll_eq_ok.mpr ⟨⟨.refl _, hsorted⟩, hfinite⟩)
      (hgap.load_eq_ok.mpr ⟨rfl, fun e he => hfinite e (mem_stream.mp he).1⟩) 0
  exact ⟨points, row, hpoints, hrow, hsums, htotals⟩

end SamtaDashboard

import SamtaDashboard.Api.EffortCost
import SamtaDashboard.System.RebuildAgreement

/-!
# The cost ledger

A successful result is charged twice in the events: its completion carries the effort and the cost,
and a progress chunk carries half of both again. `Records` describes the streams that the worker makes
of a sequence of results, `Records.charges` says what such a stream charges, and the four readers of
the charges give back what was reported exactly if nothing succeeded.
-/

namespace SamtaDashboard

open EventFold Transition

/-! ### Streams and the results they record -/

/-- The event leaves the totals of run `r` alone. -/
def EventPayload.Quiet (r : Uuid) (p : EventPayload) : Prop :=
  p.charge? = none ∧ p.isRunStarted = false ∧ p.runId? = some r

/-- `events` is a stream of run `r` into which `events_for_execution` recorded these results, in this
order and between any other events of the run. -/
inductive Records (r : Uuid) : List ExecutionResult → List EventEnvelope → Prop
  | started {e : EventEnvelope} {workspaceId : Uuid} {objective : String} :
      e.payload = .runStarted workspaceId objective → e.resourceId = r → Records r [] [e]
  | quiet {results : List ExecutionResult} {events : List EventEnvelope} {e : EventEnvelope} :
      Records r results events → e.payload.Quiet r → Records r results (events ++ [e])
  | execution {results : List ExecutionResult} {events rows : List EventEnvelope}
      {result : ExecutionResult} (worker : Worker) (stamp : Nat → Stamp) (itemId : Uuid)
      (revision : Int) (agentId : Uuid) : Records r results events →
      payloads rows = payloads (eventsForExecution worker stamp r itemId revision agentId result) →
      Records r (results ++ [result]) (events ++ rows)

/-- What the executor reported: the costs and the efforts of the successful results. -/
def reportedCost (results : List ExecutionResult) : F64 :=
  F64.sum ((results.filter (·.success)).map (·.cost))

def reportedEffort (results : List ExecutionResult) : Int :=
  ((results.filter (·.success)).map (·.effort.val)).sum

/-- What the worker charges for a result. -/
def ExecutionResult.charges (result : ExecutionResult) : List (I32 × F64) :=
  if result.success then [(result.effort, result.cost), (result.chunkEffort, result.cost.half)]
  else []

namespace Records

variable {r : Uuid} {results : List ExecutionResult} {events : List EventEnvelope}

theorem charges (h : Records r results events) :
    (payloads events).filterMap EventPayload.charge? =
      results.flatMap ExecutionResult.charges := by
  induction h with
  | started hp _ => simp [hp, EventPayload.charge?]
  | quiet _ hquiet ih => simp [ih, hquiet.1]
  | @execution _ _ rows result worker stamp itemId revision agentId _ hrows ih =>
    rw [payloads_append, List.filterMap_append, ih, List.flatMap_append, hrows,
      payloads_eventsForExecution]
    congr 1
    cases hsucc : result.success <;>
      simp only [Outcome.payloads, ExecutionResult.charges, hsucc, if_true, Bool.false_eq_true,
        if_false, List.flatMap_singleton] <;> rfl

theorem shape (h : Records r results events) :
    ∃ started rest w o, events = started :: rest ∧ started.payload = .runStarted w o ∧
      (∀ e ∈ rest, e.payload.isRunStarted = false) ∧
      ∀ e ∈ events, runIdForEvent e = some r := by
  induction h with
  | @started e w o hp hr =>
    refine ⟨e, [], w, o, rfl, hp, by simp, fun x hx => ?_⟩
    rw [List.mem_singleton] at hx
    subst hx
    exact runIdForEvent_eq hr (Or.inl (by rw [hp]; rfl))
  | @quiet _ _ e _ hquiet ih =>
    obtain ⟨started, rest, w, o, rfl, hp, hrest, hrun⟩ := ih
    refine ⟨started, rest ++ [e], w, o, rfl, hp, ?_, ?_⟩
    · rw [List.forall_mem_append, List.forall_mem_singleton]
      exact ⟨hrest, hquiet.2.1⟩
    · rw [List.forall_mem_append, List.forall_mem_singleton]
      refine ⟨hrun, ?_⟩
      have hrunId := hquiet.2.2
      unfold runIdForEvent
      split
      · next hpayload => simp [hpayload, EventPayload.runId?] at hrunId
      · exact hrunId
  | @execution _ _ rows result worker stamp itemId revision agentId _ hrows ih =>
    obtain ⟨started, rest, w, o, rfl, hp, hrest, hrun⟩ := ih
    have hmem : ∀ e ∈ rows, e.payload.isRunStarted = false ∧ runIdForEvent e = some r := by
      intro e he
      have hpayload : e.payload ∈ payloads rows := List.mem_map_of_mem he
      rw [hrows, payloads_eventsForExecution] at hpayload
      obtain ⟨hrunId, -, hkind⟩ := mem_outcome_payloads _ _ _ _ hpayload
      unfold runIdForEvent
      cases hcase : e.payload <;> simp_all [EventPayload.isExecution, EventPayload.isRunStarted]
    refine ⟨started, rest ++ rows, w, o, rfl, hp, ?_, ?_⟩
    · rw [List.forall_mem_append]
      exact ⟨hrest, fun e he => (hmem e he).1⟩
    · rw [List.forall_mem_append]
      exact ⟨hrun, fun e he => (hmem e he).2⟩

/-! ### What the readers find -/

theorem lookup_runStatesFromEvents (h : Records r results events) :
    ∃ state, (runStatesFromEvents events).lookup r = some state ∧
      state.totalCost = chargedCost (payloads events) ∧
      state.effortPoints = chargedEffort (payloads events) := by
  obtain ⟨started, rest, w, o, hcons, -, -, hrun⟩ := h.shape
  obtain ⟨state, hstate⟩ := Option.isSome_iff_exists.mp
    (replayRun_isSome.mpr (by rw [hcons]; exact List.cons_ne_nil _ _ : events ≠ []))
  refine ⟨state, ?_, totalCost_replayRun hstate, effortPoints_replayRun hstate⟩
  rw [SamtaDashboard.lookup_runStatesFromEvents, runEvents, List.filter_eq_self.mpr, hstate]
  exact fun e he => decide_eq_true (hrun e he)

theorem lookup_runStates (h : Records r results events) :
    ∃ row, (RebuildState.fromEvents events).runStates.lookup r = some row ∧
      row.totalCost = chargedCost (payloads events) ∧
      row.effortPoints = chargedEffort (payloads events) := by
  obtain ⟨started, rest, w, o, hcons, hp, hrest, hrun⟩ := h.shape
  have hevents : runEvents events r = started :: rest := by
    rw [← hcons, runEvents, List.filter_eq_self]
    exact fun e he => decide_eq_true (hrun e he)
  have hnot : ∀ e ∈ rest, ∀ w o, e.payload ≠ .runStarted w o := by
    intro e he w o hpayload
    have := hrest e he
    rw [hpayload] at this
    cases this
  refine ⟨_, RebuildState.lookup_runStates_cons hevents, ?_, ?_⟩
  · rw [RebuildState.totalCost_rowAfter ⟨w, o, hp⟩ hnot, hcons]
  · rw [RebuildState.effortPoints_rowAfter ⟨w, o, hp⟩ hnot, hcons]

end Records

theorem addHistoryPoint_of_charge?_eq_none {e : EventEnvelope} (h : e.payload.charge? = none)
    (fuel : Nat) (state : HistoryState) :
    addHistoryPoint (fuel + 1) state (EventRow.ofEnvelope e) = some state := by
  have hread : readCharge e.payload = (I32.wrap 0, .zero) := by rw [readCharge, h, Option.elim_none]
  rw [addHistoryPoint_readCharge, hread, if_pos ⟨rfl, rfl⟩]

def lastTotals (points : List CostEffortHistoryPoint) : F64 × Int :=
  points.getLast?.elim (.zero, 0) fun point => (point.totalCost, point.totalEffort)

/-- The four readers of a run's stream find the reported totals. -/
structure Conserved (r : Uuid) (results : List ExecutionResult) (events : List EventEnvelope)
    (fuel : Nat) : Prop where
  worker : ((runStatesFromEvents events).lookup r).map
    (fun state => (state.totalCost, state.effortPoints)) =
      some (reportedCost results, reportedEffort results)
  rebuild : ((RebuildState.fromEvents events).runStates.lookup r).map
    (fun row => (row.totalCost, row.effortPoints)) =
      some (reportedCost results, reportedEffort results)
  history : (buildCostEffortHistory fuel (events.map EventRow.ofEnvelope)).map lastTotals =
    some (reportedCost results, reportedEffort results)
  costTracker : calculateRunCost events = reportedCost results

section conserved

variable {r : Uuid} {results : List ExecutionResult} {events : List EventEnvelope}

/-- The charged effort exceeds the reported one by the efforts of the progress chunks. -/
theorem chargedEffort_records (h : Records r results events) :
    chargedEffort (payloads events) = reportedEffort results +
      ((results.filter (·.success)).map (·.chunkEffort.val)).sum := by
  rw [chargedEffort_eq_sum, h.charges, reportedEffort]
  clear h
  induction results with
  | nil => rfl
  | cons result results ih =>
    rw [List.flatMap_cons, List.map_append, List.sum_append, ih, List.filter_cons,
      ExecutionResult.charges]
    cases result.success
    · simp
    · simp only [if_true, List.map_cons, List.map_nil, List.sum_cons, List.sum_nil]
      omega

theorem length_le_sum_chunkEffort (results : List ExecutionResult) :
    (results.length : Int) ≤ (results.map (·.chunkEffort.val)).sum := by
  induction results with
  | nil => rfl
  | cons result results ih =>
    have := one_le_chunkEffort result
    simp only [List.length_cons, List.map_cons, List.sum_cons, Nat.cast_add, Nat.cast_one]
    omega

theorem buildCostEffortHistory_of_quiet (h : ∀ e ∈ events, e.payload.charge? = none)
    (fuel : Nat) :
    buildCostEffortHistory (fuel + 1) (events.map EventRow.ofEnvelope) = some [] := by
  have hfold : ∀ state, (events.map EventRow.ofEnvelope).foldlM (addHistoryPoint (fuel + 1)) state =
      some state := by
    induction events with
    | nil => exact fun _ => rfl
    | cons e events ih =>
      intro state
      rw [List.map_cons, List.foldlM_cons,
        addHistoryPoint_of_charge?_eq_none (h e List.mem_cons_self)]
      exact ih (fun x hx => h x (List.mem_cons_of_mem _ hx)) state
  rw [buildCostEffortHistory, hfold]
  rfl

theorem calculateRunCost_of_quiet (h : ∀ e ∈ events, e.payload.charge? = none) :
    calculateRunCost events = .zero := by
  rw [calculateRunCost, List.filterMap_eq_nil_iff.mpr]
  · rfl
  · intro e he
    have hcharge := h e he
    cases hp : e.payload <;> simp_all [EventPayload.charge?]

/-- The readers find what was reported exactly if nothing succeeded. -/
theorem conserved_iff (h : Records r results events) (fuel : Nat) :
    Conserved r results events (fuel + 1) ↔ ∀ result ∈ results, result.success = false := by
  obtain ⟨state, hstate, hstateCost, hstateEffort⟩ := h.lookup_runStatesFromEvents
  obtain ⟨row, hrow, hrowCost, hrowEffort⟩ := h.lookup_runStates
  constructor
  · intro hconserved
    have heffort := hconserved.worker
    rw [hstate, Option.map_some, Option.some.injEq, Prod.mk.injEq, hstateEffort,
      chargedEffort_records h] at heffort
    have hlength := length_le_sum_chunkEffort (results.filter (·.success))
    have hempty : results.filter (·.success) = [] := by
      rw [← List.length_eq_zero_iff]
      omega
    simpa using hempty
  · intro hfailed
    have hfilter : results.filter (·.success) = [] := by simpa using hfailed
    have hcharges : (payloads events).filterMap EventPayload.charge? = [] := by
      rw [h.charges, List.flatMap_eq_nil_iff]
      intro result hresult
      simp [ExecutionResult.charges, hfailed result hresult]
    have hquiet : ∀ e ∈ events, e.payload.charge? = none := fun e he =>
      List.filterMap_eq_nil_iff.mp hcharges _ (List.mem_map_of_mem he)
    have hcost : chargedCost (payloads events) = reportedCost results := by
      rw [chargedCost, hcharges, reportedCost, hfilter]
      rfl
    have heffort : chargedEffort (payloads events) = reportedEffort results := by
      rw [chargedEffort, hcharges, reportedEffort, hfilter]
      rfl
    constructor
    · rw [hstate, Option.map_some, hstateCost, hstateEffort, hcost, heffort]
    · rw [hrow, Option.map_some, hrowCost, hrowEffort, hcost, heffort]
    · rw [buildCostEffortHistory_of_quiet hquiet, reportedCost, reportedEffort, hfilter]
      rfl
    · rw [calculateRunCost_of_quiet hquiet, reportedCost, hfilter]
      rfl

end conserved

/-! ### The streams of a history -/

theorem Records.append_quiet {r : Uuid} {results : List ExecutionResult}
    {events rows : List EventEnvelope} (h : Records r results events)
    (hrows : ∀ p ∈ payloads rows, p.Quiet r) : Records r results (events ++ rows) := by
  induction rows using List.reverseRecOn with
  | nil => rwa [List.append_nil]
  | append_singleton rows e ih =>
    rw [payloads_append, List.forall_mem_append] at hrows
    rw [← List.append_assoc]
    exact (ih hrows.1).quiet (hrows.2 e.payload (by simp))

theorem quiet_assigned {r i agentId : Uuid} :
    (EventPayload.workItemAssigned r i agentId).Quiet r := ⟨rfl, rfl, rfl⟩

section histories

variable {log log' : EventLog} {r : Uuid} {results : List ExecutionResult}
  {events rows : List EventEnvelope}

theorem Records.append_executed (h : Records r results events) {worker : Worker}
    {executed : List (Uuid × Outcome)}
    (hrows : payloads rows = executedPayloads worker r executed) :
    Records r (results ++ executed.filterMap (·.2.toOption)) (events ++ rows) := by
  induction executed generalizing results events rows with
  | nil =>
    obtain rfl := List.map_eq_nil_iff.mp hrows
    simpa using h
  | cons x executed ih =>
    obtain ⟨first, rest, rfl, hfirst, hrest⟩ := List.map_eq_append_iff.mp hrows
    obtain ⟨itemId, outcome⟩ := x
    rw [← List.append_assoc]
    cases outcome with
    | error message =>
      refine ih (h.append_quiet fun p hp => ?_) hrest
      rw [payloads, hfirst] at hp
      obtain rfl := List.mem_singleton.mp hp
      exact ⟨rfl, rfl, rfl⟩
    | ok result =>
      have hresult := h.execution worker (fun _ => ⟨Uuid.nil, 0⟩) itemId 0 Uuid.nil
        (hfirst.trans (payloads_eventsForExecution ..).symm)
      simpa [Except.toOption] using ih hresult hrest

theorem Records.advance (h : Records r results (stream log r)) {config : LoopConfig}
    {state state' : RunState} {batch : List EventEnvelope} {executed : List (Uuid × Outcome)}
    {summary : Option String}
    (hadvances : Advances log log' r config state state' batch executed summary) :
    Records r (results ++ executed.filterMap (·.2.toOption)) (stream log' r) := by
  obtain ⟨rows, happ, hps⟩ := hadvances.appended
  rw [hadvances.advanced.payloads] at hps
  obtain ⟨first, rest, rfl, hfirst, hrest⟩ := List.map_eq_append_iff.mp hps
  rw [happ.stream_eq, if_pos rfl, ← List.append_assoc]
  refine (h.append_executed hfirst).append_quiet fun p hp => ?_
  rw [payloads, hrest] at hp
  obtain ⟨text, -, rfl⟩ := List.mem_map.mp hp
  exact ⟨rfl, rfl, rfl⟩

theorem Records.change (hwf : WellFormed log) (hchange : Change log log')
    (ih : ∀ r, stream log r ≠ [] → ∃ results, Records r results (stream log r)) (r : Uuid)
    (hr : stream log' r ≠ []) : ∃ results, Records r results (stream log' r) := by
  have hother : ∀ {r' rows}, Appended log log' r' rows → r ≠ r' →
      ∃ results, Records r results (stream log' r) := fun happ hne => by
    rw [happ.stream_eq, if_neg hne, List.append_nil] at hr ⊢
    exact ih r hr
  cases hchange with
  | start draws workspaceId h =>
    obtain ⟨rows, objective, target, agents, happ, hps⟩ := h.appended
    by_cases hne : r = draws.resource
    · subst hne
      rw [startRunPayloads_eq] at hps
      obtain ⟨e, rest, rfl, he, hrest⟩ := List.map_eq_cons_iff.mp hps
      rw [happ.stream_eq, if_pos rfl, h.new.1, List.nil_append, ← List.singleton_append]
      refine ⟨[], (Records.started he (happ.run e List.mem_cons_self)).append_quiet fun p hp => ?_⟩
      rw [payloads, hrest] at hp
      obtain ⟨x, -, rfl⟩ := Assignments.mem_payloads hp
      exact quiet_assigned
    · exact hother happ hne
  | status r' status h =>
    obtain ⟨rows, reason, happ, hps⟩ := h.appended
    by_cases hne : r = r'
    · subst hne
      obtain ⟨results, hrec⟩ := ih r h.exists_run
      rw [happ.stream_eq, if_pos rfl]
      refine ⟨results, hrec.append_quiet fun p hp => ?_⟩
      rw [hps, List.mem_singleton] at hp
      exact hp ▸ ⟨rfl, rfl, rfl⟩
    · exact hother happ hne
  | retry r' h =>
    obtain ⟨rows, draws, order, happ, hps⟩ := h.appended
    by_cases hne : r = r'
    · subst hne
      obtain ⟨results, hrec⟩ := ih r h.exists_run
      obtain ⟨-, -, -, heq⟩ := retryPayloads_eq_some.mp hps
      rw [happ.stream_eq, if_pos rfl]
      refine ⟨results, hrec.append_quiet fun p hp => ?_⟩
      rw [heq] at hp
      rcases List.mem_cons.mp hp with rfl | hp
      · exact ⟨rfl, rfl, rfl⟩
      · obtain ⟨x, -, rfl⟩ := Assignments.mem_payloads hp
        exact quiet_assigned
    · exact hother happ hne
  | @batch r' config state state' batch executed summary h =>
    obtain ⟨rows, happ, -⟩ := h.appended
    by_cases hne : r = r'
    · subst hne
      obtain ⟨results, hrec⟩ := ih r (h.read.stream_ne_nil hwf)
      exact ⟨_, hrec.advance h⟩
    · exact hother happ hne

theorem history_records (h : Reachable history log) (hr : stream log r ≠ []) :
    ∃ results, Records r results (stream log r) :=
  (history_invariant (I := fun log => ∀ r, stream log r ≠ [] →
      ∃ results, Records r results (stream log r))
    (fun _ hnil => absurd rfl hnil)
    (fun _ _ hwf ih hchange => Records.change hwf hchange ih) h).2 r hr

end histories

/-! ### A run with one successful result -/

def completedLog : EventLog := tickedLog (sampleExecutor []) 200 (startedLog 1)

theorem completedLog_reachable : Reachable history completedLog :=
  tickedLog_reachable startedLog_one_reachable _ _ (by decide) (by decide)

theorem records_completedLog : Records sampleRun [sampleResult] (stream completedLog sampleRun) := by
  have hps : payloads (stream completedLog sampleRun) =
      .runStarted sampleWorkspace "" :: ([.workItemAssigned sampleRun ⟨10⟩ ⟨20⟩] ++
        (executedPayloads ⟨⟨60⟩⟩ sampleRun [(⟨10⟩, .ok sampleResult)] ++
          [.runCompleted sampleRun "worker completed run after 1 items"])) := by
    decide +kernel
  obtain ⟨started, events, heq, hstarted, hps⟩ := List.map_eq_cons_iff.mp hps
  obtain ⟨assigned, events, rfl, hassigned, hps⟩ := List.map_eq_append_iff.mp hps
  obtain ⟨executed, completed, rfl, hexecuted, hcompleted⟩ := List.map_eq_append_iff.mp hps
  have hrun : started.resourceId = sampleRun :=
    (mem_stream.mp (heq ▸ List.mem_cons_self : started ∈ stream completedLog sampleRun)).2
  have hplanned : Records sampleRun [] ([started] ++ assigned) := by
    refine (Records.started hstarted hrun).append_quiet fun p hp => ?_
    rw [payloads, hassigned, List.mem_singleton] at hp
    exact hp ▸ quiet_assigned
  have hdone : Records sampleRun [sampleResult] ([started] ++ assigned ++ executed ++ completed) := by
    refine (hplanned.append_executed hexecuted).append_quiet fun p hp => ?_
    rw [payloads, hcompleted, List.mem_singleton] at hp
    exact hp ▸ ⟨rfl, rfl, rfl⟩
  rw [heq]
  simpa using hdone

theorem conserved_iff_completedLog :
    Conserved sampleRun [sampleResult] (stream completedLog sampleRun) 1 ↔
      ∀ result ∈ [sampleResult], result.success = false :=
  conserved_iff records_completedLog 0

/-- For an effort of 2 and a cost of 1 the worker and the rebuild find 3 and 3/2, the history too, and
the cost tracker 1/2. -/
theorem not_conserved_completedLog : Reachable history completedLog ∧
    Records sampleRun [sampleResult] (stream completedLog sampleRun) ∧
    reportedCost [sampleResult] = .finite 1 ∧ reportedEffort [sampleResult] = 2 ∧
    ((runStatesFromEvents (stream completedLog sampleRun)).lookup sampleRun).map
      (fun state => (state.totalCost, state.effortPoints)) = some (.finite (3 / 2), 3) ∧
    ((RebuildState.fromEvents (stream completedLog sampleRun)).runStates.lookup sampleRun).map
      (fun row => (row.totalCost, row.effortPoints)) = some (.finite (3 / 2), 3) ∧
    (buildCostEffortHistory 1 ((stream completedLog sampleRun).map EventRow.ofEnvelope)).map
      lastTotals = some (.finite (3 / 2), 3) ∧
    calculateRunCost (stream completedLog sampleRun) = .finite (1 / 2) := by
  refine ⟨completedLog_reachable, records_completedLog, ?_, ?_, ?_, ?_, ?_, ?_⟩ <;> decide +kernel

end SamtaDashboard

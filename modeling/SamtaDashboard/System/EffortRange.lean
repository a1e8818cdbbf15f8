import Mathlib.Algebra.Order.BigOperators.Group.List
import SamtaDashboard.System.Ledger
import SamtaDashboard.System.Ownership
import SamtaDashboard.System.Partitions
import SamtaDashboard.System.ReadBack

/-!
# The range of the effort totals

The worker's replay, the rebuild, the worker's state in memory and the cost history add efforts up in
an `i32`, and none of them checks for an overflow. The efforts that executors report are positive but
have no bound of their own, so all depends on how much is reported for a run: the sums are exact
exactly if the reported efforts, each counted once more by half for its progress chunk, stay below
`2 ^ 31` (`effort_exact_iff`). As all efforts are positive, the last sum is then the largest one, in
whatever order a reader adds them up.
-/

namespace SamtaDashboard

open EventFold Transition

/-- The value is that of an `i32` and not negative. -/
def InEffortRange (n : Int) : Prop := 0 ≤ n ∧ n < 2 ^ 31

/-! ### What payloads charge -/

/-- What a completion brings to its run: the effort that was reported, and in the progress chunk that
goes with it half of it again, or 1. -/
def EventPayload.countedEffort? : EventPayload → Option Int
  | .workItemCompleted _ _ effort _ => some (effort.val + max (effort.val / 2) 1)
  | _ => none

def countedEffort (ps : List EventPayload) : Int :=
  (ps.filterMap EventPayload.countedEffort?).sum

theorem countedEffort_append (ps qs : List EventPayload) :
    countedEffort (ps ++ qs) = countedEffort ps + countedEffort qs := by
  simp only [countedEffort, List.filterMap_append, List.sum_append]

theorem countedEffort_of_quiet {ps : List EventPayload} (h : ∀ p ∈ ps, p.charge? = none) :
    countedEffort ps = 0 := by
  have hcounted : ps.filterMap EventPayload.countedEffort? = [] := by
    refine List.filterMap_eq_nil_iff.mpr fun p hp => ?_
    have hcharge := h p hp
    cases p <;> simp_all [EventPayload.charge?, EventPayload.countedEffort?]
  rw [countedEffort, hcounted]
  rfl

theorem chargedEffort_perm {ps qs : List EventPayload} (h : ps.Perm qs) :
    chargedEffort ps = chargedEffort qs := by
  simp only [chargedEffort_eq_sum]
  exact ((h.filterMap _).map _).sum_eq

/-- No payload charges a negative effort. -/
def ChargesNonneg (ps : List EventPayload) : Prop :=
  ∀ p ∈ ps, ∀ charge ∈ p.charge?, 0 ≤ charge.1.val

theorem ChargesNonneg.sublist {ps qs : List EventPayload} (h : ChargesNonneg qs)
    (hsub : ps.Sublist qs) : ChargesNonneg ps := fun p hp => h p (hsub.subset hp)

theorem ChargesNonneg.chargedEffort_le {ps qs : List EventPayload} (h : ChargesNonneg qs)
    (hsub : ps.Sublist qs) : chargedEffort ps ≤ chargedEffort qs := by
  simp only [chargedEffort_eq_sum]
  refine ((hsub.filterMap _).map _).sum_le_sum fun effort heffort => ?_
  obtain ⟨charge, hcharge, rfl⟩ := List.mem_map.mp heffort
  obtain ⟨p, hp, hpcharge⟩ := List.mem_filterMap.mp hcharge
  exact h p hp charge hpcharge

theorem ChargesNonneg.chargedEffort_nonneg {ps : List EventPayload} (h : ChargesNonneg ps) :
    0 ≤ chargedEffort ps := h.chargedEffort_le (List.nil_sublist ps)

/-- The payloads charge what their completions bring. -/
structure Tallied (ps : List EventPayload) : Prop where
  nonneg : ChargesNonneg ps
  charged : chargedEffort ps = countedEffort ps

namespace Tallied

variable {ps qs : List EventPayload}

theorem counted_nonneg (h : Tallied ps) : 0 ≤ countedEffort ps :=
  h.charged ▸ h.nonneg.chargedEffort_nonneg

theorem append (h : Tallied ps) (h' : Tallied qs) : Tallied (ps ++ qs) where
  nonneg := List.forall_mem_append.mpr ⟨h.nonneg, h'.nonneg⟩
  charged := by rw [chargedEffort_append, countedEffort_append, h.charged, h'.charged]

theorem of_quiet (h : ∀ p ∈ ps, p.charge? = none) : Tallied ps where
  nonneg := by
    intro p hp charge hcharge
    rw [h p hp] at hcharge
    cases hcharge
  charged := by
    rw [chargedEffort_eq_sum, List.filterMap_eq_nil_iff.mpr h, countedEffort_of_quiet h]
    rfl

end Tallied

theorem ExecutionResult.chunkEffort_val {result : ExecutionResult} (h : 0 ≤ result.effort.val) :
    result.chunkEffort.val = max (result.effort.val / 2) 1 := by
  have hmax := I32.val_max (result.effort.div 2) ⟨1, by decide⟩
  rw [I32.val_div h] at hmax
  exact hmax

theorem tallied_outcome {worker : Worker} {r itemId : Uuid} {outcome : Outcome}
    (h : ∀ result, outcome = .ok result → 1 ≤ result.effort.val) :
    Tallied (outcome.payloads worker r itemId) := by
  cases outcome with
  | error message => exact .of_quiet (by simp [Outcome.payloads, EventPayload.charge?])
  | ok result =>
    have hpos := h result rfl
    cases hsucc : result.success with
    | false => exact .of_quiet (by simp [Outcome.payloads, hsucc, EventPayload.charge?])
    | true =>
      have hchunk := result.chunkEffort_val (by omega)
      have hone := one_le_chunkEffort result
      simp only [Outcome.payloads, hsucc, if_true]
      constructor
      · simp only [ChargesNonneg, List.forall_mem_cons, EventPayload.charge?, Option.mem_def,
          Option.some.injEq, forall_eq']
        refine ⟨by simp, by omega, by omega, by simp⟩
      · show 0 + result.effort.val + result.chunkEffort.val =
          result.effort.val + max (result.effort.val / 2) 1 + 0
        omega

theorem tallied_batch {config : LoopConfig} {r : Uuid} {state state' : RunState}
    {batch : List EventEnvelope} {executed : List (Uuid × Outcome)} {summary : Option String}
    (h : Advanced config r state state' batch executed summary)
    (hexecutor : ∀ ctx result, config.executor ctx = .ok result → 1 ≤ result.effort.val) :
    Tallied (payloads batch) := by
  have hexecuted : ∀ calls : List (Uuid × Outcome), (∀ x ∈ calls, x ∈ executed) →
      Tallied (executedPayloads config.worker r calls) := by
    intro calls
    induction calls with
    | nil => exact fun _ => .of_quiet (by simp)
    | cons x calls ih =>
      intro hcalls
      rw [List.forall_mem_cons] at hcalls
      obtain ⟨ctx, hctx⟩ := h.outcome x hcalls.1
      rw [executedPayloads_cons]
      refine Tallied.append (tallied_outcome fun result hok => ?_) (ih hcalls.2)
      exact hexecutor ctx result (hctx.trans hok)
  rw [h.payloads]
  refine (hexecuted executed fun _ hx => hx).append (.of_quiet fun p hp => ?_)
  obtain ⟨text, -, rfl⟩ := List.mem_map.mp hp
  rfl

/-! ### What the readers add up -/

theorem chargedEffort_singleton (p : EventPayload) :
    chargedEffort [p] = p.charge?.elim 0 (·.1.val) := by
  rw [chargedEffort_eq_sum]
  cases h : p.charge? with
  | none => rw [List.filterMap_cons_none h]; rfl
  | some charge => rw [List.filterMap_cons_some h]; exact Int.add_zero _

theorem InTimeOrder.payloads_take {log : EventLog} {events : List EventEnvelope}
    (h : InTimeOrder log events) (hwf : WellFormed log) (n : Nat) (r : Uuid) :
    (payloads (runEvents (events.take n) r)).Subperm (payloads (stream log r)) := by
  have htake : (runEvents (events.take n) r).Sublist (runEvents events r) :=
    (List.take_sublist n events).filter _
  refine (htake.map _).subperm.trans ?_
  refine ((h.runEvents_perm_grouped hwf).map _).subperm.trans ?_
  exact (List.filter_sublist.map _).subperm

theorem InTimeOrder.chargedEffort_runEvents {log : EventLog} {events : List EventEnvelope}
    (h : InTimeOrder log events) (hwf : WellFormed log) (r : Uuid) :
    chargedEffort (payloads (runEvents events r)) = chargedEffort (payloads (stream log r)) := by
  have hgrouped : ∀ rows : List EventEnvelope,
      (payloads (rows.filter (·.payload.isGrouped))).filterMap EventPayload.charge? =
        (payloads rows).filterMap EventPayload.charge? := by
    intro rows
    induction rows with
    | nil => rfl
    | cons e rows ih =>
      cases he : e.payload.isGrouped with
      | true =>
        rw [List.filter_cons_of_pos (by exact he), payloads_cons, payloads_cons, List.filterMap_cons,
          List.filterMap_cons, ih]
      | false =>
        have hquiet : e.payload.charge? = none := by
          cases hp : e.payload <;> first | rfl | (rw [hp] at he; cases he)
        rw [List.filter_cons_of_neg (by simp [he]), payloads_cons, List.filterMap_cons_none hquiet, ih]
  refine (chargedEffort_perm ((h.runEvents_perm_grouped hwf).map _)).trans ?_
  simp only [chargedEffort_eq_sum]
  exact congrArg (fun charges : List (I32 × F64) => (charges.map (·.1.val)).sum)
    (hgrouped (stream log r))

theorem ChargesNonneg.inRange {ps qs : List EventPayload} (h : ChargesNonneg qs)
    (hsub : ps.Subperm qs) (hlt : chargedEffort qs < 2 ^ 31) :
    ChargesNonneg ps ∧ InEffortRange (chargedEffort ps) := by
  obtain ⟨l, hperm, hsublist⟩ := hsub
  have hnonneg : ChargesNonneg ps := fun p hp => h p (hsublist.subset (hperm.symm.subset hp))
  have hle := h.chargedEffort_le hsublist
  rw [chargedEffort_perm hperm] at hle
  exact ⟨hnonneg, hnonneg.chargedEffort_nonneg, by omega⟩

namespace RebuildState

theorem effortPoints_runRow (e : EventEnvelope) (entry : Option AgentRunProjection) :
    (runRow e entry).effortPoints = if e.payload.isRunStarted then 0
      else entry.elim 0 (·.effortPoints) + chargedEffort [e.payload] := by
  rw [chargedEffort_singleton]
  unfold runRow
  cases e.payload <;> cases entry <;>
    simp [EventPayload.isRunStarted, EventPayload.charge?, newRun]

/-- A `RunStarted` resets the row, so that it may hold less than the events charge. -/
theorem effortPoints_le {events : List EventEnvelope} (h : ChargesNonneg (payloads events))
    {row : AgentRunProjection}
    (hrow : events.foldl (fun entry e => some (runRow e entry)) none = some row) :
    0 ≤ row.effortPoints ∧ row.effortPoints ≤ chargedEffort (payloads events) := by
  induction events using List.reverseRecOn generalizing row with
  | nil => cases hrow
  | append_singleton events e ih =>
    rw [payloads_append] at h ⊢
    obtain ⟨hevents, he⟩ := List.forall_mem_append.mp h
    have hall := ChargesNonneg.chargedEffort_nonneg hevents
    have hone : 0 ≤ chargedEffort [e.payload] := ChargesNonneg.chargedEffort_nonneg he
    rw [List.foldl_append, List.foldl_cons, List.foldl_nil] at hrow
    obtain rfl := Option.some.inj hrow
    rw [chargedEffort_append, effortPoints_runRow]
    show _ ∧ _ ≤ _ + chargedEffort [e.payload]
    cases hentry : events.foldl (fun entry e => some (runRow e entry)) none with
    | none =>
      rw [Option.elim_none]
      split <;> omega
    | some old =>
      obtain ⟨hnonneg, hle⟩ := ih hevents hentry
      rw [Option.elim_some]
      split <;> omega

end RebuildState

theorem addHistoryPoint_ofEnvelope (fuel : Nat) (state : HistoryState) (e : EventEnvelope) :
    ∃ state', addHistoryPoint (fuel + 1) state (EventRow.ofEnvelope e) = some state' ∧
      state'.totalEffort = state.totalEffort + chargedEffort [e.payload] := by
  have heffort : (readCharge e.payload).1.val = chargedEffort [e.payload] := by
    rw [chargedEffort_singleton, readCharge]
    cases e.payload.charge? <;> rfl
  refine ⟨_, addHistoryPoint_readCharge fuel state e, ?_⟩
  rw [← heffort]
  split
  · next hzero => omega
  · rfl

theorem history_totalEffort (fuel : Nat) (events : List EventEnvelope) (state : HistoryState) :
    ∃ state', (events.map EventRow.ofEnvelope).foldlM (addHistoryPoint (fuel + 1)) state =
        some state' ∧
      state'.totalEffort = state.totalEffort + chargedEffort (payloads events) := by
  induction events generalizing state with
  | nil => exact ⟨state, rfl, (Int.add_zero _).symm⟩
  | cons e events ih =>
    obtain ⟨next, hnext, hnextEffort⟩ := addHistoryPoint_ofEnvelope fuel state e
    obtain ⟨last, hlast, hlastEffort⟩ := ih next
    refine ⟨last, ?_, ?_⟩
    · rw [List.map_cons, List.foldlM_cons, hnext]
      exact hlast
    · rw [hlastEffort, hnextEffort, Int.add_assoc, ← chargedEffort_append]
      rfl

/-! ### The sums over a log -/

/-- After any number of events the three readers of a log have an effort in range: the loop over the
events of the worker's replay and the one of the rebuild, and the closure of the cost history. -/
structure ReplaysExact (log : EventLog) : Prop where
  worker : ∀ events, LoadAll log (.ok events) → ∀ n r state,
    (runStatesFromEvents (events.take n)).lookup r = some state → InEffortRange state.effortPoints
  rebuild : ∀ events, LoadAll log (.ok events) → ∀ n r row,
    (RebuildState.fromEvents (events.take n)).runStates.lookup r = some row →
      InEffortRange row.effortPoints
  history : ∀ r fuel n state,
    (((stream log r).map EventRow.ofEnvelope).take n).foldlM (addHistoryPoint (fuel + 1))
      ⟨.zero, 0, []⟩ = some state → InEffortRange state.totalEffort

/-- As no charge is negative, the totals of the streams decide. -/
theorem replaysExact_iff {log : EventLog} (hwf : WellFormed log)
    (h : ∀ r, ChargesNonneg (payloads (stream log r))) :
    ReplaysExact log ↔ ∀ r, chargedEffort (payloads (stream log r)) < 2 ^ 31 := by
  constructor
  · intro hexact r
    obtain ⟨state, hstate, heffort⟩ := history_totalEffort 0 (stream log r) ⟨.zero, 0, []⟩
    have hrange := hexact.history r 0 (stream log r).length state
      (by rwa [List.take_of_length_le (by rw [List.length_map])])
    rw [heffort] at hrange
    simpa using hrange.2
  · intro hlt
    have hread : ∀ events, LoadAll log (.ok events) → ∀ n r,
        ChargesNonneg (payloads (runEvents (events.take n) r)) ∧
          InEffortRange (chargedEffort (payloads (runEvents (events.take n) r))) :=
      fun events hload n r => (h r).inRange
        ((loadAll_eq_ok.mp hload).1.payloads_take hwf n r) (hlt r)
    constructor
    · intro events hload n r state hstate
      rw [lookup_runStatesFromEvents] at hstate
      rw [effortPoints_replayRun hstate]
      exact (hread events hload n r).2
    · intro events hload n r row hrow
      rw [RebuildState.lookup_runStates] at hrow
      obtain ⟨hnonneg, -, hmax⟩ := hread events hload n r
      obtain ⟨hrow₀, hrow⟩ := RebuildState.effortPoints_le hnonneg hrow
      exact ⟨hrow₀, by omega⟩
    · intro r fuel n state hstate
      obtain ⟨state', hstate', heffort⟩ :=
        history_totalEffort fuel ((stream log r).take n) ⟨.zero, 0, []⟩
      rw [List.map_take, hstate] at hstate'
      obtain rfl := Option.some.inj hstate'
      rw [heffort, Int.zero_add]
      exact ((h r).inRange ((List.take_sublist n _).map _).subperm (hlt r)).2

/-! ### What a worker adds up in memory -/

/-- Worker iterates in state `s` over run `r`, which it has replayed from its snapshot to `state`, and
over the items of the run in this order. -/
inductive World.Iterates (d : Deployment) (s : World) :
    Action → LoopConfig → Snapshot → Uuid → RunState → List Uuid → Prop
  | execute {w : Nat} {executor : AgentExecutor} {snapshot : Snapshot} {r : Uuid}
      {runs : List Uuid} {state : RunState} {order : List Uuid} :
      s.workers w = .ticking snapshot (r :: runs) →
      (runStatesFromEvents snapshot.events).lookup r = some state →
      state.items.IsOrder order → LoopConfig.skips state = false →
      Iterates d s (.execute w executor) ((d.worker w).config executor) snapshot r state order

/-- The efforts that the executor reports for the first items that an iteration selects. -/
def LoopConfig.reportedEfforts (config : LoopConfig) (r : Uuid) (order : List Uuid) (n : Nat)
    (state : RunState) : List Int :=
  (config.selected order n state).map fun i =>
    Outcome.effort (config.executor (config.context r state i))

/-- After any number of items the worker's state has an effort in range. -/
def TickExact (d : Deployment) (s : World) (a : Action) : Prop :=
  ∀ config snapshot r state order, s.Iterates d a config snapshot r state order →
    ∀ stamp n, n ≤ config.maxItemsPerLoop →
      InEffortRange (config.itemLoop stamp order r n (LoopConfig.enterRun state)).state.effortPoints

section memory

variable {config : LoopConfig} {stamp : Nat → Stamp} {order : List Uuid} {r : Uuid}
  {state : RunState}

theorem effortPoints_itemLoop (horder : order.Nodup) (n : Nat) :
    (config.itemLoop stamp order r n (LoopConfig.enterRun state)).state.effortPoints =
      state.effortPoints + (config.reportedEfforts r order n state).sum := by
  have hcount : LoopConfig.Counted config r (LoopConfig.enterRun state)
      (config.itemLoop stamp order r n (LoopConfig.enterRun state))
      (config.executions stamp order r n (LoopConfig.enterRun state)) :=
    LoopConfig.itemLoop_counted n
  rw [hcount.effortPoints, LoopConfig.executions_eq horder, List.map_map]
  rfl

theorem inRange_itemLoop_iff (horder : order.Nodup) (hstate : 0 ≤ state.effortPoints)
    (hexecutor : ∀ ctx result, config.executor ctx = .ok result → 1 ≤ result.effort.val) :
    (∀ stamp n, n ≤ config.maxItemsPerLoop →
      InEffortRange (config.itemLoop stamp order r n (LoopConfig.enterRun state)).state.effortPoints) ↔
      state.effortPoints + (config.reportedEfforts r order config.maxItemsPerLoop state).sum <
        2 ^ 31 := by
  have hnonneg : ∀ n, ∀ effort ∈ config.reportedEfforts r order n state, 0 ≤ effort := by
    intro n effort heffort
    obtain ⟨i, -, rfl⟩ := List.mem_map.mp heffort
    cases hout : config.executor (config.context r state i) with
    | error message => exact le_refl _
    | ok result =>
      have := hexecutor _ _ hout
      unfold Outcome.effort
      dsimp only
      split <;> omega
  constructor
  · intro h
    have hlast := h (fun _ => ⟨.nil, 0⟩) config.maxItemsPerLoop (le_refl _)
    rw [effortPoints_itemLoop horder] at hlast
    exact hlast.2
  · intro h stamp n hn
    have hsub : (config.reportedEfforts r order n state).Sublist
        (config.reportedEfforts r order config.maxItemsPerLoop state) :=
      (List.take_sublist_take_left hn).map _
    have hle := hsub.sum_le_sum (hnonneg _)
    have hsum := List.sum_nonneg (hnonneg n)
    rw [effortPoints_itemLoop horder]
    exact ⟨by omega, by omega⟩

end memory

/-! ### The efforts that are reported -/

/-- A worker runs with the executor that its environment gives it. -/
def Produced (unicode : Unicode) (parseJson : String → Option Json) (_ : World) (a : Action) : Prop :=
  ∀ w executor, a = .execute w executor → ∃ env network,
    executor = (createExecutorFromEnv unicode env).execute unicode parseJson network

/-- In the log, in what the workers have read, and in the batches that wait for their append. -/
structure World.Tallied (s : World) : Prop where
  log : ∀ r, SamtaDashboard.Tallied (payloads (stream s.log r))
  snapshot : ∀ w, ∀ snapshot ∈ (s.workers w).snapshot?, ∀ r,
    SamtaDashboard.Tallied (payloads (stream snapshot.log r))
  batch : ∀ w, SamtaDashboard.Tallied (payloads (s.workers w).batch)

section steps

variable {d : Deployment} {s s' : World} {a : Action} {unicode : Unicode}
  {parseJson : String → Option Json}

theorem EventPayload.charge?_of_orchestrated {p : EventPayload} (h : p.isOrchestrated) :
    p.charge? = none := by
  cases p <;> first | rfl | cases h

theorem tallied_appended {log log' : EventLog} {r : Uuid} {rows : List EventEnvelope}
    (h : ∀ r', Tallied (payloads (stream log r'))) (happ : Appended log log' r rows)
    (hrows : Tallied (payloads rows)) : ∀ r', Tallied (payloads (stream log' r')) := by
  intro r'
  rw [happ.payloads_stream]
  split
  · exact (h r').append hrows
  · exact (h r').append (.of_quiet (by simp))

theorem World.Tallied.step (h : s.Tallied) (hinv : s.Inv d) (hstep : s.Step d a s')
    (hproduced : Produced unicode parseJson s a) : s'.Tallied := by
  constructor
  · cases hstep.commit hinv with
    | nothing _ hlog =>
      rw [hlog]
      exact h.log
    | request _ hcommit =>
      refine tallied_appended h.log hcommit.appended (.of_quiet fun p hp => ?_)
      exact EventPayload.charge?_of_orchestrated (hcommit.decided.orchestrated p hp)
    | batch hbatch hcommit =>
      obtain ⟨w, hw⟩ := batch_of_batchOf hbatch
      refine tallied_appended h.log hcommit.appended ?_
      rw [hcommit.payloads, ← hw]
      exact h.batch w
  · intro w snapshot hsnapshot r
    rcases hstep.worker w with hsame | hmove
    · rw [hsame] at hsnapshot
      exact h.snapshot w snapshot hsnapshot r
    · rcases hmove.continues with ⟨hsame, -⟩ | hidle | ⟨events, runs, -, -, hload⟩
      · rw [hsame] at hsnapshot
        exact h.snapshot w snapshot hsnapshot r
      · rw [hidle] at hsnapshot
        cases hsnapshot
      · rw [hload] at hsnapshot
        obtain rfl := Option.some.inj hsnapshot
        exact h.log r
  · intro w
    rcases hstep.batch w with hnone | hold | ⟨executor, r, state, state', executed, summary, ha, hadv⟩
    · rw [hnone]
      exact .of_quiet (by simp)
    · rw [hold]
      exact h.batch w
    · obtain ⟨env, network, rfl⟩ := hproduced w executor ha
      exact tallied_batch hadv fun ctx result hok => one_le_effort unicode parseJson hok

theorem World.Tallied.of_reach (h : Reach (interleaving d) (Produced unicode parseJson) s) :
    s.Tallied := by
  refine h.invariant_of (K := World.Inv d) (fun _ => World.Inv.of_reach) ?_
    fun _ _ _ hinv hI hstep hproduced => hI.step hinv hstep hproduced
  rintro s rfl
  exact ⟨fun _ => .of_quiet (by simp [World.init, stream]), fun _ _ hsnapshot => (by cases hsnapshot),
    fun _ => .of_quiet (by simp [World.init, WorkerPhase.batch])⟩

/-- At an iteration, the efforts counted in the stream of the run when the worker read it, and those
that are now reported for the items that it selects. -/
def MemoryFits (d : Deployment) (s : World) (a : Action) : Prop :=
  ∀ config snapshot r state order, s.Iterates d a config snapshot r state order →
    countedEffort (payloads (stream snapshot.log r)) +
      (config.reportedEfforts r order config.maxItemsPerLoop state).sum < 2 ^ 31

/-- At an append, the efforts counted in the stream of the run and in the batch. -/
def BatchFits (s : World) (a : Action) : Prop :=
  ∀ snapshot r batch, s.batchOf a = some (snapshot, r, batch) →
    countedEffort (payloads (stream s.log r)) + countedEffort (payloads batch) < 2 ^ 31

theorem World.Iterates.inRange_iff {config : LoopConfig} {snapshot : Snapshot} {r : Uuid}
    {state : RunState} {order : List Uuid} (hit : s.Iterates d a config snapshot r state order)
    (h : s.Tallied) (hinv : s.Inv d) (hproduced : Produced unicode parseJson s a) :
    (∀ stamp n, n ≤ config.maxItemsPerLoop → InEffortRange
        (config.itemLoop stamp order r n (LoopConfig.enterRun state)).state.effortPoints) ↔
      countedEffort (payloads (stream snapshot.log r)) +
        (config.reportedEfforts r order config.maxItemsPerLoop state).sum < 2 ^ 31 := by
  obtain ⟨hphase, hlookup, horder, -⟩ := hit
  next w executor runs =>
  have hsnapshot : snapshot ∈ (s.workers w).snapshot? := by rw [hphase]; rfl
  have hread := (hinv.workers w).of_snapshot hsnapshot
  have htallied := h.snapshot w snapshot hsnapshot r
  have hstate : state.effortPoints = countedEffort (payloads (stream snapshot.log r)) := by
    rw [lookup_runStatesFromEvents] at hlookup
    rw [effortPoints_replayRun hlookup, ← htallied.charged]
    exact hread.order.chargedEffort_runEvents hread.past.sound.wellFormed r
  have hnonneg : 0 ≤ state.effortPoints := hstate ▸ htallied.counted_nonneg
  obtain ⟨env, network, rfl⟩ := hproduced w executor rfl
  rw [← hstate]
  exact inRange_itemLoop_iff horder.1 hnonneg
    fun ctx result hok => one_le_effort unicode parseJson hok

theorem tickExact_iff (h : s.Tallied) (hinv : s.Inv d) (hproduced : Produced unicode parseJson s a) :
    TickExact d s a ↔ MemoryFits d s a := by
  constructor
  · intro hexact config snapshot r state order hit
    exact (hit.inRange_iff h hinv hproduced).mp (hexact config snapshot r state order hit)
  · intro hfits config snapshot r state order hit
    exact (hit.inRange_iff h hinv hproduced).mpr (hfits config snapshot r state order hit)

theorem replaysExact_step (h : s.Tallied) (hinv : s.Inv d) (hstep : s.Step d a s')
    (hproduced : Produced unicode parseJson s a) :
    ReplaysExact s'.log ↔ ReplaysExact s.log ∧ BatchFits s a := by
  have hinv' : s'.Inv d := hstep.inv hinv
  have h' : s'.Tallied := h.step hinv hstep hproduced
  have hcounted : ∀ {x : World}, x.Tallied → x.Inv d →
      (ReplaysExact x.log ↔ ∀ r, countedEffort (payloads (stream x.log r)) < 2 ^ 31) := by
    intro x hx hxinv
    have hwf : WellFormed x.log := hxinv.sound.wellFormed
    refine (replaysExact_iff hwf fun r => (hx.log r).nonneg).trans ?_
    exact forall_congr' fun r => by rw [(hx.log r).charged]
  rw [hcounted h hinv, hcounted h' hinv']
  cases hstep.commit hinv with
  | nothing hbatch hlog =>
    rw [hlog]
    refine (and_iff_left ?_).symm
    intro snapshot r batch hsome
    rw [hbatch] at hsome
    cases hsome
  | @request k request draws seen rows ha hcommit =>
    have hzero : countedEffort (payloads rows) = 0 := countedEffort_of_quiet fun p hp =>
      EventPayload.charge?_of_orchestrated (hcommit.decided.orchestrated p hp)
    refine hcommit.appended.forall_stream_iff (P := fun ps => countedEffort ps < 2 ^ 31) ?_
    rw [countedEffort_append, hzero, Int.add_zero]
    refine (and_iff_left ?_).symm
    intro snapshot r batch hsome
    rw [ha] at hsome
    cases hsome
  | @batch w snapshot r batch rows hbatch hcommit =>
    obtain ⟨w', hw'⟩ := batch_of_batchOf hbatch
    have hnonneg : 0 ≤ countedEffort (payloads batch) := hw' ▸ (h.batch w').counted_nonneg
    have hfits : BatchFits s a ↔
        countedEffort (payloads (stream s.log r)) + countedEffort (payloads batch) < 2 ^ 31 := by
      unfold BatchFits
      rw [hbatch]
      simp
    refine hcommit.appended.forall_stream_iff (P := fun ps => countedEffort ps < 2 ^ 31) ?_
    rw [countedEffort_append, hcommit.payloads, hfits]
    omega

end steps

/-! ### When no sum overflows -/

/-- The runs in which no `i32` addition of efforts overflows, neither in the memory of a worker nor in
a reader of the log, are those in which the efforts reported for each run stay below `2 ^ 31`. -/
theorem effort_exact_iff {unicode : Unicode} {parseJson : String → Option Json} {d : Deployment}
    {s : World} :
    Reach (interleaving d) (fun s a => Produced unicode parseJson s a ∧
        MemoryFits d s a ∧ BatchFits s a) s ↔
      Reach (interleaving d) (fun s a => Produced unicode parseJson s a ∧ TickExact d s a) s ∧
        ReplaysExact s.log := by
  have htallied : ∀ {guard : World → Action → Prop} {x : World},
      Reach (interleaving d) (fun s a => Produced unicode parseJson s a ∧ guard s a) x →
        x.Tallied ∧ x.Inv d :=
    fun hx => ⟨.of_reach (hx.mono fun _ _ => And.left), .of_reach hx⟩
  have hexact : Reach (interleaving d)
        (fun s a => (Produced unicode parseJson s a ∧ TickExact d s a) ∧ BatchFits s a) s ↔
      Reach (interleaving d) (fun s a => Produced unicode parseJson s a ∧ TickExact d s a) s ∧
        ReplaysExact s.log := by
    refine Reach.iff_of_exact_within (I := fun x : World => ReplaysExact x.log) ?_ ?_
    · rintro x rfl
      refine (replaysExact_iff WellFormed.empty fun r => ?_).mpr fun r => ?_
      · exact fun p hp => absurd hp List.not_mem_nil
      · show (0 : Int) < 2 ^ 31
        decide
    · intro x a x' hx hstep hguard
      obtain ⟨h, hinv⟩ := htallied hx
      exact replaysExact_step h hinv hstep hguard.1
  rw [← hexact]
  constructor
  · intro hreach
    refine hreach.imp fun x a x' hx _ ⟨hproduced, hmemory, hbatch⟩ => ?_
    obtain ⟨h, hinv⟩ := htallied hx
    exact ⟨⟨hproduced, (tickExact_iff h hinv hproduced).mpr hmemory⟩, hbatch⟩
  · intro hreach
    refine hreach.imp fun x a x' hx _ ⟨⟨hproduced, hmemory⟩, hbatch⟩ => ?_
    have hpast : Reach (interleaving d) (fun s a => Produced unicode parseJson s a ∧
        (TickExact d s a ∧ BatchFits s a)) x :=
      hx.mono fun _ _ hguard => ⟨hguard.1.1, hguard.1.2, hguard.2⟩
    obtain ⟨h, hinv⟩ := htallied hpast
    exact ⟨hproduced, (tickExact_iff h hinv hproduced).mp hmemory, hbatch⟩

/-! ### An item with the largest effort -/

/-- An environment with a setting of `WORKER_EFFORT_PER_ITEM`. -/
def effortEnv (effort : String) : Env := fun name =>
  if name = "WORKER_EFFORT_PER_ITEM" then some effort else none

def effortExecutor (effort : String) : AgentExecutor :=
  (createExecutorFromEnv asciiUnicode (effortEnv effort)).execute asciiUnicode (fun _ => none)
    fun _ => .failed ""

def effortActions (effort : String) : List Action :=
  startActions ++ [.loadAll 0, .execute 0 (effortExecutor effort)] ++ appendActions 0

theorem effortActions_produced (effort : String) :
    ∀ a ∈ effortActions effort, ∀ s, Produced asciiUnicode (fun _ => none) s a := by
  intro a ha s w executor hexecute
  subst hexecute
  obtain ⟨rfl, rfl⟩ : w = 0 ∧ executor = effortExecutor effort := by
    simpa [effortActions, startActions, requestActions, appendActions] using ha
  exact ⟨effortEnv effort, _, rfl⟩

/-- An effort of `2 ^ 31 - 1` is reported for the only item of a run, and the progress chunk adds
`2 ^ 30 - 1`: no reader of the log can add the two up. -/
theorem effort_overflows :
    Reach (interleaving sampleDeployment) (Produced asciiUnicode fun _ => none)
        (World.init.after sampleDeployment (effortActions "2147483647")) ∧
      chargedEffort (payloads (stream (logAfterActions (effortActions "2147483647")) sampleRun)) =
        3221225470 ∧
      ¬ ReplaysExact (logAfterActions (effortActions "2147483647")) := by
  have hreach : Reach (interleaving sampleDeployment) (Produced asciiUnicode fun _ => none)
      (World.init.after sampleDeployment (effortActions "2147483647")) :=
    World.reach_after (.init rfl) (.guarded (by decide +kernel) (effortActions_produced _))
  have hcharged : chargedEffort
      (payloads (stream (logAfterActions (effortActions "2147483647")) sampleRun)) = 3221225470 := by
    decide +kernel
  refine ⟨hreach, hcharged, fun hexact => ?_⟩
  have hwf : WellFormed (logAfterActions (effortActions "2147483647")) :=
    (World.Inv.of_reach hreach).sound.wellFormed
  have hlt := (replaysExact_iff hwf fun r => ((World.Tallied.of_reach hreach).log r).nonneg).mp
    hexact sampleRun
  rw [hcharged] at hlt
  exact absurd hlt (by decide)

end SamtaDashboard

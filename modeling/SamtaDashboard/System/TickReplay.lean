import SamtaDashboard.Application.TickMemory
import SamtaDashboard.System.Projections
import SamtaDashboard.System.Schedule

/-!
# A tick and the replay of the log that it leaves

A worker keeps the state of a run in memory while it executes items, and stores it; the next tick
replays the log instead. Both agree on the status of the run and of its items. They do not agree on the
rest: a replay charges the progress chunks of a success as well, gives an item that was started to the
worker that started it, and counts the event of an executor error, which the memory does not
(`tick_commutes_iff`).
-/

namespace SamtaDashboard

open EventFold Transition

/-! ### Which events a worker groups under a run -/

/-- The worker's replay finds a run in such an event. -/
def EventPayload.isGrouped (p : EventPayload) : Bool := p.isRunStarted || p.runId?.isSome

theorem runIdForEvent_ne_none {e : EventEnvelope} :
    runIdForEvent e ≠ none ↔ e.payload.isGrouped := by
  unfold runIdForEvent EventPayload.isGrouped
  cases e.payload <;> simp [EventPayload.isRunStarted, EventPayload.runId?]

/-- Only the first event of a stream may be one that the worker leaves out, as the event that creates
a workspace or an agent is. -/
def GroupedTails (log : EventLog) : Prop := ∀ r, ∀ e ∈ (stream log r).tail, e.payload.isGrouped

theorem GroupedTails.append {log rows : EventLog} {r : Uuid} (h : GroupedTails log)
    (hrun : ∀ e ∈ rows, e.resourceId = r)
    (hrows : (∀ e ∈ rows, e.payload.isGrouped) ∨ stream log r = [] ∧ rows.tail = []) :
    GroupedTails (log ++ rows) := by
  intro r' e he
  rw [stream_append, stream_rows hrun] at he
  split at he
  · next heq =>
    subst heq
    rcases hrows with hrows | ⟨hnil, htail⟩
    · cases hs : stream log r' with
      | nil =>
        rw [hs, List.nil_append] at he
        exact hrows e (List.mem_of_mem_tail he)
      | cons x xs =>
        rw [hs, List.cons_append, List.tail_cons] at he
        rcases List.mem_append.mp he with he | he
        · exact h r' e (by rw [hs]; exact he)
        · exact hrows e he
    · rw [hnil, List.nil_append, htail] at he
      cases he
  · rw [List.append_nil] at he
    exact h r' e he

theorem Request.isGrouped_of_decide {request : Request} {draws : Draws}
    {events : List EventEnvelope} {ps : List EventPayload}
    (h : request.decide draws events = some ps) :
    (∀ p ∈ ps, p.isGrouped) ∨
      ps.tail = [] ∧ ∀ log, request.New draws log → stream log (request.resource draws) = [] := by
  have hchange : ∀ (r : Uuid) (status : String) (reason : Option String),
      statusChange r status reason events = some ps → ∀ p ∈ ps, p.isGrouped := by
    intro r status reason hchange
    obtain ⟨-, rfl⟩ := statusChange_eq_some.mp hchange
    exact List.forall_mem_singleton.mpr rfl
  cases request with
  | createWorkspace name | createAgentProfile name role =>
    obtain rfl := Option.some.inj h
    exact Or.inr ⟨rfl, fun _ hnew => hnew⟩
  | startRun workspaceId objective targetItemCount agentCount =>
    obtain rfl := Option.some.inj h
    refine Or.inl ?_
    rw [startRunPayloads_eq, List.forall_mem_cons]
    refine ⟨rfl, fun p hp => ?_⟩
    obtain ⟨x, -, rfl⟩ := Assignments.mem_payloads hp
    rfl
  | pauseRun r | resumeRun r | cancelRun r => exact Or.inl (hchange _ _ _ h)
  | retryRun order r =>
    obtain ⟨-, -, -, rfl⟩ := retryPayloads_eq_some.mp h
    refine Or.inl (List.forall_mem_cons.mpr ⟨rfl, fun p hp => ?_⟩)
    obtain ⟨x, -, rfl⟩ := Assignments.mem_payloads hp
    rfl

theorem isGrouped_of_advanced {config : LoopConfig} {r : Uuid} {state state' : RunState}
    {batch : List EventEnvelope} {executed : List (Uuid × Outcome)} {summary : Option String}
    (h : Advanced config r state state' batch executed summary) :
    ∀ p ∈ payloads batch, p.isGrouped := by
  intro p hp
  rw [h.payloads] at hp
  rcases List.mem_append.mp hp with hp | hp
  · obtain ⟨x, -, hp⟩ := mem_executedPayloads hp
    rw [EventPayload.isGrouped, (mem_outcome_payloads _ _ _ _ hp).1, Option.isSome_some,
      Bool.or_true]
  · obtain ⟨text, -, rfl⟩ := List.mem_map.mp hp
    rfl

theorem isGrouped_appendedRows {config : LoopConfig} {r : Uuid} {state state' : RunState}
    {batch : List EventEnvelope} {executed : List (Uuid × Outcome)} {summary : Option String}
    (h : Advanced config r state state' batch executed summary) (log : EventLog) :
    ∀ e ∈ appendedRows log r batch, e.payload.isGrouped := by
  intro e he
  have hmem : e.payload ∈ payloads (appendedRows log r batch) := List.mem_map_of_mem he
  rw [payloads_appendedRows] at hmem
  exact isGrouped_of_advanced h _ hmem

/-- What is pending was decided. -/
structure World.Grouped (s : World) : Prop where
  tails : GroupedTails s.log
  decided : ∀ k, ∀ x ∈ (s.requests k).pending?, ∃ events, x.1.decide x.2.1 events = some x.2.2

theorem World.Grouped.submitted {d : Deployment} {s s' : World} {k : Nat} (h : s.Grouped)
    (hstep : s.Step d (.submit k) s') :
    ∃ (request : Request) (draws : Draws) (events : List EventEnvelope) (ps : List EventPayload)
      (rows : List EventEnvelope), request.decide draws events = some ps ∧
      request.New draws s.log ∧ s'.log = s.log ++ rows ∧ payloads rows = ps ∧
        ∀ e ∈ rows, e.resourceId = request.resource draws := by
  cases hstep with
  | @submit k request draws ps revision seen log' hphase hnew hstamped happ =>
    obtain ⟨rfl, -⟩ := append_eq_ok.mp happ
    obtain ⟨events, hdecide⟩ := h.decided k (request, draws, ps) (by rw [hphase]; rfl)
    rw [map_bindTo_newEvents]
    exact ⟨request, draws, events, ps, _, hdecide, hnew, rfl, payloads_newEvents ..,
      fun _ => resourceId_newEvents⟩

theorem World.Grouped.step {d : Deployment} {s s' : World} {a : Action} (h : s.Grouped)
    (hinv : s.Inv d) (hstep : s.Step d a s') : s'.Grouped := by
  refine ⟨?_, fun k x hx => ?_⟩
  · cases hstep.commit hinv with
    | nothing _ hlog =>
      rw [hlog]
      exact h.tails
    | batch _ hcommit =>
      rw [hcommit.appended.log_eq]
      refine h.tails.append hcommit.appended.run (Or.inl fun e he => ?_)
      have hmem : e.payload ∈ payloads _ := List.mem_map_of_mem he
      rw [hcommit.payloads] at hmem
      obtain ⟨_, _, _, _, _, -, hadv⟩ := hcommit.prepared.advanced
      exact isGrouped_of_advanced hadv _ hmem
    | request ha _ =>
      subst ha
      obtain ⟨request, draws, events, ps, rows, hdecide, hnew, hlog, rfl, hrun⟩ := h.submitted hstep
      rw [hlog]
      refine h.tails.append hrun ?_
      rcases request.isGrouped_of_decide hdecide with hgrouped | ⟨htail, hnil⟩
      · exact Or.inl fun e he => hgrouped _ (List.mem_map_of_mem he)
      · refine Or.inr ⟨hnil s.log hnew, ?_⟩
        rwa [payloads, ← List.map_tail, List.map_eq_nil_iff] at htail
  · rcases hstep.pending_request k hx with hold | ⟨events, -, -, -, hdecide⟩
    · exact h.decided k x hold
    · exact ⟨events, hdecide⟩

theorem World.Grouped.of_reach {d : Deployment} {s : World} {guard : World → Action → Prop}
    (h : Reach (interleaving d) guard s) : s.Grouped := by
  refine h.invariant_of (K := World.Inv d) (fun _ => World.Inv.of_reach) ?_
    fun _ _ _ hinv h hstep _ => h.step hinv hstep
  rintro s rfl
  exact ⟨fun _ _ he => absurd he List.not_mem_nil, fun _ _ hx => by cases hx⟩

/-! ### What a worker reads of a run that was started -/

theorem exists_runStarted_of_workspaceId {events : List EventEnvelope} {state : RunState}
    (h : replayRun events = some state) (hworkspace : state.workspaceId.isNil = false) :
    ∃ e ∈ events, e.payload.isRunStarted := by
  rw [workspaceId_replayRun h] at hworkspace
  cases hlast : lastWrite EventPayload.workspace? (payloads events) with
  | none =>
    rw [hlast] at hworkspace
    cases hworkspace
  | some workspaceId =>
    obtain ⟨p, hp, hwrite⟩ := lastWrite_mem hlast
    obtain ⟨e, he, rfl⟩ := List.mem_map.mp hp
    refine ⟨e, he, ?_⟩
    cases hpayload : e.payload <;> rw [hpayload] at hwrite <;> first | rfl | cases hwrite

section read

variable {log : EventLog} {r : Uuid} {events : List EventEnvelope} {state : RunState}

theorem GroupedTails.stream (h : GroupedTails log) (hwf : WellFormed log) {e : EventEnvelope}
    (he : e ∈ stream log r) (hstarted : e.payload.isRunStarted) :
    ∀ x ∈ stream log r, x.payload.isGrouped := by
  have htail := h r
  have hnot := hwf.started r
  revert htail hnot he
  cases SamtaDashboard.stream log r with
  | nil => exact fun he => absurd he List.not_mem_nil
  | cons x xs =>
    intro he htail hnot
    rcases List.mem_cons.mp he with rfl | he
    · rw [List.forall_mem_cons]
      exact ⟨by rw [EventPayload.isGrouped, hstarted, Bool.true_or], htail⟩
    · rw [hnot e he] at hstarted
      cases hstarted

theorem InTimeOrder.runEvents_perm (h : InTimeOrder log events) (hwf : WellFormed log)
    (hgrouped : ∀ e ∈ stream log r, e.payload.isGrouped) :
    (runEvents events r).Perm (stream log r) := by
  have hlog : runEvents log r = stream log r := by
    refine List.filter_congr fun e he => ?_
    rw [decide_eq_decide]
    refine ⟨hwf.resourceId_eq he, fun hres => ?_⟩
    have hmem : e ∈ stream log r := mem_stream.mpr ⟨he, hres⟩
    exact hwf.runIdForEvent_eq hmem (runIdForEvent_ne_none.mpr (hgrouped e hmem))
  rw [← hlog]
  exact h.perm.filter _

theorem latestRevision_of_perm (h : replayRun events = some state) (hperm : events.Perm (stream log r))
    (hcons : Consecutive 0 (stream log r)) : state.latestRevision = (stream log r).length := by
  obtain ⟨e, rest, -, rfl⟩ := replayRun_eq_some h
  rw [RunState.latestRevision_foldl_apply, (hperm.map (·.revision)).foldl_eq]
  exact hcons.foldl_max.trans (Int.zero_add _)

theorem InTimeOrder.runEvents_append {log₀ rows : EventLog} {events' : List EventEnvelope}
    (h : InTimeOrder log₀ events) (h' : InTimeOrder (log ++ rows) events') (hwf₀ : WellFormed log₀)
    (hwf' : WellFormed (log ++ rows)) (hsame : stream log r = stream log₀ r)
    (hrun : ∀ e ∈ rows, e.resourceId = r) (hgrouped : ∀ e ∈ stream log r ++ rows, e.payload.isGrouped)
    (hsorted : rows.Pairwise (·.occurredAt ≤ ·.occurredAt))
    (hlater : ∀ e ∈ stream log r, ∀ b ∈ rows, e.occurredAt ≤ b.occurredAt) :
    runEvents events' r = runEvents events r ++ rows := by
  have hstream' : stream (log ++ rows) r = stream log r ++ rows := by
    rw [stream_append, stream_rows hrun, if_pos rfl]
  have hcons : Consecutive 0 (stream log r ++ rows) := hstream' ▸ hwf'.gapFree r
  have hperm : (runEvents events r).Perm (stream log r) := by
    rw [hsame]
    refine h.runEvents_perm hwf₀ fun e he => hgrouped e (List.mem_append_left _ ?_)
    rwa [hsame]
  have hperm' : (runEvents events' r).Perm (stream log r ++ rows) := by
    rw [← hstream'] at hgrouped ⊢
    exact h'.runEvents_perm hwf' hgrouped
  refine (hperm'.trans (hperm.append_right rows).symm).eq_of_pairwise ?_
    (h'.sorted.sublist List.filter_sublist) ?_
  · exact fun a b ha hb => hcons.eq_of_timeLe (hperm'.subset ha) ((hperm.append_right rows).subset hb)
  · have hrevisions := List.pairwise_append.mp hcons.pairwise
    refine List.pairwise_append.mpr ⟨h.sorted.sublist List.filter_sublist,
      (hsorted.and hrevisions.2.1).imp fun hab => timeLe_of_lt hab.1 hab.2, fun e he b hb => ?_⟩
    exact timeLe_of_lt (hlater e (hperm.subset he) b hb) (hrevisions.2.2 e (hperm.subset he) b hb)

end read

/-! ### A tick that nobody disturbs -/

/-- In `s` a worker reads a log whose replay has the entry `state` for run `r`, and goes on to process
the run; in `s'` it appends the batch, after which the log is `log'`. Nobody else writes to the run in
between, and the clock does not run backwards. -/
structure UndisturbedTick (d : Deployment) (config : LoopConfig) (stamp : Nat → Stamp)
    (order : List Uuid) (r : Uuid) (retries : Nat) (s s' : World) (state : RunState)
    (log' : EventLog) : Prop where
  loads : Reachable (interleaving d) s
  read : ∃ events, LoadAll s.log (.ok events) ∧ (runStatesFromEvents events).lookup r = some state
  processes : LoopConfig.skips state = false
  iterates : state.items.IsOrder order
  appends : Reachable (interleaving d) s'
  undisturbed : stream s'.log r = stream s.log r
  appended : appendEventsWithRetry s'.log r (config.advanceRun stamp order r state).2 retries =
    .ok log'
  monotone : Monotone fun k => (stamp k).now
  later : ∀ e ∈ stream s.log r, ∀ k, e.occurredAt ≤ (stamp k).now

section tick

variable {d : Deployment} {config : LoopConfig} {stamp : Nat → Stamp} {order : List Uuid} {r : Uuid}
  {retries : Nat} {s s' : World} {state : RunState} {log' : EventLog}

theorem UndisturbedTick.replays
    (h : UndisturbedTick d config stamp order r retries s s' state log') :
    ∃ rows, payloads rows = payloads (config.advanceRun stamp order r state).2 ∧
      Consecutive state.latestRevision rows ∧
      ∀ events', LoadAll log' (.ok events') → (runStatesFromEvents events').lookup r =
        some (rows.foldl RunState.apply state) := by
  obtain ⟨events, hload, hlookup⟩ := h.read
  rw [lookup_runStatesFromEvents] at hlookup
  have hread : InTimeOrder s.log events := (loadAll_eq_ok.mp hload).1
  have hwf : WellFormed s.log := (World.Inv.of_reach h.loads).sound.wellFormed
  have hwf' : WellFormed s'.log := (World.Inv.of_reach h.appends).sound.wellFormed
  obtain ⟨summary, hadv⟩ := config.advanceRun_spec stamp order r h.processes
  obtain ⟨⟨hi, hstamped⟩, -⟩ := config.advanceRun_stamped stamp order r state
  have happended := h.appended
  generalize (config.advanceRun stamp order r state).2 = batch at hadv hstamped happended ⊢
  generalize config.executions stamp order r config.maxItemsPerLoop (LoopConfig.enterRun state) =
    executed at hadv
  rw [appendEventsWithRetry_eq] at happended
  obtain ⟨-, hlog, -⟩ := hwf'.gapFree.appendAttempt_eq_ok.mp happended
  -- the run was started, so all of its stream counts
  have hgrouped : ∀ e ∈ stream s.log r, e.payload.isGrouped := by
    obtain ⟨e, he, hstarted⟩ := exists_runStarted_of_workspaceId hlookup hadv.workspace
    obtain ⟨he, hrun⟩ := List.mem_filter.mp he
    have hmem := hread.perm.subset he
    exact (World.Grouped.of_reach h.loads).tails.stream hwf
      (mem_stream.mpr ⟨hmem, hwf.resourceId_eq hmem (by simpa using hrun)⟩) hstarted
  have hitems : ∀ x ∈ executed, AssignedIn s'.log r x.1 := by
    intro x hx
    obtain ⟨e, he, hassigns⟩ := hadv.assignedIn hwf (fun _ he => hread.perm.subset he) hlookup x hx
    exact ⟨e, h.undisturbed ▸ he, hassigns⟩
  have happ : Appended s'.log log' r (appendedRows s'.log r batch) :=
    appended_rows (admissible_batch hadv hitems) hlog
  have hlatest : state.latestRevision = (stream s'.log r).length := by
    rw [h.undisturbed]
    exact latestRevision_of_perm hlookup (hread.runEvents_perm hwf hgrouped) (hwf.gapFree r)
  refine ⟨appendedRows s'.log r batch, payloads_appendedRows .., hlatest ▸ happ.consecutive,
    fun events' hload' => ?_⟩
  have hrows : runEvents events' r = runEvents events r ++ appendedRows s'.log r batch := by
    have hread' := (loadAll_eq_ok.mp hload').1
    have hstampedRows : StampedBy stamp 0 hi (appendedRows s'.log r batch) := hstamped.appendedRows
    rw [hlog] at hread'
    refine hread.runEvents_append hread' hwf (hlog ▸ happ.wellFormed hwf') h.undisturbed happ.run ?_
      (hstampedRows.sorted h.monotone) fun e he b hb => ?_
    · intro e he
      rcases List.mem_append.mp he with he | he
      · exact hgrouped e (h.undisturbed ▸ he)
      · exact isGrouped_appendedRows hadv _ e he
    · obtain ⟨k, -, htime⟩ := hstampedRows.exists_stamp hb
      rw [htime]
      exact h.later e (h.undisturbed ▸ he) k
  rw [lookup_runStatesFromEvents, hrows]
  exact replayRun_append hlookup _

/-- The state in memory at the end of a tick is the one that the replay of the appended log computes,
exactly if none of the executions succeeds, all that have a result are of the worker's own items, and
the last one has. -/
theorem tick_commutes_iff (h : UndisturbedTick d config stamp order r retries s s' state log')
    {events' : List EventEnvelope} (hload : LoadAll log' (.ok events')) :
    (∃ replayed, (runStatesFromEvents events').lookup r = some replayed ∧
      (config.advanceRun stamp order r state).1.Agrees replayed) ↔
        config.CommutesOn order r state := by
  obtain ⟨rows, hpayloads, hcons, hreplay⟩ := h.replays
  rw [hreplay events' hload, ← config.advanceRun_agrees_iff stamp h.processes h.iterates.1 hpayloads hcons]
  constructor
  · rintro ⟨replayed, heq, hagrees⟩
    obtain rfl := Option.some.inj heq
    exact hagrees
  · exact fun hagrees => ⟨_, rfl, hagrees⟩

end tick

/-! ### A run with one item -/

/-- The run of `startActions` as a worker reads it. -/
def startedRun : RunState :=
  ⟨sampleWorkspace, "running", .zero, 0, 2, 0, AList.insert ⟨10⟩ ⟨.assigned, some ⟨20⟩⟩ ∅⟩

def ownWorker (result : ExecutionResult) : LoopConfig := ⟨⟨⟨20⟩⟩, fun _ => .ok result, 2, true⟩

def ownTick (result : ExecutionResult) : RunState × List EventEnvelope :=
  (ownWorker result).advanceRun (countingStamp 200) [⟨10⟩] sampleRun startedRun

def ownTickLog (result : ExecutionResult) : EventLog :=
  logAfterActions startActions ++
    appendedRows (logAfterActions startActions) sampleRun (ownTick result).2

def failedResult : ExecutionResult := { sampleResult with success := false }

theorem undisturbedTick_ownWorker (result : ExecutionResult)
    (hids : ((ownTick result).2.map (·.id)).Nodup ∧ ∀ e ∈ (ownTick result).2,
      ∀ x ∈ logAfterActions startActions, x.id ≠ e.id) :
    UndisturbedTick sampleDeployment (ownWorker result) (countingStamp 200) [⟨10⟩] sampleRun 3
      (World.init.after sampleDeployment startActions)
      (World.init.after sampleDeployment startActions) startedRun (ownTickLog result) := by
  have hreach : Reachable (interleaving sampleDeployment)
      (World.init.after sampleDeployment startActions) :=
    World.reach_after (.init rfl) (by decide +kernel)
  have hwf : WellFormed (logAfterActions startActions) :=
    (World.Inv.of_reach hreach).sound.wellFormed
  have hearly : ∀ e ∈ stream (logAfterActions startActions) sampleRun, e.occurredAt ≤ 0 := by
    decide +kernel
  exact {
    loads := hreach
    read := ⟨logAfterActions startActions,
      loadAll_eq_ok.mpr ⟨⟨.refl _, by decide +kernel⟩, by decide +kernel⟩, rfl⟩
    processes := rfl
    iterates := by decide
    appends := hreach
    undisturbed := rfl
    appended := by
      rw [appendEventsWithRetry_eq]
      exact hwf.gapFree.appendAttempt_eq_ok.mpr ⟨by decide +kernel, rfl, hids⟩
    monotone := fun k k' hle => by
      show ((200 + k : Nat) : Int) ≤ ((200 + k' : Nat) : Int)
      omega
    later := fun e he k => le_trans (hearly e he) (Int.natCast_nonneg _) }

theorem tick_commutes_failure : ∃ replayed,
    (runStatesFromEvents (ownTickLog failedResult)).lookup sampleRun = some replayed ∧
      (ownTick failedResult).1.Agrees replayed :=
  (tick_commutes_iff (undisturbedTick_ownWorker failedResult (by decide +kernel))
    (loadAll_eq_ok.mpr ⟨⟨.refl _, by decide +kernel⟩, by decide +kernel⟩)).mpr (by decide +kernel)

/-- After a success with an effort of 2 the worker remembers 2, and a replay finds 3. -/
theorem tick_not_commutes :
    UndisturbedTick sampleDeployment (ownWorker sampleResult) (countingStamp 200) [⟨10⟩] sampleRun 3
      (World.init.after sampleDeployment startActions)
      (World.init.after sampleDeployment startActions) startedRun (ownTickLog sampleResult) ∧
    LoadAll (ownTickLog sampleResult) (.ok (ownTickLog sampleResult)) ∧
    (ownTick sampleResult).1.effortPoints = 2 ∧
    ((runStatesFromEvents (ownTickLog sampleResult)).lookup sampleRun).map (·.effortPoints) = some 3 ∧
    ¬ ∃ replayed, (runStatesFromEvents (ownTickLog sampleResult)).lookup sampleRun = some replayed ∧
      (ownTick sampleResult).1.Agrees replayed := by
  have hmemory : (ownTick sampleResult).1.effortPoints = 2 := by decide +kernel
  have hreplay : ((runStatesFromEvents (ownTickLog sampleResult)).lookup sampleRun).map
      (·.effortPoints) = some 3 := by decide +kernel
  refine ⟨undisturbedTick_ownWorker sampleResult (by decide +kernel),
    loadAll_eq_ok.mpr ⟨⟨.refl _, by decide +kernel⟩, by decide +kernel⟩, hmemory, hreplay, ?_⟩
  rintro ⟨replayed, hlookup, hagrees⟩
  rw [hlookup, Option.map_some, Option.some.injEq, ← hagrees.effortPoints, hmemory] at hreplay
  exact absurd hreplay (by decide)

end SamtaDashboard

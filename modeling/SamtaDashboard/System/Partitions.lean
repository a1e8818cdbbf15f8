import SamtaDashboard.System.Decisions
import SamtaDashboard.System.TickReplay

/-!
# One partition of the log

The orchestrator and the timeline select the events of a run by the stream that they are stored in,
the worker groups all events by `run_id_for_event`, and the rebuild by the run that a payload names.
`append` stores an event under the aggregate id that it is given, so that the three agree only because
every emitter passes the run that its payloads name (`Partitioned`). A step on one run then leaves
what all readers find of any other run as it is (`SameRun`), whatever the clocks show.
-/

namespace SamtaDashboard

open EventFold Transition

/-! ### The rebuild's groups -/

/-- The events that `rebuild_projections` folds into the entry of a run: the `RunStarted` events that
are stored under the run and the events whose payload names it. -/
def rebuildEvents (events : List EventEnvelope) (runId : Uuid) : List EventEnvelope :=
  events.filter fun e =>
    if e.payload.isRunStarted then e.resourceId = runId else e.payload.runId? = some runId

theorem rebuildEvents_eq_runEvents (events : List EventEnvelope) (runId : Uuid) :
    rebuildEvents events runId = runEvents events runId := by
  refine List.filter_congr fun e _ => ?_
  unfold runIdForEvent
  cases e.payload <;> simp [EventPayload.isRunStarted]

theorem RebuildState.lookup_runStates_group (events : List EventEnvelope) (runId : Uuid) :
    (fromEvents events).runStates.lookup runId =
      (fromEvents (rebuildEvents events runId)).runStates.lookup runId := by
  rw [lookup_runStates, lookup_runStates, rebuildEvents_eq_runEvents, runEvents, runEvents,
    List.filter_filter]
  simp only [Bool.and_self]

/-! ### Reading events that are all of one stream -/

section read

variable {log log' rows rows' : EventLog} {r : Uuid} {p : EventEnvelope → Bool}

theorem InTimeOrder.filter_perm (h : InTimeOrder log rows) (hp : ∀ e ∈ log, p e → e.resourceId = r) :
    (rows.filter p).Perm ((stream log r).filter p) := by
  have hlog : (stream log r).filter p = log.filter p := by
    rw [stream, List.filter_filter]
    refine List.filter_congr fun e he => ?_
    cases hpe : p e with
    | true => simp [hp e he hpe]
    | false => rfl
  rw [hlog]
  exact h.perm.filter p

theorem InTimeOrder.filter_eq_of_stream (h : InTimeOrder log rows) (h' : InTimeOrder log' rows')
    (hcons : Consecutive 0 (stream log r)) (hsame : stream log' r = stream log r)
    (hp : ∀ e ∈ log, p e → e.resourceId = r) (hp' : ∀ e ∈ log', p e → e.resourceId = r) :
    rows'.filter p = rows.filter p := by
  have hperm := h.filter_perm hp
  have hperm' := h'.filter_perm hp'
  rw [hsame] at hperm'
  refine (hperm'.trans hperm.symm).eq_of_pairwise (fun a b ha hb => ?_)
    (h'.sorted.sublist List.filter_sublist) (h.sorted.sublist List.filter_sublist)
  exact hcons.eq_of_timeLe (List.mem_of_mem_filter (hperm'.subset ha))
    (List.mem_of_mem_filter (hperm.subset hb))

theorem InTimeOrder.runEvents_perm_grouped (h : InTimeOrder log rows) (hwf : WellFormed log) :
    (runEvents rows r).Perm ((stream log r).filter (·.payload.isGrouped)) := by
  have hgrouped : (stream log r).filter (runIdForEvent · = some r) =
      (stream log r).filter (·.payload.isGrouped) := by
    refine List.filter_congr fun e he => ?_
    rw [Bool.eq_iff_iff, decide_eq_true_eq, ← runIdForEvent_ne_none]
    refine ⟨fun hrun => ?_, hwf.runIdForEvent_eq he⟩
    rw [hrun]
    exact Option.some_ne_none r
  rw [← hgrouped]
  exact h.filter_perm fun e he hrun => hwf.resourceId_eq he (by simpa using hrun)

end read

/-! ### The three groupings agree -/

/-- Every run begins with the plan of the `start_run` that created it. -/
def StartsWithPlan (log : EventLog) : Prop :=
  ∀ e ∈ log, e.payload.isRunStarted →
    ∃ (draws : Draws) (workspaceId : Uuid) (objective : String)
      (targetItemCount agentCount : Option UInt16), draws.resource = e.resourceId ∧
      startRunPayloads draws workspaceId objective targetItemCount agentCount <+:
        payloads (stream log e.resourceId)

/-- The events of a log lie in the streams of their runs, and all readers find the same events of a
run. -/
structure Partitioned (log : EventLog) : Prop where
  owned : ∀ e ∈ log, ∀ r, e.payload.runId? = some r → e.resourceId = r
  started : StartsWithPlan log
  rebuild : ∀ rows, InTimeOrder log rows → ∀ r, rebuildEvents rows r = runEvents rows r
  grouped : ∀ rows, InTimeOrder log rows → ∀ r,
    (runEvents rows r).Perm ((stream log r).filter (·.payload.isGrouped))
  selected : ∀ rows, InTimeOrder log rows → ∀ r, (∃ e ∈ stream log r, e.payload.isRunStarted) →
    (runEvents rows r).Perm (stream log r)

theorem StartsWithPlan.append {log rows : EventLog} {r : Uuid} (h : StartsWithPlan log)
    (hrun : ∀ e ∈ rows, e.resourceId = r)
    (hrows : ∀ e ∈ rows, e.payload.isRunStarted → stream log r = [] ∧
      ∃ draws workspaceId objective targetItemCount agentCount, draws.resource = r ∧
        payloads rows = startRunPayloads draws workspaceId objective targetItemCount agentCount) :
    StartsWithPlan (log ++ rows) := by
  intro e he hstarted
  rcases List.mem_append.mp he with he | he
  · obtain ⟨draws, workspaceId, objective, target, agents, hres, hprefix⟩ := h e he hstarted
    refine ⟨draws, workspaceId, objective, target, agents, hres, hprefix.trans ?_⟩
    rw [stream_append, payloads_append]
    exact List.prefix_append _ _
  · obtain ⟨hnil, draws, workspaceId, objective, target, agents, hres, hps⟩ := hrows e he hstarted
    refine ⟨draws, workspaceId, objective, target, agents, hres.trans (hrun e he).symm, [], ?_⟩
    rw [List.append_nil, hrun e he, stream_append, hnil, List.nil_append, stream_rows hrun, if_pos rfl,
      hps]

theorem StartsWithPlan.step {d : Deployment} {s s' : World} {a : Action}
    (h : StartsWithPlan s.log) (hinv : s.Inv d) (hgrouped : s.Grouped) (hstep : s.Step d a s') :
    StartsWithPlan s'.log := by
  cases hstep.commit hinv with
  | nothing _ hlog =>
    rw [hlog]
    exact h
  | batch _ hcommit =>
    rw [hcommit.appended.log_eq]
    refine h.append hcommit.appended.run fun e he hstarted => ?_
    have hmem : e.payload ∈ payloads _ := List.mem_map_of_mem he
    rw [hcommit.payloads] at hmem
    have hnot := hcommit.prepared.not_orchestrated _ hmem
    cases hp : e.payload <;> simp_all [EventPayload.isRunStarted, EventPayload.isOrchestrated]
  | request ha _ =>
    subst ha
    obtain ⟨request, draws, events, ps, rows, hdecide, hnew, hlog, hps, hrun⟩ :=
      hgrouped.submitted hstep
    rw [hlog]
    refine h.append hrun fun e he hstarted => ?_
    have hmem : e.payload ∈ ps := hps ▸ List.mem_map_of_mem he
    cases request with
    | startRun workspaceId objective target agents =>
      obtain rfl := Option.some.inj hdecide
      exact ⟨hnew.1, draws, workspaceId, objective, target, agents, rfl, hps⟩
    | createWorkspace name | createAgentProfile name role =>
      obtain rfl := Option.some.inj hdecide
      rw [List.mem_singleton.mp hmem] at hstarted
      cases hstarted
    | pauseRun r | resumeRun r | cancelRun r =>
      obtain ⟨-, rfl⟩ := statusChange_eq_some.mp hdecide
      rw [List.mem_singleton.mp hmem] at hstarted
      cases hstarted
    | retryRun order r =>
      obtain ⟨-, -, -, rfl⟩ := retryPayloads_eq_some.mp hdecide
      rcases List.mem_cons.mp hmem with heq | hassigned
      · rw [heq] at hstarted
        cases hstarted
      · obtain ⟨x, -, heq⟩ := Assignments.mem_payloads hassigned
        rw [heq] at hstarted
        cases hstarted

theorem Partitioned.of_reach {d : Deployment} {s : World} (h : Reachable (interleaving d) s) :
    Partitioned s.log := by
  have hwf : WellFormed s.log := (World.Inv.of_reach h).sound.wellFormed
  have hplan : StartsWithPlan s.log :=
    h.invariant_of (K := fun s => s.Inv d ∧ s.Grouped) (I := fun s => StartsWithPlan s.log)
      (fun _ hreach => ⟨World.Inv.of_reach hreach, World.Grouped.of_reach hreach⟩)
      (fun _ hinit e he => by
        rw [show _ = World.init from hinit] at he
        exact absurd he List.not_mem_nil)
      fun _ _ _ hknown hI hstep _ => hI.step hknown.1 hknown.2 hstep
  exact {
    owned := fun e he r hr => (hwf.owned e he r hr).symm
    started := hplan
    rebuild := fun rows _ r => rebuildEvents_eq_runEvents rows r
    grouped := fun rows hrows r => hrows.runEvents_perm_grouped hwf
    selected := fun rows hrows r ⟨e, he, hstarted⟩ =>
      hrows.runEvents_perm hwf ((World.Grouped.of_reach h).tails.stream hwf he hstarted) }

/-! ### The other runs -/

/-- Nothing changes for the readers of run `r`: what the orchestrator and the timeline load, the state
that a worker replays, the row of the run that a rebuild writes and the rows of its items. -/
structure SameRun (log log' : EventLog) (r : Uuid) : Prop where
  load : load log' r = load log r
  worker : ∀ rows rows', InTimeOrder log rows → InTimeOrder log' rows' →
    (runStatesFromEvents rows').lookup r = (runStatesFromEvents rows).lookup r
  row : ∀ rows rows', InTimeOrder log rows → InTimeOrder log' rows' →
    (RebuildState.fromEvents rows').runStates.lookup r =
      (RebuildState.fromEvents rows).runStates.lookup r
  items : ∀ rows rows', InTimeOrder log rows → InTimeOrder log' rows' → ∀ i, AssignedIn log r i →
    (RebuildState.fromEvents rows').itemStates.lookup i =
      (RebuildState.fromEvents rows).itemStates.lookup i

theorem WellFormed.resourceId_of_itemKey {log : EventLog} (h : WellFormed log) {r i : Uuid}
    (hi : AssignedIn log r i) : ∀ e ∈ log, RebuildState.itemKey e = some i → e.resourceId = r := by
  intro e he hkey
  obtain ⟨x, hx, hassigns⟩ := hi
  obtain ⟨hx, hres⟩ := mem_stream.mp hx
  rw [← hres]
  exact h.separate e he x hx i
    (EventPayload.itemId?_of_blockableStatus? (RebuildState.itemKey_eq_some.mp hkey))
    (itemId?_of_assigns hassigns)

theorem SameRun.of_stream {log log' : EventLog} {r : Uuid} (hwf : WellFormed log)
    (hwf' : WellFormed log') (hsame : stream log' r = stream log r) : SameRun log log' r := by
  have hevents : ∀ rows rows', InTimeOrder log rows → InTimeOrder log' rows' →
      runEvents rows' r = runEvents rows r := fun rows rows' h h' =>
    h.filter_eq_of_stream h' (hwf.gapFree r) hsame
      (fun e he hrun => hwf.resourceId_eq he (by simpa using hrun))
      fun e he hrun => hwf'.resourceId_eq he (by simpa using hrun)
  constructor
  · rw [SamtaDashboard.load, SamtaDashboard.load, hsame]
  · intro rows rows' h h'
    rw [lookup_runStatesFromEvents, lookup_runStatesFromEvents, hevents rows rows' h h']
  · intro rows rows' h h'
    rw [RebuildState.lookup_runStates, RebuildState.lookup_runStates, hevents rows rows' h h']
  · intro rows rows' h h' i hi
    have hi' : AssignedIn log' r i := by
      obtain ⟨e, he, hassigns⟩ := hi
      exact ⟨e, hsame ▸ he, hassigns⟩
    rw [RebuildState.lookup_itemStates, RebuildState.lookup_itemStates, RebuildState.itemEntry,
      RebuildState.itemEntry, foldl_stepAt_filter, foldl_stepAt_filter]
    rw [h.filter_eq_of_stream h' (hwf.gapFree r) hsame
      (fun e he hkey => hwf.resourceId_of_itemKey hi e he (by simpa using hkey))
      fun e he hkey => hwf'.resourceId_of_itemKey hi' e he (by simpa using hkey)]

/-- Runs do not interfere: in every log of an interleaving the three groupings agree, and a step on one
run leaves every other run as it is. -/
theorem runs_apart {d : Deployment} {s : World} (h : Reachable (interleaving d) s) :
    Partitioned s.log ∧ ∀ a s', s.Step d a s' → ∀ r, s.target a ≠ some r →
      SameRun s.log s'.log r := by
  have hinv := World.Inv.of_reach h
  refine ⟨.of_reach h, fun a s' hstep r htarget => ?_⟩
  exact .of_stream hinv.sound.wellFormed (hstep.inv hinv).sound.wellFormed (hstep.stream_eq htarget)

theorem runs_apart_late : Partitioned (logAfterActions lateActions) ∧
    ∀ a s', (World.init.after sampleDeployment lateActions).Step sampleDeployment a s' → ∀ r,
      (World.init.after sampleDeployment lateActions).target a ≠ some r →
        SameRun (logAfterActions lateActions) s'.log r :=
  runs_apart lateActions_reachable

end SamtaDashboard

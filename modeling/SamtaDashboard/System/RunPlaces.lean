import SamtaDashboard.System.CurrentRows
import SamtaDashboard.System.ReadCut

/-!
# The workspace of a run

Five places write the workspace of a run: `create_run` from its request, `retry_run` from the JSON of the
`run_started` row, the worker from its replay, the rebuild from its fold, and the update of a row leaves
it. In every interleaving, whatever is stale about a row, its workspace is the one that the run was
started in (`Board.Placed`), and `list_runs` shows it there (`listRuns_placed`).
-/

namespace SamtaDashboard

open EventFold Transition

/-- The run has a stream, and it was started in no other workspace. -/
structure PlacedIn (log : EventLog) (r workspaceId : Uuid) : Prop where
  exists_run : stream log r ≠ []
  started : ∀ w o, .runStarted w o ∈ payloads (stream log r) → w = workspaceId

section placed

variable {log log' : EventLog} {r : Uuid}

theorem WellFormed.started_mem (hwf : WellFormed log) (hlog : log' <+: log) (hr : stream log' r ≠ [])
    {w : Uuid} {o : String} (h : .runStarted w o ∈ payloads (stream log r)) :
    .runStarted w o ∈ payloads (stream log' r) := by
  obtain ⟨rest, hrest⟩ := stream_mono hlog r
  obtain ⟨first, later, hcons⟩ := List.exists_cons_of_ne_nil hr
  rw [← hrest, payloads_append] at h
  rcases List.mem_append.mp h with h | h
  · exact h
  · obtain ⟨e, he, hpayload⟩ := List.mem_map.mp h
    have hfalse := hwf.started r e (by
      rw [← hrest, hcons, List.cons_append, List.tail_cons]
      exact List.mem_append_right _ he)
    rw [hpayload] at hfalse
    cases hfalse

theorem WellFormed.started_unique (hwf : WellFormed log) {w w' : Uuid} {o o' : String}
    (h : .runStarted w o ∈ payloads (stream log r)) (h' : .runStarted w' o' ∈ payloads (stream log r)) :
    w = w' := by
  obtain ⟨e, he, hpayload⟩ := List.mem_map.mp h
  obtain ⟨e', he', hpayload'⟩ := List.mem_map.mp h'
  have hfirst : ∀ x ∈ stream log r, x.payload.isRunStarted → (stream log r).head? = some x := by
    intro x hx hstarted
    cases hs : stream log r with
    | nil => rw [hs] at hx; cases hx
    | cons first rest =>
      rw [hs] at hx
      rcases List.mem_cons.mp hx with rfl | hx
      · rfl
      · have hfalse := hwf.started r x (by rw [hs]; exact hx)
        rw [hstarted] at hfalse
        cases hfalse
  have hsame := (hfirst e he (by rw [hpayload]; rfl)).symm.trans (hfirst e' he' (by rw [hpayload']; rfl))
  obtain rfl := Option.some.inj hsame
  rw [hpayload] at hpayload'
  exact (EventPayload.runStarted.inj hpayload').1

theorem PlacedIn.mono {workspaceId : Uuid} (h : PlacedIn log' r workspaceId) (hwf : WellFormed log)
    (hlog : log' <+: log) : PlacedIn log r workspaceId :=
  ⟨stream_ne_nil_mono hlog h.exists_run,
    fun w o hmem => h.started w o (hwf.started_mem hlog h.exists_run hmem)⟩

theorem PlacedIn.of_started (hwf : WellFormed log) {w : Uuid} {o : String}
    (h : .runStarted w o ∈ payloads (stream log r)) : PlacedIn log r w := by
  refine ⟨fun hnil => ?_, fun w' o' h' => hwf.started_unique h' h⟩
  rw [hnil] at h
  cases h

end placed

/-! ### What the writers find -/

section writers

variable {log : EventLog} {r : Uuid} {events : List EventEnvelope}

theorem started_of_fetchRunWorkspace {workspaceId : Uuid}
    (h : fetchRunWorkspace log r = .ok (some workspaceId)) :
    ∃ o, .runStarted workspaceId o ∈ payloads (stream log r) := by
  unfold fetchRunWorkspace at h
  dsimp only at h
  split at h
  · cases h
  · next row hfind =>
    obtain ⟨e, he, rfl⟩ := List.mem_map.mp (List.mem_of_find?_eq_some hfind)
    have hrow := List.find?_some hfind
    rw [Bool.and_eq_true, decide_eq_true_eq] at hrow
    have htype : e.payload.eventType.asStr = "run_started" := hrow.1
    cases hp : e.payload with
    | runStarted w o =>
      have hget : ((EventRow.ofEnvelope e).payload.get "workspace_id").bind Json.asStr =
          some w.toText := by
        rw [EventRow.ofEnvelope, hp]
        rfl
      simp only [hget, Uuid.parseStr_toText] at h
      cases h
      exact ⟨o, hp ▸ List.mem_map_of_mem he⟩
    | _ =>
      rw [hp] at htype
      simp [EventPayload.eventType, EventType.asStr] at htype

theorem EventPayload.workspace?_eq_some {p : EventPayload} {w : Uuid} (h : p.workspace? = some w) :
    ∃ o, p = .runStarted w o := by
  cases p <;> simp_all [workspace?]

/-- A worker has found the start of a run whose workspace it knows. -/
theorem started_of_replayRun (hwf : WellFormed log) (hevents : ∀ e ∈ events, e ∈ log) {state : RunState}
    (hstate : replayRun (runEvents events r) = some state) (hworkspace : state.workspaceId.isNil = false) :
    ∃ o, .runStarted state.workspaceId o ∈ payloads (stream log r) := by
  rw [workspaceId_replayRun hstate] at hworkspace ⊢
  cases hlast : lastWrite EventPayload.workspace? (payloads (runEvents events r)) with
  | none => rw [hlast] at hworkspace; cases hworkspace
  | some w =>
    obtain ⟨p, hp, hw⟩ := lastWrite_mem hlast
    obtain ⟨o, rfl⟩ := EventPayload.workspace?_eq_some hw
    obtain ⟨e, he, hpayload⟩ := List.mem_map.mp hp
    obtain ⟨he, hrun⟩ := List.mem_filter.mp he
    refine ⟨o, ?_⟩
    rw [Option.getD_some, ← hpayload]
    exact List.mem_map_of_mem
      (mem_stream.mpr ⟨hevents e he, hwf.resourceId_eq (hevents e he) (of_decide_eq_true hrun)⟩)

theorem RebuildState.workspaceId_lookup {row : AgentRunProjection}
    (h : (fromEvents events).runStates.lookup r = some row) :
    row.workspaceId = (lastWrite EventPayload.workspace? (payloads (runEvents events r))).getD .nil := by
  have hstep : ∀ (entry : Option AgentRunProjection) (e : EventEnvelope),
      ((some (runRow e entry)).elim Uuid.nil (·.workspaceId)) =
        (e.payload.workspace?).getD (entry.elim Uuid.nil (·.workspaceId)) := by
    intro entry e
    cases hp : e.payload <;> cases entry <;> simp [runRow, hp, newRun, EventPayload.workspace?]
  have hfold := foldl_register (f := fun entry e => some (runRow e entry))
    (g := fun entry : Option AgentRunProjection => entry.elim Uuid.nil (·.workspaceId))
    (w := fun e : EventEnvelope => e.payload.workspace?) hstep none (runEvents events r)
  rw [← lookup_runStates, h, lastWrite_payloads] at hfold
  exact hfold

/-- A rebuild that has read an event of the run has read its start. -/
theorem placedIn_of_rebuilt (hwf : WellFormed log) {read : EventLog} (hread : read <+: log)
    (hperm : events.Perm read) {row : AgentRunProjection}
    (h : (RebuildState.fromEvents events).runStates.lookup r = some row) :
    PlacedIn log r row.workspaceId := by
  have hmem : ∀ e ∈ events, e ∈ log := fun e he => hread.subset (hperm.subset he)
  obtain ⟨e, he, hrun⟩ := (RebuildState.isSome_lookup_runStates events r).mp (by rw [h]; rfl)
  have hstream : stream read r ≠ [] := List.ne_nil_of_mem
    (mem_stream.mpr ⟨hperm.subset he, hwf.resourceId_eq (hmem e he) hrun⟩)
  refine ⟨stream_ne_nil_mono hread hstream, fun w o hstarted => ?_⟩
  obtain ⟨x, hx, hpayload⟩ := List.mem_map.mp (hwf.started_mem hread hstream hstarted)
  obtain ⟨hx, hres⟩ := mem_stream.mp hx
  have hxrun : x ∈ runEvents events r := by
    refine List.mem_filter.mpr ⟨hperm.mem_iff.mpr hx, decide_eq_true ?_⟩
    rw [runIdForEvent, hpayload, hres]
  have hxmem : .runStarted w o ∈ payloads (runEvents events r) := hpayload ▸ List.mem_map_of_mem hxrun
  rw [RebuildState.workspaceId_lookup h]
  cases hlast : lastWrite EventPayload.workspace? (payloads (runEvents events r)) with
  | none => exact absurd (lastWrite_eq_none.mp hlast _ hxmem) nofun
  | some w' =>
    obtain ⟨p, hp, hw⟩ := lastWrite_mem hlast
    obtain ⟨o', rfl⟩ := EventPayload.workspace?_eq_some hw
    obtain ⟨y, hy, hypayload⟩ := List.mem_map.mp hp
    obtain ⟨hy, hyrun⟩ := List.mem_filter.mp hy
    have hymem : .runStarted w' o' ∈ payloads (stream log r) := hypayload ▸ List.mem_map_of_mem
      (mem_stream.mpr ⟨hmem y hy, hwf.resourceId_eq (hmem y hy) (of_decide_eq_true hyrun)⟩)
    exact hwf.started_unique hstarted hymem

end writers

/-! ### The tables -/

/-- The workspace that a write brings along, for a row or for one that is not there yet. -/
def RowWrite.workspace? : RowWrite → Option Uuid
  | insert workspaceId => some workspaceId
  | fetch _ => none
  | sync workspaceId _ => workspaceId
  | update state _ => if state.workspaceId.isNil then none else some state.workspaceId

def ProjectionStore.Placed (log : EventLog) (store : ProjectionStore) : Prop :=
  ∀ r row, store.runs r = some row → PlacedIn log r row.workspaceId

def PendingWrite.Placed (log : EventLog) (x : PendingWrite) : Prop :=
  ∀ workspaceId ∈ x.write.workspace?, PlacedIn log x.source.runId workspaceId

def RebuildPhase.Placed (log : EventLog) : RebuildPhase → Prop
  | .writing _ _ runs _ => ∀ row ∈ runs, PlacedIn log row.runId row.workspaceId
  | _ => True

structure Board.Placed (s : Board) : Prop where
  store : s.store.Placed s.world.log
  pending : ∀ p, ∀ x ∈ s.pending p, x.Placed s.world.log
  rebuilds : ∀ j, (s.rebuilds j).Placed s.world.log

section statements

variable {log : EventLog} {store store' : ProjectionStore}

theorem ProjectionStore.Placed.upsert (h : store.Placed log) {row : AgentRunProjection}
    (hrow : PlacedIn log row.runId row.workspaceId) : (store.upsertRunProjection row).Placed log := by
  intro r row' hrow'
  rw [runs_upsert] at hrow'
  split at hrow'
  · next heq =>
    obtain rfl := Option.some.inj hrow'
    exact heq ▸ hrow
  · exact h r row' hrow'

theorem ProjectionStore.Placed.perform (h : store.Placed log) (hkeyed : store.Keyed) {x : PendingWrite}
    (hx : x.Placed log) {now : Time}
    (hperform : x.write.perform x.source.runId now store = some store') : store'.Placed log := by
  unfold PendingWrite.Placed at hx
  cases hwrite : x.write with
  | insert workspaceId =>
    rw [hwrite] at hperform hx
    obtain rfl := Option.some.inj hperform
    exact h.upsert (hx workspaceId rfl)
  | fetch status =>
    rw [hwrite] at hperform
    cases hperform
  | sync workspaceId status =>
    rw [hwrite] at hperform hx
    unfold RowWrite.perform syncProjectionStatus at hperform
    cases hrow : store.runs x.source.runId with
    | some row =>
      rw [hrow] at hperform
      obtain rfl := Option.some.inj hperform
      have hplaced : PlacedIn log row.runId row.workspaceId := hkeyed _ row hrow ▸ h _ row hrow
      exact h.upsert hplaced
    | none =>
      rw [hrow] at hperform
      cases workspaceId with
      | none => cases hperform
      | some workspaceId =>
        obtain rfl := Option.some.inj hperform
        exact h.upsert (hx workspaceId rfl)
  | update state batch =>
    rw [hwrite] at hperform hx
    obtain rfl := Option.some.inj hperform
    have hevents : (batch.foldl (projectEvent state x.source.runId) store).Placed log := by
      intro r row hrow
      rw [runs_projectEvents] at hrow
      exact h r row hrow
    unfold updateRunProjections
    dsimp only
    split
    · exact hevents
    · next hnil =>
      refine hevents.upsert (hx state.workspaceId ?_)
      rw [RowWrite.workspace?, if_neg hnil]
      rfl

end statements

section steps

variable {d : Deployment} {s s' : Board} {a : BoardAction}

theorem Board.Placed.init : Board.init.Placed where
  store := fun _ _ hrow => nomatch hrow
  pending := fun _ _ hx => absurd hx (Option.not_mem_none _)
  rebuilds := fun _ => trivial

theorem Board.Placed.setPending (h : s.Placed) (p : Process) {pending : Option PendingWrite}
    (hpending : ∀ x ∈ pending, x.Placed s.world.log) : (s.setPending p pending).Placed := by
  refine ⟨h.store, fun p' x hx => ?_, h.rebuilds⟩
  rw [Board.pending_setPending] at hx
  split at hx
  · exact hpending x hx
  · exact h.pending p' x hx

theorem Board.Placed.setRebuild (h : s.Placed) (j : Nat) {phase : RebuildPhase}
    (hphase : phase.Placed s.world.log) : (s.setRebuild j phase).Placed := by
  refine ⟨h.store, h.pending, fun j' => ?_⟩
  rw [Board.rebuilds_setRebuild]
  split
  · exact hphase
  · exact h.rebuilds j'

theorem Board.Placed.grow (h : s.Placed) {world : World} (hwf : WellFormed world.log)
    (hlog : s.world.log <+: world.log) : Board.Placed { s with world := world } := by
  refine ⟨fun r row hrow => (h.store r row hrow).mono hwf hlog,
    fun p x hx workspaceId hw => (h.pending p x hx workspaceId hw).mono hwf hlog, fun j => ?_⟩
  have hj := h.rebuilds j
  show (s.rebuilds j).Placed world.log
  cases hphase : s.rebuilds j with
  | writing read events runs items =>
    rw [hphase] at hj
    exact fun row hrow => (hj row hrow).mono hwf hlog
  | _ => trivial

theorem Board.Inv.handlerWrite_placed (hinv : s.Inv d)
    (hruled : ∀ k, (s.world.requests k).Ruled s.world.log) {world : World} {k : Nat}
    (hstep : s.world.Step d (.submit k) world) (own : List EventEnvelope) :
    ∀ x ∈ s.handlerWrite k own, x.Placed world.log := by
  intro x hx workspaceId hworkspace
  obtain ⟨request, draws, ps, revision, seen, hphase, -, -, happ⟩ := hstep.requestAppended hinv.world
  have hdecide : ∃ events, request.decide draws events = some ps :=
    (hruled k (request, draws, ps) (by rw [hphase]; rfl)).1
  obtain ⟨events, hdecide⟩ := hdecide
  rw [Board.handlerWrite, hphase] at hx
  obtain ⟨write, hwrite, rfl⟩ := Option.map_eq_some_iff.mp (Option.mem_def.mp hx)
  have hwf : WellFormed world.log := happ.wellFormed hinv.world.sound.wellFormed
  cases request with
  | createWorkspace | createAgentProfile => cases hwrite
  | startRun w objective target agents =>
    obtain rfl := Option.some.inj hwrite
    obtain rfl := Option.some.inj hworkspace
    refine PlacedIn.of_started hwf (o := objective) ?_
    have hpayloads : payloads (stream world.log draws.resource) = _ :=
      happ.payloads_stream ((Request.startRun w objective target agents).resource draws)
    show _ ∈ payloads (stream world.log draws.resource)
    rw [hpayloads, if_pos rfl, payloads_newEvents, ← Option.some.inj hdecide, startRunPayloads_eq]
    exact List.mem_append_right _ List.mem_cons_self
  | pauseRun | resumeRun | cancelRun | retryRun =>
    obtain rfl := Option.some.inj hwrite
    cases hworkspace

theorem Board.Inv.workerWrite_placed (hinv : s.Inv d) (hremembers : s.Remembers d) {world : World}
    {w : Nat} (hstep : s.world.Step d (.append w) world) (own : List EventEnvelope) :
    ∀ x ∈ s.workerWrite w own, x.Placed world.log := by
  intro x hx workspaceId hworkspace
  obtain ⟨snapshot, runs, r, batch, latest, retries, _, rows, hphase, hcommit⟩ :=
    hstep.batchCommitted hinv.world
  obtain ⟨executor, state, state', executed, summary, hmemory, hstate, hadv⟩ :=
    hremembers w _ _ _ _ _ _ hphase
  rw [Board.workerWrite, hphase, hmemory] at hx
  obtain rfl := Option.some.inj hx
  have hknown : state'.workspaceId.isNil = false := by rw [hadv.workspaceId, hadv.workspace]
  rw [RowWrite.workspace?, hknown] at hworkspace
  obtain rfl := Option.some.inj hworkspace
  have hsnapshot := hcommit.read.past.sound.wellFormed
  obtain ⟨o, hstarted⟩ := started_of_replayRun hsnapshot (fun e he => hcommit.read.mem he) hstate
    hadv.workspace
  rw [hadv.workspaceId]
  exact (PlacedIn.of_started hsnapshot hstarted).mono (hstep.inv hinv.world).sound.wellFormed
    (hcommit.read.past.later.2.trans (hstep.log_mono hinv.world))

theorem Board.Placed.step (h : s.Placed) (hinv : s.Inv d)
    (hruled : ∀ k, (s.world.requests k).Ruled s.world.log) (hremembers : s.Remembers d)
    (hstep : s.Step d a s') : s'.Placed := by
  have hwf : WellFormed s.world.log := hinv.world.sound.wellFormed
  cases hstep with
  | @act a world _ _ hstep =>
    have hgrow := h.grow (hstep.inv hinv.world).sound.wellFormed (hstep.log_mono hinv.world)
    cases a with
    | decide => exact ⟨hgrow.store, hgrow.pending, hgrow.rebuilds⟩
    | submit k => exact hgrow.setPending _ (hinv.handlerWrite_placed hruled hstep _)
    | append w => exact hgrow.setPending _ (hinv.workerWrite_placed hremembers hstep _)
    | _ => exact hgrow
  | execute => exact ⟨h.store, h.pending, h.rebuilds⟩
  | @fetch p x status workspaceId hpending hwrite hfetch =>
    refine h.setPending p fun y hy w hw => ?_
    obtain rfl := Option.some.inj hy
    obtain rfl : workspaceId = some w := hw
    obtain ⟨o, hstarted⟩ := started_of_fetchRunWorkspace hfetch
    exact .of_started hwf hstarted
  | @write p now x store hpending hperform =>
    have hwritten : (s.write x store).Placed :=
      ⟨h.store.perform hinv.keyed (h.pending p x hpending) hperform, h.pending, h.rebuilds⟩
    exact hwritten.setPending p fun _ hy => absurd hy (Option.not_mem_none _)
  | giveUp => exact h.setPending _ fun _ hy => absurd hy (Option.not_mem_none _)
  | rebuildLoad => exact h.setRebuild _ trivial
  | @rebuildClear j read events runOrder itemOrder hphase =>
    have hj := hinv.rebuilds j
    rw [hphase] at hj
    have hcleared : Board.Placed { s with store := s.store.clear, basis := fun _ => ⟨[], []⟩ } := by
      refine ⟨fun r row hrow => ?_, h.pending, h.rebuilds⟩
      cases hrow
    refine hcleared.setRebuild j fun row hrow => ?_
    obtain ⟨r, -, hlookup⟩ := List.mem_filterMap.mp hrow
    obtain rfl := RebuildState.runId_of_lookup hlookup
    exact placedIn_of_rebuilt hwf hj.1 hj.2 hlookup
  | @rebuildRun j read events row runs items hphase =>
    have hj := h.rebuilds j
    rw [hphase] at hj
    have hrow : (s.setRow (s.store.upsertRunProjection row) row.runId
        ⟨(Source.mk row.runId read events []).basis,
          (Source.mk row.runId read events []).basis⟩).Placed :=
      ⟨h.store.upsert (hj row List.mem_cons_self), h.pending, h.rebuilds⟩
    exact hrow.setRebuild j fun row' hrow' => hj row' (List.mem_cons_of_mem _ hrow')
  | @rebuildItem j read events item items hphase =>
    have hitem : Board.Placed { s with store := s.store.upsertWorkItemProjection item } :=
      ⟨h.store, h.pending, h.rebuilds⟩
    exact hitem.setRebuild j fun _ hrow => absurd hrow List.not_mem_nil
  | rebuildStop => exact h.setRebuild _ trivial

theorem Board.Placed.of_reach (h : Reachable (projecting d) s) : s.Placed := by
  refine h.invariant_of (K := fun s => s.Inv d ∧ (∀ k, (s.world.requests k).Ruled s.world.log) ∧
    s.Remembers d) (fun s hs => ⟨Board.Inv.of_reach hs, Board.ruled_of_reach hs,
      Board.remembers_of_reach hs⟩) ?_ ?_
  · rintro s rfl
    exact .init
  · exact fun s a s' hknown hs hstep _ => hs.step hknown.1 hknown.2.1 hknown.2.2 hstep

end steps

/-! ### `list_runs` -/

/-- In every interleaving of requests, workers and rebuilds `list_runs` shows each row of the table once,
the latest update first, each under the workspace that its run was started in. -/
theorem listRuns_placed {d : Deployment} {s : Board} (h : Reachable (projecting d) s)
    {seen : Statements} {view : DbView} (hseen : seen 0 = .ok view)
    (hview : view.Shows s.world.log s.store) :
    ∃ runs, listRuns seen = .ok runs ∧ (runs.map (·.runId)).Nodup ∧
      runs.Pairwise (fun a b => b.updatedAt ≤ a.updatedAt) ∧
      (∀ r, (∃ run ∈ runs, run.runId = r) ↔ (s.store.runs r).isSome) ∧
      ∀ run ∈ runs, ∀ w o, .runStarted w o ∈ payloads (stream s.world.log run.runId) →
        w = run.workspaceId := by
  have hinv := Board.Inv.of_reach h
  have hplaced := (Board.Placed.of_reach h).store
  have hperm := List.perm_insertionSort (fun a b : AgentRunProjection => b.updatedAt ≤ a.updatedAt) view.runs
  have hruns : listRuns seen = .ok ((view.runs.insertionSort fun a b => b.updatedAt ≤ a.updatedAt).map
      .ofRow) := by
    rw [listRuns, Statements.query, hseen]
    rfl
  refine ⟨_, hruns, ?_, ?_, fun r => ?_, fun run hrun => ?_⟩
  · rw [List.map_map]
    exact (hperm.map _).nodup_iff.mpr hview.runIds
  · exact List.pairwise_map.mpr (List.pairwise_insertionSort _ _)
  · rw [Option.isSome_iff_exists]
    constructor
    · rintro ⟨run, hrun, rfl⟩
      obtain ⟨row, hrow, rfl⟩ := List.mem_map.mp hrun
      exact ⟨row, (hview.runs row).mp (hperm.mem_iff.mp hrow)⟩
    · rintro ⟨row, hrow⟩
      obtain rfl := hinv.keyed r row hrow
      exact ⟨_, List.mem_map_of_mem (hperm.mem_iff.mpr ((hview.runs row).mpr hrow)), rfl⟩
  · obtain ⟨row, hrow, rfl⟩ := List.mem_map.mp hrun
    exact (hplaced _ row ((hview.runs row).mp (hperm.mem_iff.mp hrow))).started

/-- While the write of the worker is pending. -/
theorem listRuns_placed_promptWriteActions :
    ∃ s : Board, ∃ runs, listRuns (fun _ => .ok (.of s.world.log s.store)) = .ok runs ∧
      runs.map (fun run => (run.runId, run.workspaceId)) = [(sampleRun, sampleWorkspace)] ∧
      ∀ run ∈ runs, ∀ w o, .runStarted w o ∈ payloads (stream s.world.log run.runId) →
        w = run.workspaceId := by
  have hvalues : (listRuns fun _ => .ok (.of (boardAfter promptWriteActions).world.log
      (boardAfter promptWriteActions).store)).toOption.map (·.map fun run =>
        (run.runId, run.workspaceId)) = some [(sampleRun, sampleWorkspace)] := by decide +kernel
  have hreach := boardAfter_reachable promptWriteActions
  let seen : Statements := fun _ => .ok (.of (boardAfter promptWriteActions).world.log
    (boardAfter promptWriteActions).store)
  obtain ⟨runs, hruns, -, -, -, hplaced⟩ := @listRuns_placed _ _ hreach seen _ rfl
    ((Board.Backed.of_reach hreach).store.shows (Board.Inv.of_reach hreach).keyed)
  rw [hruns] at hvalues
  exact ⟨_, runs, hruns, Option.some.inj hvalues, hplaced⟩

end SamtaDashboard

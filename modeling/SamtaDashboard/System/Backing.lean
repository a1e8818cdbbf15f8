import SamtaDashboard.Replays.RebuildTables
import SamtaDashboard.System.Board

/-!
# The rows of the tables are backed by the log

A handler or a worker writes to the tables after its append, and a rebuild after its `load_all`. So in
every interleaving of them a run has a row only if its stream is not empty, and an item only if an event
of the run that the row names is about it (`Board.Backed`). The same goes for the histories of the service
(`service_backed`).
-/

namespace SamtaDashboard

open EventFold Transition

/-- Some event of the item's run is about the item. -/
def NamedIn (log : EventLog) (row : WorkItemProjection) : Prop :=
  ∃ e ∈ stream log row.runId, e.payload.itemId? = some row.itemId

structure ProjectionStore.Backed (log : EventLog) (store : ProjectionStore) : Prop where
  runs : ∀ r, store.runs r ≠ none → stream log r ≠ []
  items : ∀ i row, store.items i = some row → row.itemId = i ∧ NamedIn log row

/-- A write concerns a run with a stream, and a worker's one events of that stream. -/
structure PendingWrite.Backed (log : EventLog) (x : PendingWrite) : Prop where
  stream : stream log x.source.runId ≠ []
  batch : ∀ state batch, x.write = .update state batch →
    ∀ p ∈ payloads batch, p ∈ payloads (SamtaDashboard.stream log x.source.runId)

def RebuildPhase.Backed (log : EventLog) : RebuildPhase → Prop
  | .writing _ _ runs items =>
    (∀ row ∈ runs, stream log row.runId ≠ []) ∧ ∀ row ∈ items, NamedIn log row
  | _ => True

structure Board.Backed (s : Board) : Prop where
  store : s.store.Backed s.world.log
  pending : ∀ p, ∀ x ∈ s.pending p, x.Backed s.world.log
  rebuilds : ∀ j, (s.rebuilds j).Backed s.world.log

section mono

variable {log log' : EventLog} {r : Uuid}

theorem stream_ne_nil_mono (hlog : log <+: log') (h : stream log r ≠ []) : stream log' r ≠ [] :=
  List.IsPrefix.ne_nil (stream_mono hlog r) h

theorem NamedIn.mono {row : WorkItemProjection} (h : NamedIn log row) (hlog : log <+: log') :
    NamedIn log' row := by
  obtain ⟨e, he, hitem⟩ := h
  exact ⟨e, (stream_mono hlog _).subset he, hitem⟩

theorem ProjectionStore.Backed.mono {store : ProjectionStore} (h : store.Backed log)
    (hlog : log <+: log') : store.Backed log' :=
  ⟨fun r hr => stream_ne_nil_mono hlog (h.runs r hr),
    fun i row hrow => ⟨(h.items i row hrow).1, (h.items i row hrow).2.mono hlog⟩⟩

theorem PendingWrite.Backed.mono {x : PendingWrite} (h : x.Backed log) (hlog : log <+: log') :
    x.Backed log' :=
  ⟨stream_ne_nil_mono hlog h.stream, fun state batch hwrite p hp =>
    ((stream_mono hlog _).map _).subset (h.batch state batch hwrite p hp)⟩

theorem RebuildPhase.Backed.mono {phase : RebuildPhase} (h : phase.Backed log)
    (hlog : log <+: log') : phase.Backed log' := by
  cases phase with
  | idle | loaded => trivial
  | writing read events runs items =>
    exact ⟨fun row hrow => stream_ne_nil_mono hlog (h.1 row hrow),
      fun row hrow => (h.2 row hrow).mono hlog⟩

end mono

/-! ### The statements -/

section statements

variable {log : EventLog} {store store' : ProjectionStore}

theorem ProjectionStore.Backed.upsertRun (h : store.Backed log) {row : AgentRunProjection}
    (hrow : stream log row.runId ≠ []) : (store.upsertRunProjection row).Backed log := by
  refine ⟨fun r hr => ?_, h.items⟩
  rw [runs_upsert] at hr
  split at hr
  · next heq => rwa [heq]
  · exact h.runs r hr

theorem ProjectionStore.Backed.upsertItem (h : store.Backed log) {row : WorkItemProjection}
    (hrow : NamedIn log row) : (store.upsertWorkItemProjection row).Backed log := by
  refine ⟨h.runs, fun i row' hrow' => ?_⟩
  rw [items_upsert] at hrow'
  split at hrow'
  · next heq =>
    obtain rfl := Option.some.inj hrow'
    exact ⟨heq.symm, hrow⟩
  · exact h.items i row' hrow'

theorem ProjectionStore.Backed.projectEvents (h : store.Backed log) (state : RunState) {r : Uuid}
    {batch : List EventEnvelope} (hbatch : ∀ p ∈ payloads batch, p ∈ payloads (stream log r)) :
    (batch.foldl (projectEvent state r) store).Backed log := by
  induction batch generalizing store with
  | nil => exact h
  | cons e batch ih =>
    rw [payloads_cons, List.forall_mem_cons] at hbatch
    refine ih ?_ hbatch.2
    have hnamed : ∀ i status agent, projectedItem? e.payload = some i →
        itemStatusFromPayload e.payload (state.itemAgent i) = some (i, status, agent) →
        NamedIn log ⟨i, r, status, agent⟩ := by
      intro i status agent hitem _
      obtain ⟨x, hx, hpayload⟩ := List.mem_map.mp hbatch.1
      refine ⟨x, hx, ?_⟩
      dsimp only at hpayload ⊢
      rw [hpayload]
      cases hp : e.payload <;> rw [hp] at hitem <;>
        first | exact hitem | cases hitem
    unfold projectEvent
    split
    · exact h
    · next i hitem =>
      split
      · next itemId status agent hstatus =>
        have hsame : itemId = i := by
          cases hp : e.payload <;> rw [hp] at hitem hstatus <;>
            simp_all [projectedItem?, itemStatusFromPayload]
        subst hsame
        exact h.upsertItem (hnamed itemId status agent hitem hstatus)
      · exact h

theorem ProjectionStore.Backed.sync (h : store.Backed log) (hkeyed : store.Keyed) {r : Uuid}
    (hr : stream log r ≠ []) {workspaceId : Option Uuid} {status : String} {now : Time}
    (hsync : syncProjectionStatus store r workspaceId status now = .ok store') :
    store'.Backed log := by
  obtain ⟨-, hitems, hruns⟩ := syncProjectionStatus_ok hkeyed hsync
  refine ⟨fun r' hrow' => ?_, fun i row hrow => h.items i row (hitems ▸ hrow)⟩
  by_cases hsame : r' = r
  · rwa [hsame]
  · have hrow := hruns r'
    rw [if_neg hsame] at hrow
    refine h.runs r' fun hnone => hrow' ?_
    rwa [hnone, Option.map_none, Option.map_eq_none_iff] at hrow

theorem ProjectionStore.Backed.updateRunProjections (h : store.Backed log) (state : RunState) {r : Uuid}
    (hr : stream log r ≠ []) {batch : List EventEnvelope}
    (hbatch : ∀ p ∈ payloads batch, p ∈ payloads (stream log r)) :
    (updateRunProjections state store r batch).Backed log := by
  have hevents := h.projectEvents state hbatch
  unfold SamtaDashboard.updateRunProjections
  dsimp only
  split
  · exact hevents
  · exact hevents.upsertRun hr

theorem PendingWrite.Backed.perform {x : PendingWrite} (hx : x.Backed log) (h : store.Backed log)
    (hkeyed : store.Keyed) {now : Time}
    (hperform : x.write.perform x.source.runId now store = some store') : store'.Backed log := by
  cases hwrite : x.write with
  | insert workspaceId =>
    rw [hwrite] at hperform
    obtain rfl := Option.some.inj hperform
    exact h.upsertRun hx.stream
  | fetch status =>
    rw [hwrite] at hperform
    cases hperform
  | sync workspaceId status =>
    rw [hwrite, RowWrite.perform] at hperform
    cases hsync : syncProjectionStatus store x.source.runId workspaceId status now with
    | error error => rw [hsync] at hperform; cases hperform
    | ok store'' =>
      rw [hsync] at hperform
      obtain rfl := Option.some.inj hperform
      exact h.sync hkeyed hx.stream hsync
  | update state batch =>
    rw [hwrite] at hperform
    obtain rfl := Option.some.inj hperform
    exact h.updateRunProjections state hx.stream (hx.batch state batch hwrite)

end statements

/-! ### The interleaving keeps the rows backed -/

section steps

variable {d : Deployment} {s s' : Board} {a : BoardAction}

theorem Board.Step.log_mono (h : s.Step d a s') (hinv : s.Inv d) : s.world.log <+: s'.world.log := by
  cases h with
  | @act a world _ _ hstep =>
    have hworld : (s.advance world a).world = world := by cases a <;> rfl
    rw [hworld]
    exact hstep.log_mono hinv.world
  | _ => exact List.prefix_rfl

theorem mem_stream_of_append {log log' : EventLog} {r : Uuid} {events : List EventEnvelope}
    (h : append log r events = .ok log') {e : EventEnvelope} (he : e ∈ events) :
    bindTo r e ∈ stream log' r := by
  obtain ⟨rfl, -⟩ := append_eq_ok.mp h
  exact mem_stream.mpr ⟨List.mem_append_right _ (List.mem_map_of_mem he), rfl⟩

theorem Board.Inv.handlerWrite_backed (hinv : s.Inv d) {world : World} {k : Nat}
    (hstep : s.world.Step d (.submit k) world) (own : List EventEnvelope) :
    ∀ x ∈ s.handlerWrite k own, x.Backed world.log := by
  intro x hx
  cases hstep with
  | @submit _ request draws ps revision seen log' hphase hnew hstamped happ =>
    have hdecided := hinv.world.requests k
    rw [hphase] at hdecided
    rw [Board.handlerWrite, hphase] at hx
    obtain ⟨write, hwrite, rfl⟩ := Option.map_eq_some_iff.mp (Option.mem_def.mp hx)
    have hrun : (request.source draws (s.read k) own).runId = request.resource draws := by
      cases request <;> rfl
    constructor
    · have hevents : newEvents draws (request.resource draws) revision ps ≠ [] := by
        intro hnil
        have hps := payloads_newEvents draws (request.resource draws) revision ps
        rw [hnil] at hps
        exact hdecided.1.nonempty hps.symm
      obtain ⟨e, he⟩ := List.exists_mem_of_ne_nil _ hevents
      rw [hrun]
      exact List.ne_nil_of_mem (mem_stream_of_append happ he)
    · rintro state batch rfl
      cases request <;> cases hwrite

theorem Board.Inv.workerWrite_backed (hinv : s.Inv d) {world : World} {w : Nat}
    (hstep : s.world.Step d (.append w) world) (own : List EventEnvelope) :
    ∀ x ∈ s.workerWrite w own, x.Backed world.log := by
  intro x hx
  have hlog := hstep.log_mono hinv.world
  cases hstep with
  | @append _ snapshot runs r batch latest retries log' hphase happ =>
    have hknown := hinv.world.workers w
    rw [hphase] at hknown
    obtain ⟨hsnapshot, hprepared⟩ := hknown
    obtain ⟨executor, state, state', executed, summary, hreplay, -⟩ := hprepared.advanced
    rw [Board.workerWrite, hphase] at hx
    split at hx
    · next happending _ =>
      cases happending
      obtain rfl := Option.some.inj hx
      constructor
      · have hread : runEvents snapshot.events r ≠ [] := by
          intro hnil
          rw [hnil] at hreplay
          cases hreplay
        obtain ⟨e, he⟩ := List.exists_mem_of_ne_nil _ hread
        obtain ⟨he, hrun⟩ := List.mem_filter.mp he
        have hres := hsnapshot.past.sound.wellFormed.resourceId_eq (hsnapshot.mem he)
          (by simpa using hrun)
        have hmem : e ∈ stream snapshot.log r := mem_stream.mpr ⟨hsnapshot.mem he, hres⟩
        exact List.ne_nil_of_mem
          ((stream_mono (hsnapshot.past.later.2.trans hlog) r).subset hmem)
      · rintro state batch ⟨rfl, rfl⟩ p hp
        have hpayloads : payloads (withRebasedRevisions batch latest) = payloads batch :=
          map_withRebasedRevisions _ fun _ _ => rfl
        rw [← hpayloads] at hp
        obtain ⟨e, he, rfl⟩ := List.mem_map.mp hp
        exact List.mem_map.mpr ⟨_, mem_stream_of_append happ he, rfl⟩
    · exact absurd hx (Option.not_mem_none _)

theorem rebuilt_backed {log : EventLog} {events : List EventEnvelope} (hwf : WellFormed log)
    (hread : events ⊆ log) (runOrder itemOrder : List Uuid) :
    (∀ row ∈ runOrder.filterMap (RebuildState.fromEvents events).runStates.lookup,
        stream log row.runId ≠ []) ∧
      ∀ row ∈ itemOrder.filterMap (RebuildState.fromEvents events).itemStates.lookup,
        NamedIn log row := by
  constructor
  · intro row hrow
    obtain ⟨r, -, hlookup⟩ := List.mem_filterMap.mp hrow
    obtain rfl := RebuildState.runId_of_lookup hlookup
    obtain ⟨e, he, hrun⟩ := (RebuildState.isSome_lookup_runStates events row.runId).mp
      (by rw [hlookup]; rfl)
    exact List.ne_nil_of_mem (mem_stream.mpr ⟨hread he, hwf.resourceId_eq (hread he) hrun⟩)
  · intro row hrow
    obtain ⟨i, -, hlookup⟩ := List.mem_filterMap.mp hrow
    rw [RebuildState.lookup_itemStates] at hlookup
    obtain ⟨e, he, hkey⟩ := (RebuildState.isSome_itemEntry i events).mp (by rw [hlookup]; rfl)
    have hitem := EventPayload.itemId?_of_blockableStatus? (RebuildState.itemKey_eq_some.mp hkey)
    -- only events of one stream name the item
    obtain ⟨rfl, howner⟩ := RebuildState.keys_itemEntry hlookup
    have hrun := howner e.resourceId fun p hp hsame => by
      obtain ⟨x, hx, rfl⟩ := List.mem_map.mp hp
      rw [hwf.runId?_of_itemId? (hread hx) hsame, hwf.separate x (hread hx) e (hread he) _ hsame hitem]
    exact ⟨e, mem_stream.mpr ⟨hread he, hrun.symm⟩, hitem⟩

theorem Board.Backed.init : Board.init.Backed where
  store := ⟨fun _ hrow => absurd rfl hrow, fun _ _ hrow => nomatch hrow⟩
  pending := fun _ _ hx => absurd hx (Option.not_mem_none _)
  rebuilds := fun _ => trivial

theorem Board.Backed.setPending (h : s.Backed) (p : Process) {pending : Option PendingWrite}
    (hpending : ∀ x ∈ pending, x.Backed s.world.log) : (s.setPending p pending).Backed := by
  refine ⟨h.store, fun p' x hx => ?_, h.rebuilds⟩
  rw [Board.pending_setPending] at hx
  split at hx
  · exact hpending x hx
  · exact h.pending p' x hx

theorem Board.Backed.setRebuild (h : s.Backed) (j : Nat) {phase : RebuildPhase}
    (hphase : phase.Backed s.world.log) : (s.setRebuild j phase).Backed := by
  refine ⟨h.store, h.pending, fun j' => ?_⟩
  rw [Board.rebuilds_setRebuild]
  split
  · exact hphase
  · exact h.rebuilds j'

theorem Board.Backed.grow (h : s.Backed) {world : World} (hlog : s.world.log <+: world.log) :
    Board.Backed { s with world := world } :=
  ⟨h.store.mono hlog, fun p x hx => (h.pending p x hx).mono hlog,
    fun j => (h.rebuilds j).mono hlog⟩

theorem Board.Backed.advance (h : s.Backed) (hinv : s.Inv d) {world : World} {a : Action}
    (hstep : s.world.Step d a world) : (s.advance world a).Backed := by
  have hgrow := h.grow (hstep.log_mono hinv.world)
  cases a with
  | decide => exact ⟨hgrow.store, hgrow.pending, hgrow.rebuilds⟩
  | submit k => exact hgrow.setPending _ (hinv.handlerWrite_backed hstep _)
  | append w => exact hgrow.setPending _ (hinv.workerWrite_backed hstep _)
  | _ => exact hgrow

theorem Board.Backed.step (h : s.Backed) (hinv : s.Inv d) (hstep : s.Step d a s') : s'.Backed := by
  cases hstep with
  | act _ _ hstep => exact h.advance hinv hstep
  | execute => exact ⟨h.store, h.pending, h.rebuilds⟩
  | @fetch p x status workspaceId hpending =>
    refine h.setPending p fun y hy => ?_
    obtain rfl := Option.some.inj hy
    exact ⟨(h.pending p x hpending).stream, fun _ _ hwrite => nomatch hwrite⟩
  | @write p now x store hpending hperform =>
    have hstore := (h.pending p x hpending).perform h.store hinv.keyed hperform
    have hwritten : (s.write x store).Backed := ⟨hstore, h.pending, h.rebuilds⟩
    exact hwritten.setPending p fun _ hy => absurd hy (Option.not_mem_none _)
  | giveUp => exact h.setPending _ fun _ hy => absurd hy (Option.not_mem_none _)
  | rebuildLoad => exact h.setRebuild _ trivial
  | @rebuildClear j read events runOrder itemOrder hphase =>
    have hj := hinv.rebuilds j
    rw [hphase] at hj
    have hcleared : Board.Backed { s with store := s.store.clear, basis := fun _ => ⟨[], []⟩ } :=
      ⟨Board.Backed.init.store.mono List.nil_prefix, h.pending, h.rebuilds⟩
    have hread : events ⊆ s.world.log := fun _ he => hj.1.subset (hj.2.subset he)
    exact hcleared.setRebuild j
      (rebuilt_backed hinv.world.sound.wellFormed hread runOrder itemOrder)
  | @rebuildRun j read events row runs items hphase =>
    have hj := h.rebuilds j
    rw [hphase] at hj
    have hrow : (s.setRow (s.store.upsertRunProjection row) row.runId
        ⟨(Source.mk row.runId read events []).basis,
          (Source.mk row.runId read events []).basis⟩).Backed :=
      ⟨h.store.upsertRun (hj.1 row List.mem_cons_self), h.pending, h.rebuilds⟩
    exact hrow.setRebuild j ⟨fun row' hrow' => hj.1 row' (List.mem_cons_of_mem _ hrow'), hj.2⟩
  | @rebuildItem j read events item items hphase =>
    have hj := h.rebuilds j
    rw [hphase] at hj
    have hitem : Board.Backed { s with store := s.store.upsertWorkItemProjection item } :=
      ⟨h.store.upsertItem (hj.2 item List.mem_cons_self), h.pending, h.rebuilds⟩
    exact hitem.setRebuild j ⟨hj.1, fun row hrow => hj.2 row (List.mem_cons_of_mem _ hrow)⟩
  | rebuildStop => exact h.setRebuild _ trivial

theorem Board.Backed.of_reach (h : Reachable (projecting d) s) : s.Backed := by
  refine And.right (h.invariant (I := fun s => s.Inv d ∧ s.Backed) ?_ ?_)
  · rintro s rfl
    exact ⟨.init, .init⟩
  · intro s a s' hs hstep _
    exact ⟨hstep.inv hs.1, hs.2.step hs.1 hstep⟩

end steps

/-! ### The service keeps the rows backed -/

section changes

variable {db db' : Db}

theorem DbChange.backed (h : DbChange db db') (hwf : WellFormed db.log) (hkeyed : db.store.Keyed)
    (hbacked : db.store.Backed db.log) : db'.store.Backed db'.log := by
  obtain ⟨_, rows, happ⟩ := h.log.appended
  have hlog : db.log <+: db'.log := happ.log_eq ▸ List.prefix_append _ _
  have hmono := hbacked.mono hlog
  cases h with
  | start draws workspaceId now hstarted hstore =>
    obtain ⟨rows, objective, target, agents, happ, hps⟩ := hstarted.appended
    rw [hstore]
    refine hmono.upsertRun fun hnil => ?_
    have hstream := happ.payloads_stream draws.resource
    rw [if_pos rfl, hps, startRunPayloads_eq, hnil] at hstream
    simp at hstream
  | status r status now hchanged hsync =>
    exact hmono.sync hkeyed (stream_ne_nil_mono hlog hchanged.exists_run) hsync
  | retry r workspaceId now hretried hsync =>
    exact hmono.sync hkeyed (stream_ne_nil_mono hlog hretried.exists_run) hsync
  | @batch r config state state' batch executed summary hadvances hstore =>
    obtain ⟨rows, happ, hps⟩ := hadvances.appended
    rw [hstore]
    refine hmono.updateRunProjections state'
      (stream_ne_nil_mono hlog (hadvances.read.stream_ne_nil hwf)) fun p hp => ?_
    rw [happ.payloads_stream, if_pos rfl, hps]
    exact List.mem_append_right _ hp

/-- In every history of the service the tables are backed, so that a scan by the ids of the log shows
them. -/
theorem service_backed (h : Reachable service db) : db.store.Backed db.log :=
  have hempty : (ProjectionStore.empty).Backed ([] : EventLog) :=
    ⟨fun _ hr => absurd rfl hr, fun _ _ hrow => nomatch hrow⟩
  (service_invariant (I := fun db => RunRows db ∧ db.store.Backed db.log)
    ⟨⟨fun _ _ hrow => (nomatch hrow), fun _ _ => rfl⟩, hempty⟩
    (fun _ _ hwf hrec hinv hchange => ⟨hinv.1.change hwf hrec hchange,
      hchange.backed hwf hinv.1.keyed hinv.2⟩) h).2.2.2

end changes

end SamtaDashboard

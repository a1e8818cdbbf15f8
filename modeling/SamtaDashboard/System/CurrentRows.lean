import SamtaDashboard.System.Backing
import SamtaDashboard.System.FreshReads
import SamtaDashboard.System.RowWriters

/-!
# Rows that are current

Handlers and workers write to the tables after their appends, so a row lags behind the log. Nothing
compares the versions, and what is written late may be old. When each append to a run waits for the
outstanding write of the run and a worker appends only what it has executed on the run as it is, the
rows of a run are current as soon as no write is outstanding (`currentRows`), whatever happens to the
other runs in the meantime.
-/

namespace SamtaDashboard

open EventFold Transition

/-! ### One write at a time -/

/-- No write of the run is outstanding. -/
def Board.Quiet (s : Board) (r : Uuid) : Prop := ∀ p, ∀ x ∈ s.pending p, x.source.runId ≠ r

/-- No write is given up and nothing is rebuilt. What is appended to a run is appended when no write of
the run is outstanding, and by a worker only if the run has not grown since its read. -/
def Board.Orderly (s : Board) : BoardAction → Prop
  | .act a => s.world.FreshBatch a ∧ ∀ r, s.world.target a = some r → s.Quiet r
  | .fetch _ | .write .. => True
  | _ => False

def RowWrite.status : RowWrite → String
  | insert _ => "running"
  | fetch status | sync _ status => status
  | update state _ => state.status

def RowWrite.item (r : Uuid) (store : ProjectionStore) (i : Uuid) :
    RowWrite → Option WorkItemProjection
  | update state batch => (updateRunProjections state store r batch).items i
  | _ => store.items i

/-- The row that is due to an item that was executed since its last assignment. -/
def executedRow (log : EventLog) (r i : Uuid) : Option WorkItemProjection :=
  ((lastWrite (EventPayload.itemStatus? i) (payloads (stream log r))).filter (· ≠ .assigned)).map
    fun status => ⟨i, r, status, lastWrite (EventPayload.assignee? i) (payloads (stream log r))⟩

/-! ### The log under the tables -/

section worlds

variable {d : Deployment} {s s' : Board} {a : BoardAction}

@[simp] theorem Board.advance_world (s : Board) (world : World) (a : Action) :
    (s.advance world a).world = world := by cases a <;> rfl

@[simp] theorem Board.advance_store (s : Board) (world : World) (a : Action) :
    (s.advance world a).store = s.store := by cases a <;> rfl

@[simp] theorem Board.advance_memory (s : Board) (world : World) (a : Action) :
    (s.advance world a).memory = s.memory := by cases a <;> rfl

theorem Board.Step.world (h : s.Step d a s') :
    (∃ a', a = .act a' ∧ s.world.Step d a' s'.world) ∨ s'.world = s.world := by
  cases h with
  | act _ _ hstep => exact Or.inl ⟨_, rfl, by rwa [Board.advance_world]⟩
  | execute _ hphase hlookup horder hadvance hstamped =>
    exact Or.inl ⟨_, rfl, .execute hphase hlookup horder (congrArg Prod.snd hadvance) hstamped⟩
  | _ => exact Or.inr rfl

theorem Board.reach_world {guard : Board → BoardAction → Prop} {guard' : World → Action → Prop}
    (h : Reach (projecting d) guard s) (hguard : ∀ s a, guard s (.act a) → guard' s.world a) :
    Reach (interleaving d) guard' s.world := by
  refine h.invariant (I := fun s => Reach (interleaving d) guard' s.world) ?_ ?_
  · rintro s rfl
    exact .init rfl
  · intro s a s' hs hstep ha
    rcases Board.Step.world hstep with ⟨a', rfl, hworld⟩ | hsame
    · exact .step a' hs hworld (hguard s a' ha)
    · exact hsame ▸ hs

theorem Board.ruled_of_reach {guard : Board → BoardAction → Prop} (h : Reach (projecting d) guard s) :
    ∀ k, (s.world.requests k).Ruled s.world.log :=
  (Board.reach_world h (fun _ _ _ => trivial) : Reachable (interleaving d) s.world).invariant_of (K := World.Inv d)
    (I := fun s => ∀ k, (s.requests k).Ruled s.log) (fun _ => World.Inv.of_reach)
    (by rintro s rfl k x hx; cases hx) fun _ _ _ hinv hruled hstep _ => hstep.ruled hinv hruled

end worlds

/-! ### What the appends write -/

section appends

variable {log log' : EventLog} {r i : Uuid} {rows : List EventEnvelope}

theorem Request.decide_shape {request : Request} {draws : Draws} {events : List EventEnvelope}
    {ps : List EventPayload} (h : request.decide draws events = some ps) :
    ∃ p, ∃ assigned : Assignments, ps = p :: assigned.payloads (request.resource draws) ∧
      p.itemId? = none ∧ p.workerStatus? = request.rowWrite.map (·.status) := by
  have hstatus : ∀ (r : Uuid) (status : String) (reason : Option String),
      statusChange r status reason events = some ps →
        ps = .runStatusChanged r status reason :: Assignments.payloads r [] := by
    intro r status reason hchange
    exact (statusChange_eq_some.mp hchange).2
  cases request with
  | createWorkspace | createAgentProfile =>
    exact ⟨_, [], (Option.some.inj h).symm, rfl, rfl⟩
  | startRun =>
    exact ⟨_, _, (Option.some.inj h).symm.trans (startRunPayloads_eq ..), rfl, rfl⟩
  | pauseRun r | resumeRun r | cancelRun r => exact ⟨_, [], hstatus r _ _ h, rfl, rfl⟩
  | retryRun order r =>
    obtain ⟨-, -, -, hps⟩ := retryPayloads_eq_some.mp h
    exact ⟨_, _, hps, rfl, rfl⟩

theorem executedRow_of_assign (happ : Appended log log' r rows) {p : EventPayload}
    {assigned : Assignments} (hps : payloads rows = p :: assigned.payloads r) (hp : p.itemId? = none)
    {row : WorkItemProjection} (h : executedRow log' r i = some row) : executedRow log r i = some row := by
  have hlast : ∀ {V : Type} {w : EventPayload → Option V},
      (∀ q, w q ≠ none → q.itemId? = some i) → lastWrite w (payloads (stream log' r)) =
        (lastWrite w (assigned.payloads r)).or (lastWrite w (payloads (stream log r))) := by
    intro V w hw
    have hquiet : w p = none := by
      by_contra hwrite
      rw [hw p hwrite] at hp
      cases hp
    rw [happ.payloads_stream, if_pos rfl, hps, lastWrite_append, lastWrite_cons, hquiet, Option.or_none]
  have hw := fun q => EventPayload.itemId?_of_itemStatus? (i := i) (p := q)
  have hw' := fun q => EventPayload.itemId?_of_assignee? (i := i) (p := q)
  rw [executedRow, hlast hw, hlast hw', Assignments.lastWrite_itemStatus] at h
  split at h
  · cases h
  · next hnot =>
    rwa [Assignments.lastWrite_of_not_mem hw' hnot, Option.none_or, Option.none_or] at h

theorem executedRow_of_advances {config : LoopConfig} {state state' : RunState}
    {batch : List EventEnvelope} {executed : List (Uuid × Outcome)} {summary : Option String}
    (hadv : Advanced config r state state' batch executed summary)
    (happ : Appended log log' r rows) (hps : payloads rows = payloads batch) {store : ProjectionStore}
    (hassignee : ∀ x ∈ executed, state.itemAgent x.1 =
      lastWrite (EventPayload.assignee? x.1) (payloads (stream log r)))
    (hstore : ∀ row, executedRow log r i = some row → store.items i = some row)
    {row : WorkItemProjection} (h : executedRow log' r i = some row) :
    (updateRunProjections state' store r batch).items i = some row := by
  rw [executedRow, happ.payloads_stream, if_pos rfl, hps, lastWrite_append, lastWrite_append,
    lastWrite_assignee_batch hadv, Option.none_or, lastWrite_batch hadv fun _ => rfl] at h
  rw [items_updateRunProjections, lastWrite_batch hadv fun _ => rfl]
  by_cases hi : i ∈ executed.map (·.1)
  · obtain ⟨⟨i, outcome⟩, hx, rfl⟩ := List.mem_map.mp hi
    rw [lastWrite_executed_of_mem (lastWrite_itemStatus_outcome config.worker r · · i) hx hadv.nodup,
      Option.some_or] at h
    rw [lastWrite_executed_of_mem (lastWrite_projectedRow_outcome state' config.worker r i) hx
      hadv.nodup, hadv.itemAgent, hassignee _ hx]
    obtain ⟨status, hstatus, rfl⟩ := Option.map_eq_some_iff.mp h
    rw [← Option.some.inj (Option.filter_eq_some_iff.mp hstatus).1]
    rfl
  · rw [lastWrite_executed_of_not_mem (lastWrite_itemStatus_outcome config.worker r · · i) hi,
      Option.none_or] at h
    rw [lastWrite_executed_of_not_mem (lastWrite_projectedRow_outcome state' config.worker r i) hi]
    exact hstore row h

end appends

/-! ### A read of the log -/

section reads

variable {log : EventLog} {r : Uuid} {events : List EventEnvelope}

theorem runEvents_of_inOrder (hwf : WellFormed log) (horder : InOrder log r)
    (h : InTimeOrder log events) : runEvents events r = runEvents (stream log r) r := by
  rw [runEvents, runEvents, ← h.filter_eq_stream (hwf.gapFree r) horder, List.filter_filter]
  refine List.filter_congr fun e he => ?_
  have hres := hwf.resourceId_eq (r := r) (h.perm.subset he)
  by_cases hrun : runIdForEvent e = some r
  · simp [hrun, hres hrun]
  · simp [hrun]

theorem lastWrite_runEvents (hwf : WellFormed log) {V : Type} {w : EventPayload → Option V}
    (hw : ∀ p, w p ≠ none → p.isRunStarted ∨ p.runId? ≠ none) :
    lastWrite w (payloads (runEvents (stream log r) r)) = lastWrite w (payloads (stream log r)) := by
  rw [← lastWrite_payloads, ← lastWrite_payloads, runEvents]
  refine lastWrite_filter fun e he hwrites => decide_eq_true (hwf.runIdForEvent_eq he ?_)
  unfold runIdForEvent
  split
  · exact Option.some_ne_none _
  · next hne =>
    rcases hw e.payload hwrites with hstarted | hrun
    · cases hp : e.payload <;> simp_all [EventPayload.isRunStarted]
    · exact hrun

theorem EventPayload.runId?_of_workerStatus? {p : EventPayload} (h : p.workerStatus? ≠ none) :
    p.isRunStarted ∨ p.runId? ≠ none := by
  cases p <;> simp_all [workerStatus?, orchestratorStatus?, isRunStarted, runId?]

theorem EventPayload.runId?_of_itemStatus? {i : Uuid} {p : EventPayload} (h : p.itemStatus? i ≠ none) :
    p.isRunStarted ∨ p.runId? ≠ none := by
  cases p <;> simp_all [itemStatus?, runId?]

theorem EventPayload.runId?_of_itemAgent? {i : Uuid} {p : EventPayload} (h : p.itemAgent? i ≠ none) :
    p.isRunStarted ∨ p.runId? ≠ none := by
  cases p <;> simp_all [itemAgent?, runId?]

theorem replayed_stream (hwf : WellFormed log) (horder : InOrder log r) (h : InTimeOrder log events)
    {state : RunState} (hstate : replayRun (runEvents events r) = some state) :
    state.status = (lastWrite EventPayload.workerStatus? (payloads (stream log r))).getD "pending" ∧
      ∀ i, state.itemStatus i = lastWrite (EventPayload.itemStatus? i) (payloads (stream log r)) ∧
        state.itemAgent i = lastWrite (EventPayload.itemAgent? i) (payloads (stream log r)) := by
  rw [runEvents_of_inOrder hwf horder h] at hstate
  rw [status_replayRun hstate,
    lastWrite_runEvents hwf fun _ => EventPayload.runId?_of_workerStatus?]
  refine ⟨rfl, fun i => ?_⟩
  rw [itemStatus_replayRun hstate, itemAgent_replayRun hstate,
    lastWrite_runEvents hwf fun _ => EventPayload.runId?_of_itemStatus?,
    lastWrite_runEvents hwf fun _ => EventPayload.runId?_of_itemAgent?]
  exact ⟨rfl, rfl⟩

end reads

/-! ### What a worker has in memory -/

/-- A worker that is going to append has in memory what its batch leads to. -/
def Board.Remembers (d : Deployment) (s : Board) : Prop :=
  ∀ w snapshot runs r batch latest retries,
    s.world.workers w = .appending snapshot runs r batch latest retries →
    ∃ executor state state' executed summary, s.memory w = some state' ∧
      replayRun (runEvents snapshot.events r) = some state ∧
      Advanced ((d.worker w).config executor) r state state' batch executed summary

section memory

variable {d : Deployment} {s s' : Board} {a : BoardAction}

theorem Board.Step.remembers (h : s.Step d a s') (hs : s.Remembers d) : s'.Remembers d := by
  intro w snapshot runs r batch latest retries hphase
  cases h with
  | @act a world hexecute _ hstep =>
    rw [Board.advance_world] at hphase
    rw [Board.advance_memory]
    rcases hstep.worker w with hsame | hmove
    · exact hs w _ _ _ _ _ _ (hsame ▸ hphase)
    · generalize world.workers w = phase at hphase hmove
      cases hmove with
      | execute => cases hexecute
      | again hbefore =>
        obtain ⟨rfl, rfl, rfl, rfl, -, -⟩ := WorkerPhase.appending.inj hphase
        exact hs w _ _ _ _ _ _ hbefore
      | _ => cases hphase
  | @execute w' executor snapshot' r' runs' state state' order stamp batch' hidle hticking hlookup
      horder hadvance hstamped =>
    dsimp only at hphase ⊢
    rw [World.workers_setWorker] at hphase
    split at hphase
    · next hw =>
      subst hw
      rw [Function.update_self]
      unfold afterIteration at hphase
      split at hphase
      · cases hphase
      · next hne =>
        obtain ⟨rfl, rfl, rfl, rfl, -, -⟩ := WorkerPhase.appending.inj hphase
        cases hskips : LoopConfig.skips state with
        | true =>
          rw [LoopConfig.advanceRun_of_skips hskips] at hadvance
          cases hadvance
          exact absurd rfl hne
        | false =>
          obtain ⟨summary, hadv⟩ :=
            ((d.worker w).config executor).advanceRun_spec stamp order r' hskips
          rw [hadvance] at hadv
          rw [lookup_runStatesFromEvents] at hlookup
          exact ⟨executor, state, state', _, summary, rfl, hlookup, hadv⟩
    · next hw =>
      rw [Function.update_of_ne hw]
      exact hs w _ _ _ _ _ _ hphase
  | _ => exact hs w _ _ _ _ _ _ hphase

theorem Board.remembers_of_reach {guard : Board → BoardAction → Prop}
    (h : Reach (projecting d) guard s) : s.Remembers d :=
  h.invariant (by rintro s rfl w snapshot runs r batch latest retries hphase; cases hphase)
    fun _ _ _ hs hstep _ => Board.Step.remembers hstep hs

end memory

/-! ### The tables -/

/-- What an outstanding write is going to write is due. -/
structure PendingWrite.Due (log : EventLog) (x : PendingWrite) : Prop where
  status : lastWrite EventPayload.workerStatus? (payloads (stream log x.source.runId)) =
    some x.write.status
  workspace : ∀ state batch, x.write = .update state batch → state.workspaceId.isNil = false

/-- The rows of a run without an outstanding write are current, and those of the other runs will be
after their writes. -/
structure Board.Current (s : Board) : Prop where
  row : ∀ r, s.Quiet r → (s.store.runs r).map (·.status) =
    lastWrite EventPayload.workerStatus? (payloads (stream s.world.log r))
  pending : ∀ p, ∀ x ∈ s.pending p, x.Due s.world.log
  quietItem : ∀ r i row, executedRow s.world.log r i = some row → s.Quiet r →
    s.store.items i = some row
  item : ∀ r i row, executedRow s.world.log r i = some row → ∀ p, ∀ x ∈ s.pending p,
    x.source.runId = r → x.write.item r s.store i = some row

section statements

variable {store store' : ProjectionStore} {r : Uuid} {now : Time} {write : RowWrite}

theorem RowWrite.perform_current (hkeyed : store.Keyed)
    (hworkspace : ∀ state batch, write = .update state batch → state.workspaceId.isNil = false)
    (h : write.perform r now store = some store') :
    (∀ r', (store'.runs r').map (·.status) =
      if r' = r then some write.status else (store.runs r').map (·.status)) ∧
      ∀ i, store'.items i = write.item r store i := by
  cases write with
  | insert workspaceId =>
    obtain rfl := Option.some.inj h
    refine ⟨fun r' => ?_, fun _ => rfl⟩
    rw [upsertNewRun, runs_upsert]
    split <;> rfl
  | fetch => cases h
  | sync workspaceId status =>
    rw [perform] at h
    cases hsync : syncProjectionStatus store r workspaceId status now with
    | error error => rw [hsync] at h; cases h
    | ok store'' =>
      rw [hsync] at h
      obtain rfl := Option.some.inj h
      obtain ⟨-, hitems, hruns⟩ := syncProjectionStatus_ok hkeyed hsync
      exact ⟨hruns, fun i => congrFun hitems i⟩
  | update state batch =>
    obtain rfl := Option.some.inj h
    exact ⟨runs_updateRunProjections (hworkspace state batch rfl) store batch, fun _ => rfl⟩

theorem projectedRow?_of_itemId? {state : RunState} {i : Uuid} {p : EventPayload}
    (h : projectedRow? state r i p ≠ none) : p.itemId? = some i := by
  cases p <;> simp_all [projectedRow?, projectedItem?, EventPayload.itemId?]

/-- The row of an item after a write depends on the table only through the row before it. -/
theorem RowWrite.item_congr {i : Uuid} {row : WorkItemProjection}
    (h : write.item r store i = some row)
    (hstore : store'.items i = store.items i ∨ store'.items i = some row) :
    write.item r store' i = some row := by
  cases write with
  | update state batch =>
    rw [item, items_updateRunProjections] at h ⊢
    cases hlast : lastWrite (projectedRow? state r i) (payloads batch) with
    | some row' => rwa [hlast] at h
    | none =>
      rw [hlast] at h
      exact hstore.elim (fun hsame => hsame.trans h) id
  | _ => exact hstore.elim (fun hsame => hsame.trans h) id

theorem RowWrite.item_of_other {i : Uuid}
    (h : ∀ state batch, write = .update state batch → ∀ p ∈ payloads batch, p.itemId? ≠ some i) :
    write.item r store i = store.items i := by
  cases write with
  | update state batch =>
    rw [item, items_updateRunProjections, lastWrite_of_none fun p hp => ?_]
    · rfl
    · by_contra hwrites
      exact h state batch rfl p hp (projectedRow?_of_itemId? hwrites)
  | _ => rfl

end statements

section steps

variable {d : Deployment} {s s' : Board} {a : BoardAction} {r i : Uuid}

theorem Board.Current.init : Board.init.Current where
  row := fun _ _ => rfl
  pending := fun _ _ hx => absurd hx (Option.not_mem_none _)
  quietItem := fun _ _ _ hrow => nomatch hrow
  item := fun _ _ _ hrow => nomatch hrow

theorem named_of_executedRow {log : EventLog} {row : WorkItemProjection}
    (h : executedRow log r i = some row) : ∃ e ∈ stream log r, e.payload.itemId? = some i := by
  obtain ⟨status, hstatus, -⟩ := Option.map_eq_some_iff.mp h
  exact exists_itemId?_of_lastWrite (fun _ => EventPayload.itemId?_of_itemStatus?)
    (Option.filter_eq_some_iff.mp hstatus).1

theorem Board.Current.append (h : s.Current) {p : Process} (hidle : s.pending p = none) {world : World}
    {rows : List EventEnvelope} (happ : Appended s.world.log world.log r rows) (hquiet : s.Quiet r)
    {own : Option PendingWrite} (hown : ∀ x ∈ own, x.source.runId = r ∧ x.Due world.log ∧
      ∀ i row, executedRow world.log r i = some row → x.write.item r s.store i = some row)
    (hnone : own = none → lastWrite EventPayload.workerStatus? (payloads (stream world.log r)) =
        lastWrite EventPayload.workerStatus? (payloads (stream s.world.log r)) ∧
      ∀ i row, executedRow world.log r i = some row → executedRow s.world.log r i = some row) :
    (({ s with world := world } : Board).setPending p own).Current := by
  have hpending : ∀ p', ∀ x ∈ (({ s with world := world } : Board).setPending p own).pending p',
      x ∈ own ∨ x ∈ s.pending p' := by
    intro p' x hx
    rw [Board.pending_setPending] at hx
    split at hx
    · exact Or.inl hx
    · exact Or.inr hx
  have hkept : ∀ p', ∀ x ∈ s.pending p',
      x ∈ (({ s with world := world } : Board).setPending p own).pending p' := by
    intro p' x hx
    rw [Board.pending_setPending, if_neg]
    · exact hx
    · rintro rfl
      rw [hidle] at hx
      cases hx
  have hother : ∀ {r'}, r' ≠ r → stream world.log r' = stream s.world.log r' := fun hne => by
    rw [happ.stream_eq, if_neg hne, List.append_nil]
  have hexecuted : ∀ {r'}, r' ≠ r → ∀ i, executedRow world.log r' i = executedRow s.world.log r' i :=
    fun hne i => by rw [executedRow, executedRow, hother hne]
  have hstill : ∀ r', (({ s with world := world } : Board).setPending p own).Quiet r' → s.Quiet r' :=
    fun r' hr' p' x hx => hr' p' x (hkept p' x hx)
  have hnothing : (({ s with world := world } : Board).setPending p own).Quiet r → own = none := by
    intro hr
    by_contra hne
    obtain ⟨x, hx⟩ := Option.ne_none_iff_exists'.mp hne
    refine hr p x ?_ (hown x hx).1
    rw [Board.pending_setPending, if_pos rfl]
    exact hx
  constructor
  · intro r' hr'
    show (s.store.runs r').map (·.status) = lastWrite _ (payloads (stream world.log r'))
    by_cases hr : r' = r
    · subst hr
      rw [(hnone (hnothing hr')).1]
      exact h.row r' hquiet
    · rw [hother hr]
      exact h.row r' (hstill r' hr')
  · intro p' x hx
    rcases hpending p' x hx with hx | hx
    · exact (hown x hx).2.1
    · have hdue := h.pending p' x hx
      refine ⟨?_, hdue.workspace⟩
      show lastWrite _ (payloads (stream world.log x.source.runId)) = _
      rw [hother (hquiet p' x hx)]
      exact hdue.status
  · intro r' i row hrow hr'
    by_cases hr : r' = r
    · subst hr
      exact h.quietItem r' i row ((hnone (hnothing hr')).2 i row hrow) hquiet
    · exact h.quietItem r' i row (hexecuted hr i ▸ hrow) (hstill r' hr')
  · intro r' i row hrow p' x hx hxr
    rcases hpending p' x hx with hx | hx
    · obtain ⟨hrun, -, hitem⟩ := hown x hx
      obtain rfl : r' = r := hxr.symm.trans hrun
      exact hitem i row hrow
    · have hr : r' ≠ r := hxr ▸ hquiet p' x hx
      exact h.item r' i row (hexecuted hr i ▸ hrow) p' x hx hxr

theorem Board.Current.write (h : s.Current) (hwf : WellFormed s.world.log) (hkeyed : s.store.Keyed)
    (hbacked : s.Backed) {p : Process} {x : PendingWrite} (hx : s.pending p = some x) {now : Time}
    {store : ProjectionStore} (hperform : x.write.perform x.source.runId now s.store = some store) :
    ((s.write x store).setPending p none).Current := by
  have hdue := h.pending p x hx
  obtain ⟨hstatus, hitems⟩ := RowWrite.perform_current hkeyed hdue.workspace hperform
  have hpending : ∀ p', ∀ y ∈ ((s.write x store).setPending p none).pending p', y ∈ s.pending p' := by
    intro p' y hy
    rw [Board.pending_setPending] at hy
    split at hy
    · cases hy
    · exact hy
  have hstill : ∀ r', r' ≠ x.source.runId →
      ((s.write x store).setPending p none).Quiet r' → s.Quiet r' := by
    intro r' hne hr' p' y hy
    by_cases hp : p' = p
    · subst hp
      obtain rfl := Option.some.inj (hx.symm.trans hy)
      exact hne.symm
    · refine hr' p' y ?_
      rw [Board.pending_setPending, if_neg hp]
      exact hy
  -- the items of other runs are not in the batch
  have hother : ∀ r' i row, r' ≠ x.source.runId → executedRow s.world.log r' i = some row →
      store.items i = s.store.items i := by
    intro r' i row hne hrow
    rw [hitems]
    refine RowWrite.item_of_other fun state batch hwrite q hq hqi => hne ?_
    obtain ⟨e, he, hei⟩ := named_of_executedRow hrow
    obtain ⟨b, hb, rfl⟩ := List.mem_map.mp ((hbacked.pending p x hx).batch state batch hwrite q hq)
    rw [← (mem_stream.mp he).2, ← (mem_stream.mp hb).2]
    exact hwf.separate e (mem_stream.mp he).1 b (mem_stream.mp hb).1 i hei hqi
  constructor
  · intro r' hr'
    show (store.runs r').map (·.status) = lastWrite _ (payloads (stream s.world.log r'))
    rw [hstatus]
    split
    · next hr => rw [hr, hdue.status]
    · next hr => exact h.row r' (hstill r' hr hr')
  · exact fun p' y hy => h.pending p' y (hpending p' y hy)
  · intro r' i row hrow hr'
    show store.items i = some row
    by_cases hr : r' = x.source.runId
    · subst hr
      rw [hitems]
      exact h.item _ i row hrow p x hx rfl
    · rw [hother r' i row hr hrow]
      exact h.quietItem r' i row hrow (hstill r' hr hr')
  · intro r' i row hrow p' y hy hyr
    have hbefore := h.item r' i row hrow p' y (hpending p' y hy) hyr
    refine RowWrite.item_congr hbefore ?_
    by_cases hr : r' = x.source.runId
    · subst hr
      exact Or.inr ((hitems i).trans (h.item _ i row hrow p x hx rfl))
    · exact Or.inl (hother r' i row hr hrow)

theorem Board.Current.submit (h : s.Current) (hinv : s.Inv d)
    (hruled : ∀ k, (s.world.requests k).Ruled s.world.log) {k : Nat} {world : World}
    (hidle : s.pending (.request k) = none) (hstep : s.world.Step d (.submit k) world)
    (hquiet : ∀ r, s.world.target (.submit k) = some r → s.Quiet r) :
    (s.advance world (.submit k)).Current := by
  obtain ⟨request, draws, ps, revision, seen, hphase, -, -, happ⟩ := hstep.requestAppended hinv.world
  have hdecide := (hruled k (request, draws, ps) (by rw [hphase]; rfl)).1
  obtain ⟨events, hdecide⟩ : ∃ events, request.decide draws events = some ps := hdecide
  obtain ⟨p, assigned, rfl, hp, hstatus⟩ := Request.decide_shape hdecide
  have hps := payloads_newEvents draws (request.resource draws) revision
    (p :: assigned.payloads (request.resource draws))
  have hlast : lastWrite EventPayload.workerStatus? (payloads (stream world.log (request.resource draws))) =
      (request.rowWrite.map (·.status)).or (lastWrite EventPayload.workerStatus?
        (payloads (stream s.world.log (request.resource draws)))) := by
    rw [happ.payloads_stream, if_pos rfl, hps, lastWrite_append, lastWrite_cons, hstatus,
      Assignments.lastWrite_eq_none fun _ _ => rfl, Option.none_or]
  have hitems : ∀ i row, executedRow world.log (request.resource draws) i = some row →
      executedRow s.world.log (request.resource draws) i = some row :=
    fun _ _ => executedRow_of_assign happ hps hp
  have hrun : s.Quiet (request.resource draws) := hquiet _ (by rw [World.target, hphase])
  have hwrite : s.handlerWrite k (world.log.drop s.world.log.length) = request.rowWrite.map
      fun write => ⟨write, request.source draws (s.read k) (world.log.drop s.world.log.length)⟩ := by
    rw [Board.handlerWrite, hphase]
  refine Board.Current.append h hidle happ hrun (fun x hx => ?_) fun hnone => ?_
  · rw [hwrite] at hx
    obtain ⟨write, hrow, rfl⟩ := Option.map_eq_some_iff.mp (Option.mem_def.mp hx)
    have hsource : (request.source draws (s.read k) (world.log.drop s.world.log.length)).runId =
        request.resource draws := by cases request <;> rfl
    refine ⟨hsource, ⟨?_, ?_⟩, fun i row hi => ?_⟩
    · rw [hsource, hlast, hrow]
      rfl
    · rintro state batch rfl
      cases request <;> cases hrow
    · have hbefore := h.quietItem _ i row (hitems i row hi) hrun
      cases write with
      | update => cases request <;> cases hrow
      | _ => exact hbefore
  · rw [hwrite, Option.map_eq_none_iff] at hnone
    rw [hlast, hnone]
    exact ⟨rfl, hitems⟩

theorem Board.Current.batch (h : s.Current) (hinv : s.Inv d) (hremembers : s.Remembers d)
    (horder : ∀ r, InOrder s.world.log r) {w : Nat} {world : World}
    (hidle : s.pending (.worker w) = none) (hstep : s.world.Step d (.append w) world)
    (hfresh : s.world.FreshBatch (.append w))
    (hquiet : ∀ r, s.world.target (.append w) = some r → s.Quiet r) :
    (s.advance world (.append w)).Current := by
  obtain ⟨snapshot, runs, r, batch, latest, retries, _, rows, hphase, hcommit⟩ :=
    hstep.batchCommitted hinv.world
  obtain ⟨executor, state, state', executed, summary, hmemory, hstate, hadv⟩ :=
    hremembers w _ _ _ _ _ _ hphase
  have hwf := hcommit.read.past.sound.wellFormed
  have happ := hcommit.appended
  have hrun : s.Quiet r := hquiet r (by rw [World.target, hphase])
  have hstream : stream snapshot.log r = stream s.world.log r :=
    hfresh.stream_eq (by simp only [World.batchOf, hphase]) hcommit
  have hin : InOrder snapshot.log r := by
    rw [InOrder, hstream]
    exact horder r
  obtain ⟨hstatus, hitem⟩ := replayed_stream hwf hin hcommit.read.order hstate
  rw [hstream] at hstatus
  have hrunning : lastWrite EventPayload.workerStatus? (payloads (stream s.world.log r)) =
      some "running" := by
    rw [hadv.status_before] at hstatus
    cases hlast : lastWrite EventPayload.workerStatus? (payloads (stream s.world.log r)) with
    | none => simp [hlast] at hstatus
    | some status => rw [hlast] at hstatus; rw [hstatus]; rfl
  have hwrite : s.workerWrite w (world.log.drop s.world.log.length) = some
      ⟨.update state' batch, ⟨r, snapshot.log, snapshot.events, world.log.drop s.world.log.length⟩⟩ := by
    rw [Board.workerWrite, hphase, hmemory]
  refine Board.Current.append h hidle happ hrun (fun x hx => ?_) fun hnone => ?_
  · rw [hwrite] at hx
    obtain rfl := Option.some.inj hx
    refine ⟨rfl, ⟨?_, ?_⟩, fun i row hi => ?_⟩
    · show lastWrite _ (payloads (stream world.log r)) = some state'.status
      rw [happ.payloads_stream, if_pos rfl, hcommit.payloads, lastWrite_append, hrunning,
        ← lastWrite_workerStatus_batch hadv]
      cases lastWrite EventPayload.workerStatus? (payloads batch) <;> rfl
    · rintro _ _ ⟨rfl, rfl⟩
      rw [hadv.workspaceId, hadv.workspace]
    · refine executedRow_of_advances hadv happ hcommit.payloads (fun x hx => ?_)
        (fun row hrow => h.quietItem r i row hrow hrun) hi
      obtain ⟨item, hlookup, heligible⟩ := hadv.eligible x hx
      have hassigned : state.itemStatus x.1 = some .assigned := by
        rw [RunState.itemStatus, hlookup, Option.map_some, (LoopConfig.eligible_iff.mp heligible).1]
      rw [(hitem x.1).1, hstream] at hassigned
      rw [(hitem x.1).2, hstream, EventPayload.lastWrite_itemAgent_of_assigned hassigned]
  · rw [hwrite] at hnone
    cases hnone

theorem Board.Current.of_same (h : s.Current) (hlog : s'.world.log = s.world.log)
    (hstore : s'.store = s.store) (hpending : s'.pending = s.pending) : s'.Current := by
  have hquiet : ∀ r, s'.Quiet r → s.Quiet r := fun r hr p x hx => hr p x (hpending ▸ hx)
  constructor
  · rw [hstore, hlog]
    exact fun r hr => h.row r (hquiet r hr)
  · rw [hpending, hlog]
    exact h.pending
  · rw [hstore, hlog]
    exact fun r i row hrow hr => h.quietItem r i row hrow (hquiet r hr)
  · rw [hstore, hlog, hpending]
    exact h.item

theorem Board.Current.fetch (h : s.Current) {p : Process} {x : PendingWrite} {status : String}
    {workspaceId : Option Uuid} (hx : s.pending p = some x) (hwrite : x.write = .fetch status) :
    (s.setPending p (some { x with write := .sync workspaceId status })).Current := by
  have hpending : ∀ p', ∀ y ∈ (s.setPending p (some { x with write := .sync workspaceId status })).pending p',
      y = { x with write := .sync workspaceId status } ∨ y ∈ s.pending p' := by
    intro p' y hy
    rw [Board.pending_setPending] at hy
    split at hy
    · exact Or.inl (Option.some.inj hy).symm
    · exact Or.inr hy
  have hquiet : ∀ r, (s.setPending p (some { x with write := .sync workspaceId status })).Quiet r →
      s.Quiet r := by
    intro r hr p' y hy
    by_cases hp : p' = p
    · subst hp
      obtain rfl := Option.some.inj (hx.symm.trans hy)
      exact hr p' { x with write := .sync workspaceId status }
        (by rw [Board.pending_setPending, if_pos rfl]; rfl)
    · exact hr p' y (by rw [Board.pending_setPending, if_neg hp]; exact hy)
  constructor
  · exact fun r hr => h.row r (hquiet r hr)
  · intro p' y hy
    rcases hpending p' y hy with rfl | hy
    · have hdue := (h.pending p x hx).status
      rw [hwrite] at hdue
      exact ⟨hdue, fun _ _ hupdate => nomatch hupdate⟩
    · exact h.pending p' y hy
  · exact fun r i row hrow hr => h.quietItem r i row hrow (hquiet r hr)
  · intro r i row hrow p' y hy hyr
    rcases hpending p' y hy with rfl | hy
    · have hitem := h.item r i row hrow p x hx hyr
      rw [hwrite] at hitem
      exact hitem
    · exact h.item r i row hrow p' y hy hyr

end steps

/-! ### Every orderly run -/

section reached

variable {d : Deployment} {s : Board}

theorem Board.Orderly.reach_world (h : Reach (projecting d) Board.Orderly s) :
    Reach (interleaving d) World.FreshBatch s.world :=
  Board.reach_world h fun _ _ => And.left

theorem Board.Orderly.inOrder (hclock : d.OneClock) (h : Reach (projecting d) Board.Orderly s) :
    ∀ r, InOrder s.world.log r := by
  have honTime : Reach (interleaving d) OnTime s.world :=
    (Board.Orderly.reach_world h).imp fun s a s' hs hstep hguard =>
      hguard.onTime hclock (World.Inv.of_reach hs) hstep
  exact ((reach_onTime_iff hclock).mp honTime).2

theorem Board.Current.step {s' : Board} {a : BoardAction} (h : s.Current)
    (hreach : Reach (projecting d) Board.Orderly s) (hclock : d.OneClock) (hstep : s.Step d a s')
    (ha : s.Orderly a) : s'.Current := by
  have hinv := Board.Inv.of_reach hreach.reachable
  cases hstep with
  | @act a world hexecute hidle hworld =>
    obtain ⟨hfresh, hquiet⟩ := ha
    cases a with
    | submit k => exact h.submit hinv (Board.ruled_of_reach hreach) (hidle _ rfl) hworld hquiet
    | append w =>
      exact h.batch hinv (Board.remembers_of_reach hreach) (Board.Orderly.inOrder hclock hreach)
        (hidle _ rfl) hworld hfresh hquiet
    | _ =>
      have hlog : world.log = s.world.log := by cases hworld <;> rfl
      exact h.of_same hlog rfl rfl
  | execute => exact ⟨h.row, h.pending, h.quietItem, h.item⟩
  | fetch hpending hwrite => exact h.fetch hpending hwrite
  | write hpending hperform =>
    exact h.write hinv.world.sound.wellFormed hinv.keyed (Board.Backed.of_reach hreach.reachable)
      hpending hperform
  | _ => exact absurd ha not_false

theorem Board.Current.of_reach (hclock : d.OneClock) (h : Reach (projecting d) Board.Orderly s) :
    s.Current :=
  h.invariant_of (K := fun s => Reach (projecting d) Board.Orderly s) (fun _ => id)
    (by rintro s rfl; exact .init) fun _ _ _ hreach hs hstep ha => hs.step hreach hclock hstep ha

/-- In every orderly run on one clock, as soon as no write of a run is outstanding, its row has the status
that a worker finds that reads the log now, and each item that was executed since its last assignment
has a row with the status that the worker finds and the agent of the assignment. -/
theorem currentRows (hclock : d.OneClock) (h : Reach (projecting d) Board.Orderly s) {r : Uuid}
    (hquiet : s.Quiet r) {events : List EventEnvelope} (hload : LoadAll s.world.log (.ok events))
    {state : RunState} (hstate : (runStatesFromEvents events).lookup r = some state) :
    ((s.store.runs r).map (·.status)).getD "pending" = state.status ∧
      ∀ i status, state.itemStatus i = some status → status ≠ .assigned → s.store.items i =
        some ⟨i, r, status, lastWrite (EventPayload.assignee? i) (payloads (stream s.world.log r))⟩ := by
  have hcurrent := Board.Current.of_reach hclock h
  have hwf : WellFormed s.world.log := (Board.Inv.of_reach h.reachable).world.sound.wellFormed
  rw [lookup_runStatesFromEvents] at hstate
  obtain ⟨hstatus, hitem⟩ := replayed_stream hwf (Board.Orderly.inOrder hclock h r)
    (loadAll_eq_ok.mp hload).1 hstate
  refine ⟨by rw [hcurrent.row r hquiet, hstatus], fun i status hi hne => ?_⟩
  refine hcurrent.quietItem r i _ ?_ hquiet
  rw [(hitem i).1] at hi
  rw [executedRow, hi, Option.filter_some, if_pos (decide_eq_true hne)]
  rfl

end reached

/-! ### Few processes -/

def Board.OrderlyAmong (ps : List Process) (s : Board) : BoardAction → Prop
  | .act a => (∀ p ∈ a.process?, p ∈ ps) ∧ s.world.FreshBatch a ∧
      ∀ r ∈ s.world.target a, ∀ p ∈ ps, ∀ x ∈ s.pending p, x.source.runId ≠ r
  | .fetch p | .write p _ => p ∈ ps
  | _ => False

instance (ps : List Process) (s : Board) : ∀ a, Decidable (s.OrderlyAmong ps a)
  | .act _ => inferInstanceAs (Decidable (_ ∧ _ ∧ _))
  | .fetch _ | .write .. => inferInstanceAs (Decidable (_ ∈ ps))
  | .giveUp _ | .rebuildLoad _ | .rebuildClear _ | .rebuildRun _ | .rebuildItem _ | .rebuildStop _ =>
    isFalse not_false

theorem Board.Step.pending_eq {d : Deployment} {s s' : Board} {a : BoardAction} {ps : List Process}
    (h : s.Step d a s') (ha : s.OrderlyAmong ps a) {p : Process} (hp : p ∉ ps) :
    s'.pending p = s.pending p := by
  have hset : ∀ (s : Board) (p' : Process) (x : Option PendingWrite), p' ∈ ps →
      (s.setPending p' x).pending p = s.pending p := by
    intro s p' x hp'
    rw [Board.pending_setPending, if_neg fun heq : p = p' => hp (heq ▸ hp')]
  cases h with
  | @act a =>
    cases a with
    | submit k => exact hset _ _ _ (ha.1 _ rfl)
    | append w => exact hset _ _ _ (ha.1 _ rfl)
    | _ => rfl
  | execute => rfl
  | fetch => exact hset _ _ _ ha
  | write => exact hset _ _ _ ha
  | _ => exact absurd ha not_false

theorem Board.OrderlyAmong.idle {d : Deployment} {ps : List Process} {s : Board}
    (h : Reach (projecting d) (Board.OrderlyAmong ps) s) {p : Process} (hp : p ∉ ps) :
    s.pending p = none :=
  h.invariant (I := fun s => s.pending p = none) (by rintro s rfl; rfl)
    fun _ _ _ hbefore hstep ha => (Board.Step.pending_eq hstep ha hp).trans hbefore

theorem Board.OrderlyAmong.orderly {d : Deployment} {ps : List Process} {s : Board}
    (h : Reach (projecting d) (Board.OrderlyAmong ps) s) : Reach (projecting d) Board.Orderly s := by
  refine h.imp fun s a s' hs hstep ha => ?_
  cases a with
  | act a =>
    refine ⟨ha.2.1, fun r hr p x hx => ?_⟩
    by_cases hp : p ∈ ps
    · exact ha.2.2 r hr p hp x hx
    · rw [Board.OrderlyAmong.idle hs hp] at hx
      cases hx
  | fetch | write => trivial
  | _ => exact ha

def Board.playOrderly (ps : List Process) (s : Board) (a : BoardAction) : Option Board :=
  if s.OrderlyAmong ps a then s.play sampleDeployment a else none

theorem Board.step_of_playOrderly {ps : List Process} {s s' : Board} {a : BoardAction}
    (h : s.playOrderly ps a = some s') : s.Step sampleDeployment a s' ∧ s.OrderlyAmong ps a := by
  obtain ⟨ha, h⟩ := Option.ite_none_right_eq_some.mp h
  exact ⟨Board.step_of_play h, ha⟩

/-- A run is started and written, executed and written, and a workspace is created in between. -/
def orderlyActions : List BoardAction :=
  promptWriteActions ++
    (requestActions 1 (.createWorkspace "") (.at sampleWorkspace 300 0)).map .act ++
    [.write (.worker 0) 0]

theorem currentRows_orderlyActions : ∃ (s : Board) (events : List EventEnvelope) (state : RunState),
    (runStatesFromEvents events).lookup sampleRun = some state ∧ state.status = "completed" ∧
      ((s.store.runs sampleRun).map (·.status)).getD "pending" = state.status ∧
      ∀ i status, state.itemStatus i = some status → status ≠ .assigned → s.store.items i =
        some ⟨i, sampleRun, status,
          lastWrite (EventPayload.assignee? i) (payloads (stream s.world.log sampleRun))⟩ := by
  let ps : List Process := [.request 0, .request 1, .worker 0]
  have hvalues : (orderlyActions.foldlM (Board.playOrderly ps) .init).map (fun s =>
      (((runStatesFromEvents (s.world.log.insertionSort timeLe)).lookup sampleRun).map (·.status),
        ps.all fun p => (s.pending p).isNone, s.world.log.all (·.payload.costIsFinite))) =
      some (some "completed", true, true) := by decide +kernel
  obtain ⟨s, hs, hvalues⟩ := Option.map_eq_some_iff.mp hvalues
  obtain ⟨hstatus, hidle, hfinite⟩ := Prod.mk.inj hvalues |>.imp_right Prod.mk.inj
  obtain ⟨state, hstate, hstatus⟩ := Option.map_eq_some_iff.mp hstatus
  have hinit : Reach (projecting sampleDeployment) (Board.OrderlyAmong ps) .init := .init rfl
  have hreach := hinit.foldlM_guarded (fun _ _ _ => Board.step_of_playOrderly) hs
  have hload : LoadAll s.world.log (.ok (s.world.log.insertionSort timeLe)) :=
    loadAll_eq_ok.mpr ⟨inTimeOrder_insertionSort _, List.all_eq_true.mp hfinite⟩
  have hquiet : s.Quiet sampleRun := by
    intro p x hx
    have hnone : s.pending p = none := by
      by_cases hp : p ∈ ps
      · exact Option.isNone_iff_eq_none.mp (List.all_eq_true.mp hidle p hp)
      · exact Board.OrderlyAmong.idle hreach hp
    rw [hnone] at hx
    cases hx
  obtain ⟨hrow, hitems⟩ := currentRows sampleDeployment_oneClock (Board.OrderlyAmong.orderly hreach)
    hquiet hload hstate
  exact ⟨s, _, state, hstate, hstatus, hrow, hitems⟩

end SamtaDashboard

import SamtaDashboard.System.Projections
import SamtaDashboard.System.Schedule

/-!
# The interleaving with the tables

Three kinds of processes write to `agent_runs_projection`: the handlers and the workers after their
append, and the rebuilds. Every statement is a step of its own, so between a process's read of the run
and its write there may be any number of other appends and writes. `Board` adds the tables, the pending
writes and the rebuilds to the interleaving of the requests and the workers; it also keeps account of
the events that the values in a row have been computed from (`Basis`).

The invariant `Board.Inv` ties these to the log: every process holds an earlier log and what it has
appended itself, and every row is computed from events of its run.
-/

namespace SamtaDashboard

open EventFold Transition

deriving instance DecidableEq for Process

/-! ### Writes -/

/-- What a process knows of a run: the events that it has read, of the log as it was then, and the
events that it has appended itself since. -/
structure Source where
  runId : Uuid
  read : EventLog
  events : List EventEnvelope
  own : List EventEnvelope

/-- The run's events that a value is computed from. -/
def Source.basis (x : Source) : List EventEnvelope := runEvents (x.events ++ x.own) x.runId

/-- The revision that the process has read the run up to. -/
def Source.revision (x : Source) : Int := (stream x.read x.runId).length

/-- What a process does to the row of its run after an append. -/
inductive RowWrite where
  /-- `create_run`: `upsert_run_projection` -/
  | insert (workspaceId : Uuid)
  /-- `retry_run`: `fetch_run_workspace`, and then `sync_projection_status` -/
  | fetch (status : String)
  /-- a control handler: `sync_projection_status` -/
  | sync (workspaceId : Option Uuid) (status : String)
  /-- a worker: `update_run_projections` -/
  | update (state : RunState) (batch : List EventEnvelope)

/-- The statement on the tables; `none` if it writes nothing. -/
def RowWrite.perform (runId : Uuid) (now : Time) (store : ProjectionStore) :
    RowWrite → Option ProjectionStore
  | insert workspaceId => some (upsertNewRun store runId workspaceId "running" now)
  | fetch _ => none
  | sync workspaceId status => (syncProjectionStatus store runId workspaceId status now).toOption
  | update state batch => some (updateRunProjections state store runId batch)

/-- What the status and the totals in a row have been computed from. -/
structure Basis where
  status : List EventEnvelope
  totals : List EventEnvelope

/-- The basis of a row after a write that is computed from `events`. On an existing row
`sync_projection_status` sets the status only, and a worker without a workspace id sets nothing. -/
def RowWrite.account (hasRow : Bool) (events : List EventEnvelope) (basis : Basis) :
    RowWrite → Basis
  | insert _ => ⟨events, events⟩
  | fetch _ => basis
  | sync .. => if hasRow then { basis with status := events } else ⟨events, events⟩
  | update state _ => if state.workspaceId.isNil then basis else ⟨events, events⟩

/-- The write of a handler after the append of its request. -/
def Request.rowWrite : Request → Option RowWrite
  | createWorkspace _ | createAgentProfile .. => none
  | startRun workspaceId .. => some (.insert workspaceId)
  | pauseRun _ => some (.sync none "paused")
  | resumeRun _ => some (.sync none "running")
  | cancelRun _ => some (.sync none "cancelled")
  | retryRun .. => some (.fetch "running")

/-- A control operation has loaded its run, `start_run` has read nothing. -/
def Request.source (draws : Draws) (read : EventLog) (own : List EventEnvelope) (request : Request) :
    Source :=
  match request.runId? with
  | none => ⟨draws.resource, [], [], own⟩
  | some runId => ⟨runId, read, stream read runId, own⟩

/-! ### States -/

structure PendingWrite where
  write : RowWrite
  source : Source

inductive RebuildPhase where
  | idle
  /-- between `load_all` and `clear` -/
  | loaded (read : EventLog) (events : List EventEnvelope)
  /-- the rows that are still to be written -/
  | writing (read : EventLog) (events : List EventEnvelope) (runs : List AgentRunProjection)
    (items : List WorkItemProjection)

/-- The processes with their log and the tables that they write. -/
structure Board where
  world : World
  store : ProjectionStore
  basis : Uuid → Basis
  /-- the log at the load of a request -/
  read : Nat → EventLog
  /-- the state in memory of the run that a worker has advanced last -/
  memory : Nat → Option RunState
  pending : Process → Option PendingWrite
  rebuilds : Nat → RebuildPhase

namespace Board

def init : Board where
  world := .init
  store := .empty
  basis := fun _ => ⟨[], []⟩
  read := fun _ => []
  memory := fun _ => none
  pending := fun _ => none
  rebuilds := fun _ => .idle

def setPending (s : Board) (p : Process) (pending : Option PendingWrite) : Board :=
  { s with pending := Function.update s.pending p pending }

def setRebuild (s : Board) (j : Nat) (phase : RebuildPhase) : Board :=
  { s with rebuilds := Function.update s.rebuilds j phase }

/-- The write of a handler once its request has been appended. -/
def handlerWrite (s : Board) (k : Nat) (own : List EventEnvelope) : Option PendingWrite :=
  match s.world.requests k with
  | .numbered request draws .. =>
    request.rowWrite.map fun write => ⟨write, request.source draws (s.read k) own⟩
  | _ => none

/-- The write of a worker once its batch has been appended. -/
def workerWrite (s : Board) (w : Nat) (own : List EventEnvelope) : Option PendingWrite :=
  match s.world.workers w, s.memory w with
  | .appending snapshot _ r batch .., some state =>
    some ⟨.update state batch, ⟨r, snapshot.log, snapshot.events, own⟩⟩
  | _, _ => none

/-- After a step of a request or a worker. -/
def advance (s : Board) (world : World) : Action → Board
  | .decide k .. => { s with world := world, read := Function.update s.read k s.world.log }
  | .submit k =>
    { s with world := world }.setPending (.request k)
      (s.handlerWrite k (world.log.drop s.world.log.length))
  | .append w =>
    { s with world := world }.setPending (.worker w)
      (s.workerWrite w (world.log.drop s.world.log.length))
  | _ => { s with world := world }

/-- The tables after a write to the row of a run, and the account of it. -/
def setRow (s : Board) (store : ProjectionStore) (r : Uuid) (basis : Basis) : Board :=
  { s with store := store, basis := Function.update s.basis r basis }

def write (s : Board) (x : PendingWrite) (store : ProjectionStore) : Board :=
  s.setRow store x.source.runId (x.write.account (s.store.runs x.source.runId).isSome
    x.source.basis (s.basis x.source.runId))

end Board

/-! ### Steps -/

/-- The process that takes the step. -/
def Action.process? : Action → Option Process
  | .pass _ => none
  | .decide k .. | .number k | .submit k | .drop k => some (.request k)
  | .loadAll w | .execute w _ | .readRevision w | .append w | .fail w | .stop w => some (.worker w)

def Action.isExecute : Action → Bool
  | .execute .. => true
  | _ => false

inductive BoardAction where
  | act (a : Action)
  /-- `fetch_run_workspace`, the statement of a pending write, and a write that is given up -/
  | fetch (p : Process)
  | write (p : Process) (now : Time)
  | giveUp (p : Process)
  /-- a rebuild: `load_all`, `clear`, the upserts, and the end of the process -/
  | rebuildLoad (j : Nat)
  | rebuildClear (j : Nat)
  | rebuildRun (j : Nat)
  | rebuildItem (j : Nat)
  | rebuildStop (j : Nat)

inductive Board.Step (d : Deployment) (s : Board) : BoardAction → Board → Prop
  | act {a : Action} {world : World} : a.isExecute = false →
      (∀ p ∈ a.process?, s.pending p = none) → s.world.Step d a world →
      Step d s (.act a) (s.advance world a)
  | execute {w : Nat} {executor : AgentExecutor} {snapshot : Snapshot} {r : Uuid} {runs : List Uuid}
      {state state' : RunState} {order : List Uuid} {stamp : Nat → Stamp}
      {batch : List EventEnvelope} :
      s.pending (.worker w) = none → s.world.workers w = .ticking snapshot (r :: runs) →
      (runStatesFromEvents snapshot.events).lookup r = some state → state.items.IsOrder order →
      ((d.worker w).config executor).advanceRun stamp order r state = (state', batch) →
      d.StampedBetween (.worker w) snapshot.now s.world.now batch →
      Step d s (.act (.execute w executor)) { s with
        world := s.world.setWorker w (afterIteration (d.worker w) snapshot runs r batch)
        memory := Function.update s.memory w (some state') }
  | fetch {p : Process} {x : PendingWrite} {status : String} {workspaceId : Option Uuid} :
      s.pending p = some x → x.write = .fetch status →
      fetchRunWorkspace s.world.log x.source.runId = .ok workspaceId →
      Step d s (.fetch p) (s.setPending p (some { x with write := .sync workspaceId status }))
  | write {p : Process} {now : Time} {x : PendingWrite} {store : ProjectionStore} :
      s.pending p = some x → x.write.perform x.source.runId now s.store = some store →
      Step d s (.write p now) ((s.write x store).setPending p none)
  | giveUp {p : Process} : Step d s (.giveUp p) (s.setPending p none)
  | rebuildLoad {j : Nat} {events : List EventEnvelope} :
      s.rebuilds j = .idle → LoadAll s.world.log (.ok events) →
      Step d s (.rebuildLoad j) (s.setRebuild j (.loaded s.world.log events))
  | rebuildClear {j : Nat} {read : EventLog} {events : List EventEnvelope}
      {runOrder itemOrder : List Uuid} :
      s.rebuilds j = .loaded read events →
      (RebuildState.fromEvents events).runStates.IsOrder runOrder →
      (RebuildState.fromEvents events).itemStates.IsOrder itemOrder →
      Step d s (.rebuildClear j)
        ({ s with store := s.store.clear, basis := fun _ => ⟨[], []⟩ }.setRebuild j
          (.writing read events
            (runOrder.filterMap (RebuildState.fromEvents events).runStates.lookup)
            (itemOrder.filterMap (RebuildState.fromEvents events).itemStates.lookup)))
  | rebuildRun {j : Nat} {read : EventLog} {events : List EventEnvelope} {row : AgentRunProjection}
      {runs : List AgentRunProjection} {items : List WorkItemProjection} :
      s.rebuilds j = .writing read events (row :: runs) items →
      Step d s (.rebuildRun j)
        ((s.setRow (s.store.upsertRunProjection row) row.runId
          ⟨(Source.mk row.runId read events []).basis,
            (Source.mk row.runId read events []).basis⟩).setRebuild j
          (.writing read events runs items))
  | rebuildItem {j : Nat} {read : EventLog} {events : List EventEnvelope}
      {item : WorkItemProjection} {items : List WorkItemProjection} :
      s.rebuilds j = .writing read events [] (item :: items) →
      Step d s (.rebuildItem j)
        ({ s with store := s.store.upsertWorkItemProjection item }.setRebuild j
          (.writing read events [] items))
  | rebuildStop {j : Nat} : Step d s (.rebuildStop j) (s.setRebuild j .idle)

/-- The processes of a deployment and the rebuilds, on an empty log with empty tables. -/
def projecting (d : Deployment) : System Board BoardAction where
  init := (· = Board.init)
  step s a s' := s.Step d a s'

/-! ### What the processes know -/

/-- What a source holds is in the log: the part of it that was read, and what was appended since. -/
structure Source.Inv (log : EventLog) (x : Source) : Prop where
  read : x.read <+: log
  events : ∀ e, e.resourceId = x.runId → (e ∈ x.events ↔ e ∈ x.read)
  subset : x.events ⊆ x.read
  own : x.own ⊆ log

/-- A row takes account of events of its run that are in the log. -/
structure Basis.Inv (log : EventLog) (r : Uuid) (basis : Basis) : Prop where
  status : ∀ e ∈ basis.status, e ∈ log ∧ runIdForEvent e = some r
  totals : ∀ e ∈ basis.totals, e ∈ log ∧ runIdForEvent e = some r

def RebuildPhase.Inv (log : EventLog) : RebuildPhase → Prop
  | .idle => True
  | .loaded read events | .writing read events .. => read <+: log ∧ events.Perm read

structure Board.Inv (d : Deployment) (s : Board) : Prop where
  world : s.world.Inv d
  keyed : s.store.Keyed
  basis : ∀ r, (s.basis r).Inv s.world.log r
  read : ∀ k, s.read k <+: s.world.log
  pending : ∀ p, ∀ x ∈ s.pending p, x.source.Inv s.world.log
  rebuilds : ∀ j, (s.rebuilds j).Inv s.world.log

section sources

variable {log log' : EventLog} {x : Source} {e : EventEnvelope}

theorem Source.Inv.mono (h : x.Inv log) (hlog : log <+: log') : x.Inv log' :=
  ⟨h.read.trans hlog, h.events, h.subset, fun _ he => hlog.subset (h.own he)⟩

theorem Basis.Inv.mono {basis : Basis} {r : Uuid} (h : basis.Inv log r) (hlog : log <+: log') :
    basis.Inv log' r :=
  ⟨fun e he => ⟨hlog.subset (h.status e he).1, (h.status e he).2⟩,
    fun e he => ⟨hlog.subset (h.totals e he).1, (h.totals e he).2⟩⟩

theorem RebuildPhase.Inv.mono {phase : RebuildPhase} (h : phase.Inv log) (hlog : log <+: log') :
    phase.Inv log' := by
  cases phase with
  | idle => trivial
  | loaded | writing => exact ⟨h.1.trans hlog, h.2⟩

theorem Source.Inv.of_read {read : EventLog} {events own : List EventEnvelope}
    (hread : read <+: log) (hperm : events.Perm read) (hown : own ⊆ log) (r : Uuid) :
    Source.Inv log ⟨r, read, events, own⟩ :=
  ⟨hread, fun _ _ => hperm.mem_iff, hperm.subset, hown⟩

theorem Source.Inv.mem_basis (h : x.Inv log) (he : e ∈ x.basis) :
    e ∈ log ∧ runIdForEvent e = some x.runId := by
  obtain ⟨he, hrun⟩ := List.mem_filter.mp he
  refine ⟨?_, by simpa using hrun⟩
  rcases List.mem_append.mp he with he | he
  · exact h.read.subset (h.subset he)
  · exact h.own he

theorem Source.Inv.not_mem_basis_iff (h : x.Inv log) (hwf : WellFormed log) (he : e ∈ log)
    (hrun : runIdForEvent e = some x.runId) :
    e ∉ x.basis ↔ x.revision < e.revision ∧ e ∉ x.own := by
  have hres := hwf.resourceId_eq he hrun
  obtain ⟨rest, hrest⟩ := stream_mono h.read x.runId
  have hcons := hwf.gapFree x.runId
  rw [← hrest, consecutive_append] at hcons
  have hread : e ∈ x.events ↔ ¬ x.revision < e.revision := by
    rw [h.events e hres, Source.revision]
    constructor
    · intro hmem
      have := (hcons.1.revision_mem (mem_stream.mpr ⟨hmem, hres⟩)).2
      omega
    · intro hle
      have hmem : e ∈ stream x.read x.runId ++ rest := hrest ▸ mem_stream.mpr ⟨he, hres⟩
      rcases List.mem_append.mp hmem with hmem | hmem
      · exact (mem_stream.mp hmem).1
      · have := (hcons.2.revision_mem hmem).1
        omega
  rw [Source.basis, runEvents, List.mem_filter, List.mem_append, hread]
  simp [hrun]

end sources

/-! ### The invariant holds in every run -/

section invariant

variable {d : Deployment} {s s' : Board} {a : BoardAction}

theorem Board.pending_setPending (s : Board) (p p' : Process) (pending : Option PendingWrite) :
    (s.setPending p pending).pending p' = if p' = p then pending else s.pending p' :=
  Function.update_apply ..

theorem Board.rebuilds_setRebuild (s : Board) (j j' : Nat) (phase : RebuildPhase) :
    (s.setRebuild j phase).rebuilds j' = if j' = j then phase else s.rebuilds j' :=
  Function.update_apply ..

theorem Board.basis_setRow (s : Board) (store : ProjectionStore) (r r' : Uuid) (basis : Basis) :
    (s.setRow store r basis).basis r' = if r' = r then basis else s.basis r' :=
  Function.update_apply ..

theorem RowWrite.perform_spec {store store' : ProjectionStore} (hkeyed : store.Keyed) {r : Uuid}
    {now : Time} {write : RowWrite} (h : write.perform r now store = some store') :
    store'.Keyed ∧ ((store.runs r).isSome → (store'.runs r).isSome) := by
  cases write with
  | insert workspaceId =>
    obtain rfl := Option.some.inj h
    refine ⟨hkeyed.upsert _, fun _ => ?_⟩
    rw [upsertNewRun, runs_upsert, if_pos rfl]
    rfl
  | fetch status => cases h
  | sync workspaceId status =>
    rw [RowWrite.perform] at h
    cases hsync : syncProjectionStatus store r workspaceId status now with
    | error error => rw [hsync] at h; cases h
    | ok store'' =>
      rw [hsync] at h
      obtain rfl := Option.some.inj h
      obtain ⟨hkeyed', -, hstatus⟩ := syncProjectionStatus_ok hkeyed hsync
      refine ⟨hkeyed', fun _ => ?_⟩
      rw [← Option.isSome_map (f := (·.status)), hstatus, if_pos rfl]
      rfl
  | update state batch =>
    obtain rfl := Option.some.inj h
    refine ⟨hkeyed.updateRunProjections _ _, fun hrow => ?_⟩
    unfold updateRunProjections
    dsimp only
    split
    · rwa [runs_projectEvents]
    · rw [runs_upsert, if_pos rfl]
      rfl

theorem Board.Inv.init : Board.Inv d .init where
  world := .init d
  keyed := fun _ _ hrow => (nomatch hrow)
  basis := fun _ => ⟨fun _ he => absurd he List.not_mem_nil, fun _ he => absurd he List.not_mem_nil⟩
  read := fun _ => List.prefix_rfl
  pending := fun _ _ hx => absurd hx (Option.not_mem_none _)
  rebuilds := fun _ => trivial

theorem Board.Inv.grow (h : s.Inv d) {world : World} (hworld : world.Inv d)
    (hlog : s.world.log <+: world.log) : Board.Inv d { s with world := world } where
  world := hworld
  keyed := h.keyed
  basis := fun r => (h.basis r).mono hlog
  read := fun k => (h.read k).trans hlog
  pending := fun p x hx => (h.pending p x hx).mono hlog
  rebuilds := fun j => (h.rebuilds j).mono hlog

theorem Board.Inv.setPending (h : s.Inv d) (p : Process) {pending : Option PendingWrite}
    (hpending : ∀ x ∈ pending, x.source.Inv s.world.log) : (s.setPending p pending).Inv d := by
  refine ⟨h.world, h.keyed, h.basis, h.read, fun p' x hx => ?_, h.rebuilds⟩
  rw [Board.pending_setPending] at hx
  split at hx
  · exact hpending x hx
  · exact h.pending p' x hx

theorem Board.Inv.setRebuild (h : s.Inv d) (j : Nat) {phase : RebuildPhase}
    (hphase : phase.Inv s.world.log) : (s.setRebuild j phase).Inv d := by
  refine ⟨h.world, h.keyed, h.basis, h.read, h.pending, fun j' => ?_⟩
  rw [Board.rebuilds_setRebuild]
  split
  · exact hphase
  · exact h.rebuilds j'

theorem Board.Inv.setRow (h : s.Inv d) {r : Uuid} {basis : Basis}
    (hbasis : basis.Inv s.world.log r) {store : ProjectionStore} (hkeyed : store.Keyed) :
    (s.setRow store r basis).Inv d := by
  refine ⟨h.world, hkeyed, fun r' => ?_, h.read, h.pending, h.rebuilds⟩
  rw [Board.basis_setRow]
  split
  · next hr => exact hr ▸ hbasis
  · exact h.basis r'

theorem Board.Inv.handlerWrite (h : s.Inv d) {world : World} (hlog : s.world.log <+: world.log)
    {k : Nat} {own : List EventEnvelope} (hown : own ⊆ world.log) :
    ∀ x ∈ s.handlerWrite k own, x.source.Inv world.log := by
  intro x hx
  unfold Board.handlerWrite at hx
  split at hx
  · obtain ⟨write, -, rfl⟩ := Option.map_eq_some_iff.mp (Option.mem_def.mp hx)
    unfold Request.source
    split
    · exact ⟨List.nil_prefix, fun _ _ => Iff.rfl, List.Subset.refl _, hown⟩
    · refine ⟨(h.read k).trans hlog, fun e he => ?_, List.filter_subset_self _, hown⟩
      rw [mem_stream, and_iff_left he]
  · exact absurd hx (Option.not_mem_none _)

theorem Board.Inv.workerWrite (h : s.Inv d) {world : World} (hlog : s.world.log <+: world.log)
    {w : Nat} {own : List EventEnvelope} (hown : own ⊆ world.log) :
    ∀ x ∈ s.workerWrite w own, x.source.Inv world.log := by
  intro x hx
  unfold Board.workerWrite at hx
  split at hx
  · next snapshot _ r batch _ _ state hphase _ =>
    have hknown := h.world.workers w
    rw [hphase] at hknown
    obtain rfl := Option.some.inj hx
    exact .of_read (hknown.1.past.later.2.trans hlog) hknown.1.order.perm hown r
  · exact absurd hx (Option.not_mem_none _)

theorem Board.Inv.advance (h : s.Inv d) {world : World} {a : Action} (hstep : s.world.Step d a world) :
    (s.advance world a).Inv d := by
  have hlog := hstep.log_mono h.world
  have hgrow := h.grow (hstep.inv h.world) hlog
  have hown : world.log.drop s.world.log.length ⊆ world.log := List.drop_subset _ _
  cases a with
  | decide k request draws =>
    refine ⟨hgrow.world, hgrow.keyed, hgrow.basis, fun k' => ?_, hgrow.pending, hgrow.rebuilds⟩
    show Function.update s.read k s.world.log k' <+: world.log
    rw [Function.update_apply]
    split
    · exact hlog
    · exact hgrow.read k'
  | submit k => exact hgrow.setPending _ (h.handlerWrite hlog hown)
  | append w => exact hgrow.setPending _ (h.workerWrite hlog hown)
  | _ => exact hgrow

theorem Source.Inv.basis_inv {log : EventLog} {x : Source} (h : x.Inv log) :
    Basis.Inv log x.runId ⟨x.basis, x.basis⟩ :=
  ⟨fun _ he => h.mem_basis he, fun _ he => h.mem_basis he⟩

theorem RowWrite.account_inv {log : EventLog} {x : Source} (h : x.Inv log) {basis : Basis}
    (hbasis : basis.Inv log x.runId) (write : RowWrite) (hasRow : Bool) :
    (write.account hasRow x.basis basis).Inv log x.runId := by
  cases write with
  | insert => exact h.basis_inv
  | fetch => exact hbasis
  | sync =>
    cases hasRow with
    | true => exact ⟨h.basis_inv.status, hbasis.totals⟩
    | false => exact h.basis_inv
  | update state batch =>
    rw [RowWrite.account]
    split
    · exact hbasis
    · exact h.basis_inv

theorem Board.Step.inv (h : s.Step d a s') (hinv : s.Inv d) : s'.Inv d := by
  cases h with
  | act _ _ hstep => exact hinv.advance hstep
  | execute _ hphase hlookup horder hadvance hstamped =>
    have hstep : s.world.Step d (.execute _ _) _ :=
      .execute hphase hlookup horder (congrArg Prod.snd hadvance) hstamped
    have hgrow := hinv.grow (hstep.inv hinv.world) (hstep.log_mono hinv.world)
    exact ⟨hgrow.world, hgrow.keyed, hgrow.basis, hgrow.read, hgrow.pending, hgrow.rebuilds⟩
  | @fetch p x status workspaceId hpending =>
    refine hinv.setPending p fun y hy => ?_
    obtain rfl := Option.some.inj hy
    exact hinv.pending p x hpending
  | @write p now x store hpending hperform =>
    have hbasis := x.write.account_inv (hinv.pending p x hpending) (hinv.basis _)
      (s.store.runs x.source.runId).isSome
    exact (hinv.setRow hbasis (RowWrite.perform_spec hinv.keyed hperform).1).setPending p
      fun _ hy => absurd hy (Option.not_mem_none _)
  | giveUp => exact hinv.setPending _ fun _ hy => absurd hy (Option.not_mem_none _)
  | rebuildLoad _ hload =>
    exact hinv.setRebuild _ ⟨List.prefix_rfl, (loadAll_eq_ok.mp hload).1.perm⟩
  | @rebuildClear j read events runOrder itemOrder hphase =>
    have hj := hinv.rebuilds j
    rw [hphase] at hj
    have hcleared : Board.Inv d { s with store := s.store.clear, basis := fun _ => ⟨[], []⟩ } :=
      ⟨hinv.world, fun _ _ hrow => (nomatch hrow), fun _ => ⟨fun _ he => absurd he List.not_mem_nil,
        fun _ he => absurd he List.not_mem_nil⟩, hinv.read, hinv.pending, hinv.rebuilds⟩
    exact hcleared.setRebuild j hj
  | @rebuildRun j read events row runs items hphase =>
    have hj := hinv.rebuilds j
    rw [hphase] at hj
    have hsource : Source.Inv s.world.log ⟨row.runId, read, events, []⟩ :=
      .of_read hj.1 hj.2 (List.nil_subset _) _
    exact (hinv.setRow hsource.basis_inv (hinv.keyed.upsert row)).setRebuild j hj
  | @rebuildItem j read events item items hphase =>
    have hj := hinv.rebuilds j
    rw [hphase] at hj
    have hitem : Board.Inv d { s with store := s.store.upsertWorkItemProjection item } :=
      ⟨hinv.world, hinv.keyed, hinv.basis, hinv.read, hinv.pending, hinv.rebuilds⟩
    exact hitem.setRebuild j hj
  | rebuildStop => exact hinv.setRebuild _ trivial

theorem Board.Inv.of_reach (h : Reachable (projecting d) s) : s.Inv d :=
  h.invariant (by rintro s rfl; exact .init) fun _ _ _ hinv hstep _ => Board.Step.inv hstep hinv

end invariant

end SamtaDashboard

import SamtaDashboard.Lib.Transition
import SamtaDashboard.System.WellFormed

/-!
# Interleavings: requests and workers side by side

Any number of requests to the API and of worker processes work on one event log. Every access to the
database is a step of its own: a control operation loads, decides, reads the next revision and
appends; a worker reads the whole log, executes the items of one run after the other, and for each
batch reads the revision and appends, again after a conflict. Between two steps of one process any
others may happen, and time passes.

The database does not fail. A process may stop at any step, and a batch is given up after
`append_max_attempts`.

Times are read off a clock for each process; what the clocks have to do with each other is an
assumption of the single theorems.
-/

namespace SamtaDashboard

open EventFold Transition

/-! ### Processes -/

inductive Process where
  | request (k : Nat)
  | worker (w : Nat)

/-- What a worker process reads from its environment, the executor apart. -/
structure WorkerSettings where
  worker : Worker
  maxItemsPerLoop : Nat
  itemAffinity : Bool
  appendMaxAttempts : Nat

/-- The settings of the loop with the executor of one iteration. -/
def WorkerSettings.config (settings : WorkerSettings) (executor : AgentExecutor) : LoopConfig where
  worker := settings.worker
  executor := executor
  maxItemsPerLoop := settings.maxItemsPerLoop
  itemAffinity := settings.itemAffinity

/-- What is fixed while the processes run: what a process reads off its clock at a given time, and
the settings of the workers. -/
structure Deployment where
  clock : Process → Time → Time
  worker : Nat → WorkerSettings

/-- Any two processes read the same clock, and it does not run backwards. -/
def Deployment.OneClock (d : Deployment) : Prop :=
  ∀ p p' t t', t ≤ t' → d.clock p t ≤ d.clock p' t'

/-- The events carry what the clock of process `p` shows at moments one after the other between two
times. -/
def Deployment.StampedBetween (d : Deployment) (p : Process) (since upTo : Time)
    (events : List EventEnvelope) : Prop :=
  ∃ moments : List Time, moments.Pairwise (· ≤ ·) ∧ (∀ t ∈ moments, since ≤ t ∧ t ≤ upTo) ∧
    events.map (·.occurredAt) = moments.map (d.clock p)

/-! ### Requests -/

/-- A request that appends events. -/
inductive Request where
  | createWorkspace (name : String)
  | createAgentProfile (name role : String)
  | startRun (workspaceId : Uuid) (objective : String) (targetItemCount agentCount : Option UInt16)
  | pauseRun (runId : Uuid)
  | resumeRun (runId : Uuid)
  | cancelRun (runId : Uuid)
  | retryRun (order : List Uuid) (runId : Uuid)

namespace Request

/-- The run of a control operation; the other requests make a new stream. -/
def runId? : Request → Option Uuid
  | createWorkspace _ | createAgentProfile .. | startRun .. => none
  | pauseRun runId | resumeRun runId | cancelRun runId | retryRun _ runId => some runId

/-- The stream that a request appends to. -/
def resource (request : Request) (draws : Draws) : Uuid := request.runId?.getD draws.resource

/-- The events that a request decides on: a control operation loads its run. -/
def Reads (request : Request) (log : EventLog) (events : List EventEnvelope) : Prop :=
  match request.runId? with
  | none => events = []
  | some runId => load log runId = .ok events ∧ events ≠ []

/-- What a request decides to append on these events. -/
def decide (draws : Draws) (events : List EventEnvelope) : Request → Option (List EventPayload)
  | createWorkspace name => some [.workspaceCreated name]
  | createAgentProfile name role => some [.agentProfileCreated name role .zero]
  | startRun workspaceId objective targetItemCount agentCount =>
    some (startRunPayloads draws workspaceId objective targetItemCount agentCount)
  | pauseRun runId => statusChange runId "paused" (some "manual pause") events
  | resumeRun runId => statusChange runId "running" (some "manual resume") events
  | cancelRun runId => statusChange runId "cancelled" (some "manual cancel") events
  | retryRun order runId => retryPayloads draws order runId events

/-- `retry_run` iterates over the items of its replay. -/
def Orders (events : List EventEnvelope) : Request → Prop
  | retryRun order _ => (RunReplayState.fromEvents events).workItems.IsOrder order
  | _ => True

/-- The ids of what a request creates are new to the log. -/
def New (draws : Draws) (log : EventLog) : Request → Prop
  | createWorkspace _ | createAgentProfile .. => stream log draws.resource = []
  | startRun .. => draws.NewRun log
  | _ => True

end Request

/-! ### States -/

structure Moment where
  now : Time
  log : EventLog

structure Snapshot extends Moment where
  events : List EventEnvelope

inductive RequestPhase where
  | idle
  /-- between the first load and `next_revision` -/
  | decided (request : Request) (draws : Draws) (payloads : List EventPayload)
  /-- between `next_revision` and the append -/
  | numbered (request : Request) (draws : Draws) (payloads : List EventPayload) (revision : Int)
    (seen : Moment)

inductive WorkerPhase where
  | idle
  /-- before the iterations over `runs` -/
  | ticking (snapshot : Snapshot) (runs : List Uuid)
  /-- in `append_events_with_retry`; `latest` is the revision that the attempt is based on -/
  | appending (snapshot : Snapshot) (runs : List Uuid) (runId : Uuid) (batch : List EventEnvelope)
    (latest : Option Int) (retries : Nat)

/-- The state of the database, of the time and of all processes. -/
structure World where
  now : Time
  log : EventLog
  requests : Nat → RequestPhase
  workers : Nat → WorkerPhase

namespace World

def init : World := ⟨0, [], fun _ => .idle, fun _ => .idle⟩

def moment (s : World) : Moment := ⟨s.now, s.log⟩

def setRequest (s : World) (k : Nat) (phase : RequestPhase) : World :=
  { s with requests := Function.update s.requests k phase }

def setWorker (s : World) (w : Nat) (phase : WorkerPhase) : World :=
  { s with workers := Function.update s.workers w phase }

end World

/-- After the iteration over a run: without events on to the next run, else to the append. -/
def afterIteration (settings : WorkerSettings) (snapshot : Snapshot) (runs : List Uuid)
    (runId : Uuid) (batch : List EventEnvelope) : WorkerPhase :=
  if batch.isEmpty then .ticking snapshot runs
  else .appending snapshot runs runId batch none (settings.appendMaxAttempts - 1)

/-- After a failed attempt to append: another one, or on to the next run. -/
def afterFailure (snapshot : Snapshot) (runs : List Uuid) (runId : Uuid)
    (batch : List EventEnvelope) : Nat → WorkerPhase
  | 0 => .ticking snapshot runs
  | retries + 1 => .appending snapshot runs runId batch none retries

/-! ### Steps -/

inductive Action where
  | pass (now : Time)
  /-- a request: `load`, `next_revision`, `append`, and an end without an append -/
  | decide (k : Nat) (request : Request) (draws : Draws)
  | number (k : Nat)
  | submit (k : Nat)
  | drop (k : Nat)
  /-- a worker: `load_all`, an iteration, an attempt's `load` and `append`, a failed attempt, and the
  end of the tick or of the process -/
  | loadAll (w : Nat)
  | execute (w : Nat) (executor : AgentExecutor)
  | readRevision (w : Nat)
  | append (w : Nat)
  | fail (w : Nat)
  | stop (w : Nat)

inductive World.Step (d : Deployment) (s : World) : Action → World → Prop
  | pass {now : Time} : s.now ≤ now → Step d s (.pass now) { s with now := now }
  | decide {k : Nat} {request : Request} {draws : Draws} {events : List EventEnvelope}
      {ps : List EventPayload} :
      s.requests k = .idle → request.Reads s.log events → request.Orders events →
      request.decide draws events = some ps →
      Step d s (.decide k request draws) (s.setRequest k (.decided request draws ps))
  | number {k : Nat} {request : Request} {draws : Draws} {ps : List EventPayload} {revision : Int} :
      s.requests k = .decided request draws ps →
      nextRevision s.log (request.resource draws) = .ok revision →
      Step d s (.number k) (s.setRequest k (.numbered request draws ps revision s.moment))
  | submit {k : Nat} {request : Request} {draws : Draws} {ps : List EventPayload} {revision : Int}
      {seen : Moment} {log' : EventLog} :
      s.requests k = .numbered request draws ps revision seen →
      request.New draws s.log →
      d.StampedBetween (.request k) seen.now s.now
        (newEvents draws (request.resource draws) revision ps) →
      append s.log (request.resource draws)
        (newEvents draws (request.resource draws) revision ps) = .ok log' →
      Step d s (.submit k) { s.setRequest k .idle with log := log' }
  | drop {k : Nat} : Step d s (.drop k) (s.setRequest k .idle)
  | loadAll {w : Nat} {events : List EventEnvelope} {runs : List Uuid} :
      s.workers w = .idle → LoadAll s.log (.ok events) →
      (runStatesFromEvents events).IsOrder runs →
      Step d s (.loadAll w) (s.setWorker w (.ticking ⟨s.moment, events⟩ runs))
  | execute {w : Nat} {executor : AgentExecutor} {snapshot : Snapshot} {r : Uuid} {runs : List Uuid}
      {state : RunState} {order : List Uuid} {stamp : Nat → Stamp} {batch : List EventEnvelope} :
      s.workers w = .ticking snapshot (r :: runs) →
      (runStatesFromEvents snapshot.events).lookup r = some state →
      state.items.IsOrder order →
      (((d.worker w).config executor).advanceRun stamp order r state).2 = batch →
      d.StampedBetween (.worker w) snapshot.now s.now batch →
      Step d s (.execute w executor)
        (s.setWorker w (afterIteration (d.worker w) snapshot runs r batch))
  | readRevision {w : Nat} {snapshot : Snapshot} {runs : List Uuid} {r : Uuid}
      {batch events : List EventEnvelope} {retries : Nat} :
      s.workers w = .appending snapshot runs r batch none retries →
      load s.log r = .ok events →
      Step d s (.readRevision w)
        (s.setWorker w (.appending snapshot runs r batch (some (lastRevision events)) retries))
  | append {w : Nat} {snapshot : Snapshot} {runs : List Uuid} {r : Uuid}
      {batch : List EventEnvelope} {latest : Int} {retries : Nat} {log' : EventLog} :
      s.workers w = .appending snapshot runs r batch (some latest) retries →
      append s.log r (withRebasedRevisions batch latest) = .ok log' →
      Step d s (.append w) { s.setWorker w (.ticking snapshot runs) with log := log' }
  | loadFailed {w : Nat} {snapshot : Snapshot} {runs : List Uuid} {r : Uuid}
      {batch : List EventEnvelope} {retries : Nat} {error : String} :
      s.workers w = .appending snapshot runs r batch none retries →
      load s.log r = .error error →
      Step d s (.fail w) (s.setWorker w (afterFailure snapshot runs r batch retries))
  | conflict {w : Nat} {snapshot : Snapshot} {runs : List Uuid} {r : Uuid}
      {batch : List EventEnvelope} {latest : Int} {retries : Nat} {error : String} :
      s.workers w = .appending snapshot runs r batch (some latest) retries →
      append s.log r (withRebasedRevisions batch latest) = .error error →
      Step d s (.fail w) (s.setWorker w (afterFailure snapshot runs r batch retries))
  | stop {w : Nat} : Step d s (.stop w) (s.setWorker w .idle)

/-- The processes of a deployment on an empty log. -/
def interleaving (d : Deployment) : System World Action where
  init := (· = World.init)
  step s a s' := s.Step d a s'

/-- The batch that a worker is going to append, with what the worker read at the beginning. -/
def World.batchOf (s : World) : Action → Option (Snapshot × Uuid × List EventEnvelope)
  | .append w =>
    match s.workers w with
    | .appending snapshot _ r batch (some _) _ => some (snapshot, r, batch)
    | _ => none
  | _ => none

/-! ### What a step does to a request -/

/-- What a request has decided and not appended yet. -/
def RequestPhase.pending? : RequestPhase → Option (Request × Draws × List EventPayload)
  | .idle => none
  | .decided request draws ps | .numbered request draws ps .. => some (request, draws, ps)

theorem World.requests_setRequest (s : World) (k k' : Nat) (phase : RequestPhase) :
    (s.setRequest k phase).requests k' = if k' = k then phase else s.requests k' :=
  Function.update_apply ..

theorem World.Step.pending_request {d : Deployment} {s s' : World} {a : Action} (h : s.Step d a s')
    (k : Nat) {x : Request × Draws × List EventPayload} (hx : x ∈ (s'.requests k).pending?) :
    x ∈ (s.requests k).pending? ∨ ∃ events, a = .decide k x.1 x.2.1 ∧ x.1.Reads s.log events ∧
      x.1.Orders events ∧ x.1.decide x.2.1 events = some x.2.2 := by
  have hset : ∀ (k' : Nat) (phase : RequestPhase), x ∈ ((s.setRequest k' phase).requests k).pending? →
      x ∈ (s.requests k).pending? ∨ k = k' ∧ x ∈ phase.pending? := by
    intro k' phase hx
    rw [requests_setRequest] at hx
    split at hx
    · next heq => exact Or.inr ⟨heq, hx⟩
    · exact Or.inl hx
  cases h with
  | decide hphase hreads horders hdecide =>
    rcases hset _ _ hx with hold | ⟨rfl, hnew⟩
    · exact Or.inl hold
    · obtain rfl := Option.some.inj hnew
      exact Or.inr ⟨_, rfl, hreads, horders, hdecide⟩
  | number hphase =>
    rcases hset _ _ hx with hold | ⟨rfl, hsame⟩
    · exact Or.inl hold
    · rw [hphase]
      exact Or.inl hsame
  | submit | drop =>
    rcases hset _ .idle hx with hold | ⟨-, hidle⟩
    · exact Or.inl hold
    · cases hidle
  | _ => exact Or.inl hx

/-! ### What a step does to a worker -/

/-- The batch that a worker is about to append. -/
def WorkerPhase.batch : WorkerPhase → List EventEnvelope
  | .appending _ _ _ batch _ _ => batch
  | _ => []

/-- How the phase of worker `w` changes when the worker takes a step itself. -/
inductive WorkerMove (d : Deployment) (s : World) (w : Nat) : Action → WorkerPhase → Prop
  | load {events : List EventEnvelope} {runs : List Uuid} : s.workers w = .idle →
      LoadAll s.log (.ok events) → (runStatesFromEvents events).IsOrder runs →
      WorkerMove d s w (.loadAll w) (.ticking ⟨s.moment, events⟩ runs)
  | execute {executor : AgentExecutor} {snapshot : Snapshot} {r : Uuid} {runs : List Uuid}
      {state : RunState} {order : List Uuid} {stamp : Nat → Stamp} :
      s.workers w = .ticking snapshot (r :: runs) →
      (runStatesFromEvents snapshot.events).lookup r = some state → state.items.IsOrder order →
      d.StampedBetween (.worker w) snapshot.now s.now
        (((d.worker w).config executor).advanceRun stamp order r state).2 →
      WorkerMove d s w (.execute w executor) (afterIteration (d.worker w) snapshot runs r
        (((d.worker w).config executor).advanceRun stamp order r state).2)
  | again {a : Action} {snapshot : Snapshot} {runs : List Uuid} {r : Uuid}
      {batch : List EventEnvelope} {latest latest' : Option Int} {retries retries' : Nat} :
      s.workers w = .appending snapshot runs r batch latest retries →
      WorkerMove d s w a (.appending snapshot runs r batch latest' retries')
  | done {a : Action} {snapshot : Snapshot} {runs : List Uuid} {r : Uuid}
      {batch : List EventEnvelope} {latest : Option Int} {retries : Nat} :
      s.workers w = .appending snapshot runs r batch latest retries →
      WorkerMove d s w a (.ticking snapshot runs)
  | stop : WorkerMove d s w (.stop w) .idle

section worker

variable {d : Deployment} {s s' : World} {a : Action} {w : Nat}

theorem World.workers_setWorker (s : World) (w w' : Nat) (phase : WorkerPhase) :
    (s.setWorker w phase).workers w' = if w' = w then phase else s.workers w' :=
  Function.update_apply ..

theorem WorkerMove.afterFailure {snapshot : Snapshot} {runs : List Uuid} {r : Uuid}
    {batch : List EventEnvelope} {latest : Option Int} {retries : Nat}
    (h : s.workers w = .appending snapshot runs r batch latest retries) :
    WorkerMove d s w a (afterFailure snapshot runs r batch retries) := by
  cases retries with
  | zero => exact .done h
  | succ retries => exact .again h

theorem World.Step.worker (h : s.Step d a s') (w : Nat) :
    s'.workers w = s.workers w ∨ WorkerMove d s w a (s'.workers w) := by
  have hset : ∀ (w' : Nat) (phase : WorkerPhase), WorkerMove d s w' a phase →
      (s.setWorker w' phase).workers w = s.workers w ∨
        WorkerMove d s w a ((s.setWorker w' phase).workers w) := by
    intro w' phase hmove
    rw [workers_setWorker]
    split
    · next heq => exact Or.inr (heq ▸ hmove)
    · exact Or.inl rfl
  cases h with
  | pass | decide | number | submit | drop => exact Or.inl rfl
  | loadAll hphase hload horder => exact hset _ _ (.load hphase hload horder)
  | execute hphase hlookup horder hbatch hstamped =>
    subst hbatch
    exact hset _ _ (.execute hphase hlookup horder hstamped)
  | readRevision hphase => exact hset _ _ (.again hphase)
  | append hphase => exact hset _ _ (.done hphase)
  | loadFailed hphase => exact hset _ _ (.afterFailure hphase)
  | conflict hphase => exact hset _ _ (.afterFailure hphase)
  | stop => exact hset _ _ .stop

theorem World.Step.idle (h : s.Step d a s') (hidle : s.workers w = .idle) (hload : a ≠ .loadAll w) :
    s'.workers w = .idle := by
  rcases h.worker w with hsame | hmove
  · rw [hsame, hidle]
  · revert hmove
    generalize s'.workers w = phase
    intro hmove
    cases hmove with
    | load => exact absurd rfl hload
    | execute hphase | again hphase | done hphase => rw [hidle] at hphase; cases hphase
    | stop => rfl

end worker

end SamtaDashboard

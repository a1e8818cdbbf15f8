import SamtaDashboard.Api.Routes
import SamtaDashboard.Lib.Transition
import SamtaDashboard.System.WellFormed
import Mathlib.Logic.Relation

/-!
# Histories: operations one after the other

The event log under `start_run`, the control operations and worker ticks, each run to completion
before the next begins. `history` is the transition system; its logs are well formed, hold run
events only and every stream of theirs begins with its `RunStarted` (`RunLog`). No assumption about
the clocks is made here: a tick may read the log in an order that is not the order of the commits.
-/

namespace SamtaDashboard

open EventFold Transition

/-- An operation with everything it gets from outside. -/
inductive Operation where
  | startRun (draws : Draws) (workspaceId : Uuid) (objective : String)
    (targetItemCount agentCount : Option UInt16)
  | pauseRun (draws : Draws) (runId : Uuid)
  | resumeRun (draws : Draws) (runId : Uuid)
  | cancelRun (draws : Draws) (runId : Uuid)
  | retryRun (draws : Draws) (order : List Uuid) (runId : Uuid)
  | tick (input : TickInput) (events : List EventEnvelope)

/-- The iteration orders of a tick are orders of the maps it iterates over. -/
def TickInput.Orders (input : TickInput) (events : List EventEnvelope) : Prop :=
  (runStatesFromEvents events).IsOrder input.runOrder ∧
    ∀ r state, (runStatesFromEvents events).lookup r = some state →
      state.items.IsOrder (input.itemOrder r)

/-- One operation on the log, run to completion without failure. -/
def historyStep (log : EventLog) (operation : Operation) (log' : EventLog) : Prop :=
  match operation with
  | .startRun draws workspaceId objective targetItemCount agentCount =>
    draws.NewRun log ∧
      startRun draws log workspaceId objective targetItemCount agentCount =
        .ok (draws.resource, log')
  | .pauseRun draws runId => ∃ changed, pauseRun draws log runId = .ok (changed, log')
  | .resumeRun draws runId => ∃ changed, resumeRun draws log runId = .ok (changed, log')
  | .cancelRun draws runId => ∃ changed, cancelRun draws log runId = .ok (changed, log')
  | .retryRun draws order runId =>
    (RunReplayState.fromEvents (stream log runId)).workItems.IsOrder order ∧
      ∃ changed, retryRun draws order log runId = .ok (changed, log')
  | .tick input events =>
    LoadAll log (.ok events) ∧ input.Orders events ∧
      log' = (input.tick events ⟨log, .empty⟩).log

/-- Histories of the event log, from the empty one. -/
def history : System EventLog Operation where
  init := (· = [])
  step := historyStep

/-! ### One change of the log -/

/-- The worker read the run's events, the last ones included, in the order of their times. -/
def ReadBy (log : EventLog) (r : Uuid) (state : RunState) : Prop :=
  ∃ read events, read <+: log ∧ stream read r = stream log r ∧ InTimeOrder read events ∧
    replayRun (runEvents events r) = some state

/-- `start_run` appended a new run's plan. -/
structure Started (log log' : EventLog) (draws : Draws) (workspaceId : Uuid) : Prop where
  new : draws.NewRun log
  appended : ∃ rows objective targetItemCount agentCount, Appended log log' draws.resource rows ∧
    payloads rows = startRunPayloads draws workspaceId objective targetItemCount agentCount

/-- A control operation appended a status that is not the run's status in its own replay. -/
structure StatusChanged (log log' : EventLog) (r : Uuid) (status : String) : Prop where
  exists_run : stream log r ≠ []
  allowed : status ∈ EventPayload.controlStatuses
  differs : (RunReplayState.fromEvents (stream log r)).status ≠ status
  appended : ∃ rows reason, Appended log log' r rows ∧
    payloads rows = [.runStatusChanged r status reason]

/-- `retry_run` appended a batch. -/
structure Retried (log log' : EventLog) (r : Uuid) : Prop where
  exists_run : stream log r ≠ []
  appended : ∃ rows draws order, Appended log log' r rows ∧
    retryPayloads draws order r (stream log r) = some (payloads rows)

/-- A worker appended the batch of an iteration over a run that it had read completely. -/
structure Advances (log log' : EventLog) (r : Uuid) (config : LoopConfig) (state state' : RunState)
    (batch : List EventEnvelope) (executed : List (Uuid × Outcome)) (summary : Option String) :
    Prop where
  read : ReadBy log r state
  advanced : Advanced config r state state' batch executed summary
  appended : ∃ rows, Appended log log' r rows ∧ payloads rows = payloads batch

/-- What a single append of a history does to the log. -/
inductive Change (log log' : EventLog) : Prop
  | start (draws : Draws) (workspaceId : Uuid) : Started log log' draws workspaceId → Change log log'
  | status (r : Uuid) (status : String) : StatusChanged log log' r status → Change log log'
  | retry (r : Uuid) : Retried log log' r → Change log log'
  | batch {r : Uuid} {config : LoopConfig} {state state' : RunState} {batch : List EventEnvelope}
      {executed : List (Uuid × Outcome)} {summary : Option String} :
      Advances log log' r config state state' batch executed summary → Change log log'

theorem Change.appended {log log' : EventLog} (h : Change log log') :
    ∃ r rows, Appended log log' r rows := by
  cases h with
  | start draws _ h =>
    obtain ⟨rows, _, _, _, happ, _⟩ := h.appended
    exact ⟨_, rows, happ⟩
  | status r _ h =>
    obtain ⟨rows, _, happ, _⟩ := h.appended
    exact ⟨r, rows, happ⟩
  | retry r h =>
    obtain ⟨rows, _, _, happ, _⟩ := h.appended
    exact ⟨r, rows, happ⟩
  | batch h =>
    obtain ⟨rows, happ, _⟩ := h.appended
    exact ⟨_, rows, happ⟩

theorem Change.wellFormed {log log' : EventLog} (h : Change log log') (hwf : WellFormed log) :
    WellFormed log' := by
  obtain ⟨r, rows, happ⟩ := h.appended
  exact happ.wellFormed hwf

theorem statusChange_eq_some {r : Uuid} {status : String} {reason : Option String}
    {events : List EventEnvelope} {ps : List EventPayload} :
    statusChange r status reason events = some ps ↔
      (RunReplayState.fromEvents events).status ≠ status ∧
        ps = [.runStatusChanged r status reason] := by
  unfold statusChange
  split
  · next h => simp [h]
  · next h => simpa [h] using eq_comm

section changes

variable {log log' : EventLog} {r : Uuid} {draws : Draws} {changed : Bool}

theorem changeStatus_spec (h : WellFormed log) {status : String} {reason : Option String}
    (hstatus : status ∈ EventPayload.controlStatuses)
    (hok : changeStatus draws log r status reason = .ok (changed, log')) :
    changed = false ∧ log' = log ∨ changed = true ∧ StatusChanged log log' r status := by
  obtain ⟨-, hne, hdecide⟩ := h.gapFree.control_eq_ok.mp hok
  cases hd : statusChange r status reason (stream log r) with
  | none =>
    rw [hd] at hdecide
    exact Or.inl hdecide
  | some ps =>
    rw [hd] at hdecide
    obtain ⟨hchanged, -, hlog⟩ := hdecide
    obtain ⟨hcurrent, rfl⟩ := statusChange_eq_some.mp hd
    exact Or.inr ⟨hchanged, hne, hstatus, hcurrent, _, reason,
      appended_newEvents (admissible_statusChange hstatus reason) hlog, payloads_newEvents ..⟩

theorem retryRun_appended (h : WellFormed log) {order : List Uuid}
    (hok : retryRun draws order log r = .ok (changed, log')) :
    changed = false ∧ log' = log ∨ changed = true ∧ stream log r ≠ [] ∧ ∃ rows,
      Appended log log' r rows ∧ retryPayloads draws order r (stream log r) = some (payloads rows) := by
  obtain ⟨-, hne, hdecide⟩ := h.gapFree.control_eq_ok.mp hok
  cases hd : retryPayloads draws order r (stream log r) with
  | none =>
    rw [hd] at hdecide
    exact Or.inl hdecide
  | some ps =>
    rw [hd] at hdecide
    obtain ⟨hchanged, -, hlog⟩ := hdecide
    refine Or.inr ⟨hchanged, hne, _,
      appended_newEvents (admissible_retry h (fun _ he => he) hd) hlog, ?_⟩
    rw [payloads_newEvents]

theorem retryRun_spec (h : WellFormed log) {order : List Uuid}
    (hok : retryRun draws order log r = .ok (changed, log')) :
    changed = false ∧ log' = log ∨ changed = true ∧ Retried log log' r := by
  rcases retryRun_appended h hok with hsame | ⟨hchanged, hne, rows, happ, hps⟩
  · exact Or.inl hsame
  · exact Or.inr ⟨hchanged, hne, rows, draws, order, happ, hps⟩

theorem startRun_spec (h : WellFormed log) (hnew : draws.NewRun log) {workspaceId id : Uuid}
    {objective : String} {targetItemCount agentCount : Option UInt16}
    (hok : startRun draws log workspaceId objective targetItemCount agentCount =
      .ok (id, log')) : id = draws.resource ∧ Started log log' draws workspaceId := by
  obtain ⟨hid, happ⟩ := startRun_eq_ok.mp hok
  obtain ⟨-, -, hlog⟩ := h.gapFree.appendNext_eq_ok.mp happ
  exact ⟨hid, hnew, _, objective, targetItemCount, agentCount,
    appended_newEvents (admissible_startRun hnew.1 hnew.2 _ _ _ _) hlog, payloads_newEvents ..⟩

end changes

/-! ### A tick -/

/-- What a tick executes of a run that it has read in this state. -/
def TickInput.executions (input : TickInput) (r : Uuid) (state : RunState) :
    List (Uuid × Outcome) :=
  input.config.executions (input.stamp r) (input.itemOrder r) r input.config.maxItemsPerLoop
    (LoopConfig.enterRun state)

theorem TickInput.visitRun_cases (input : TickInput) (runStates : HashMap RunState) {db : Db}
    (h : GapFree db.log) (r : Uuid) :
    input.visitRun runStates db r = db ∨
      ∃ state state' batch summary, runStates.lookup r = some state ∧
        LoopConfig.skips state = false ∧
        input.config.advanceRun (input.stamp r) (input.itemOrder r) r state = (state', batch) ∧
        Advanced input.config r state state' batch (input.executions r state) summary ∧
        input.visitRun runStates db r =
          ⟨db.log ++ appendedRows db.log r batch, updateRunProjections state' db.store r batch⟩ := by
  unfold visitRun
  cases hlookup : runStates.lookup r with
  | none => exact Or.inl rfl
  | some state =>
    dsimp only
    cases hskips : LoopConfig.skips state with
    | true => exact Or.inl (by rw [LoopConfig.advanceRun_of_skips hskips]; rfl)
    | false =>
      obtain ⟨summary, hadv⟩ := input.config.advanceRun_spec (input.stamp r)
        (input.itemOrder r) r hskips
      cases hres : input.config.advanceRun (input.stamp r) (input.itemOrder r) r state with
      | mk state' batch =>
        rw [hres] at hadv
        dsimp only at hadv ⊢
        split
        · exact Or.inl rfl
        · split
          · exact Or.inl rfl
          · next log' happ =>
            rw [appendEventsWithRetry_eq] at happ
            obtain ⟨-, rfl, -⟩ := h.appendAttempt_eq_ok.mp happ
            exact Or.inr ⟨state, state', batch, summary, rfl, hskips, hres, hadv, rfl⟩

/-- What a single append and the writes to the tables that follow it do to the database. -/
inductive DbChange (db db' : Db) : Prop
  | start (draws : Draws) (workspaceId : Uuid) (now : Time) :
      Started db.log db'.log draws workspaceId →
      db'.store = upsertNewRun db.store draws.resource workspaceId "running" now → DbChange db db'
  | status (r : Uuid) (status : String) (now : Time) : StatusChanged db.log db'.log r status →
      syncProjectionStatus db.store r none status now = .ok db'.store → DbChange db db'
  | retry (r : Uuid) (workspaceId : Option Uuid) (now : Time) : Retried db.log db'.log r →
      syncProjectionStatus db.store r workspaceId "running" now = .ok db'.store → DbChange db db'
  | batch {r : Uuid} {config : LoopConfig} {state state' : RunState} {batch : List EventEnvelope}
      {executed : List (Uuid × Outcome)} {summary : Option String} :
      Advances db.log db'.log r config state state' batch executed summary →
      db'.store = updateRunProjections state' db.store r batch → DbChange db db'

theorem DbChange.log {db db' : Db} (h : DbChange db db') : Change db.log db'.log := by
  cases h with
  | start draws workspaceId _ h _ => exact .start draws workspaceId h
  | status r status _ h _ => exact .status r status h
  | retry r _ _ h _ => exact .retry r h
  | batch h _ => exact .batch h

/-- In its tick on `events`, which are those of the log `read`, a worker visits run `r` and appends a
batch. -/
structure Visited (input : TickInput) (read events : List EventEnvelope) (log log' : EventLog)
    (r : Uuid) (state state' : RunState) (batch : List EventEnvelope) (summary : Option String) :
    Prop where
  prefixed : read <+: log
  unchanged : stream read r = stream log r
  order : InTimeOrder read events
  lookup : (runStatesFromEvents events).lookup r = some state
  processed : LoopConfig.skips state = false
  advances : Advances log log' r input.config state state' batch (input.executions r state) summary

/-- The same with the projection of the batch. -/
def TickInput.Visits (input : TickInput) (read events : List EventEnvelope) (db db' : Db) : Prop :=
  ∃ r state state' batch summary,
    Visited input read events db.log db'.log r state state' batch summary ∧
      db'.store = updateRunProjections state' db.store r batch

theorem TickInput.visitRuns_visits (input : TickInput) {read events : List EventEnvelope}
    (horder : InTimeOrder read events) {runs : List Uuid} (hnodup : runs.Nodup) {db : Db}
    (hwf : WellFormed db.log) (hread : read <+: db.log)
    (hstreams : ∀ r ∈ runs, stream read r = stream db.log r) :
    Relation.ReflTransGen (input.Visits read events) db
      (runs.foldl (input.visitRun (runStatesFromEvents events)) db) := by
  induction runs generalizing db with
  | nil => exact .refl
  | cons r runs ih =>
    rw [List.nodup_cons] at hnodup
    rw [List.foldl_cons]
    rcases input.visitRun_cases (runStatesFromEvents events) hwf.gapFree r with
      heq | ⟨state, state', batch, summary, hlookup, hskips, -, hadv, heq⟩
    · rw [heq]
      exact ih hnodup.2 hwf hread fun r' hr' => hstreams r' (List.mem_cons_of_mem _ hr')
    · have hstate := hlookup
      rw [lookup_runStatesFromEvents] at hstate
      have hitems : ∀ x ∈ input.executions r state, AssignedIn db.log r x.1 :=
        hadv.assignedIn hwf (fun e he => hread.subset (horder.perm.subset he)) hstate
      have happ : Appended db.log (db.log ++ appendedRows db.log r batch) r
          (appendedRows db.log r batch) := appended_rows (admissible_batch hadv hitems) rfl
      have hsame := hstreams r List.mem_cons_self
      have hvisits : input.Visits read events db
          ⟨db.log ++ appendedRows db.log r batch, updateRunProjections state' db.store r batch⟩ :=
        ⟨r, state, state', batch, summary, ⟨hread, hsame, horder, hlookup, hskips,
          ⟨read, events, hread, hsame, horder, hstate⟩, hadv, _, happ, payloads_appendedRows ..⟩, rfl⟩
      rw [heq]
      refine Relation.ReflTransGen.head hvisits (ih hnodup.2 (happ.wellFormed hwf)
        (hread.trans (List.prefix_append _ _)) fun r' hr' => ?_)
      have hne : r' ≠ r := fun h => hnodup.1 (h ▸ hr')
      rw [stream_append, stream_rows happ.run, if_neg hne, List.append_nil]
      exact hstreams r' (List.mem_cons_of_mem _ hr')

theorem TickInput.tick_visits {input : TickInput} {events : List EventEnvelope} {db : Db}
    (hwf : WellFormed db.log) (hload : LoadAll db.log (.ok events)) (horders : input.Orders events) :
    Relation.ReflTransGen (input.Visits db.log events) db (input.tick events db) :=
  input.visitRuns_visits (loadAll_eq_ok.mp hload).1 horders.1.1 hwf List.prefix_rfl
    fun _ _ => rfl

theorem TickInput.tick_changes {input : TickInput} {events : List EventEnvelope} {db : Db}
    (hwf : WellFormed db.log) (hload : LoadAll db.log (.ok events)) (horders : input.Orders events) :
    Relation.ReflTransGen DbChange db (input.tick events db) := by
  refine (TickInput.tick_visits hwf hload horders).lift id fun _ _ h => ?_
  obtain ⟨r, state, state', batch, summary, hvisited, hstore⟩ := h
  exact .batch hvisited.advances hstore

/-! ### The operation behind a change -/

/-- A single append that an operation on the log `base` makes. A tick may make several. -/
inductive Operation.Makes (base : EventLog) : Operation → EventLog → EventLog → Prop
  | startRun {draws : Draws} {workspaceId : Uuid} {objective : String}
      {targetItemCount agentCount : Option UInt16} {log' : EventLog} :
      Started base log' draws workspaceId →
      Makes base (.startRun draws workspaceId objective targetItemCount agentCount) base log'
  | pauseRun {draws : Draws} {r : Uuid} {log' : EventLog} :
      StatusChanged base log' r "paused" → Makes base (.pauseRun draws r) base log'
  | resumeRun {draws : Draws} {r : Uuid} {log' : EventLog} :
      StatusChanged base log' r "running" → Makes base (.resumeRun draws r) base log'
  | cancelRun {draws : Draws} {r : Uuid} {log' : EventLog} :
      StatusChanged base log' r "cancelled" → Makes base (.cancelRun draws r) base log'
  | retryRun {draws : Draws} {order : List Uuid} {r : Uuid} {rows : List EventEnvelope}
      {log' : EventLog} : stream base r ≠ [] →
      (RunReplayState.fromEvents (stream base r)).workItems.IsOrder order →
      Appended base log' r rows →
      retryPayloads draws order r (stream base r) = some (payloads rows) →
      Makes base (.retryRun draws order r) base log'
  | tick {input : TickInput} {events : List EventEnvelope} {log log' : EventLog} {r : Uuid}
      {state state' : RunState} {batch : List EventEnvelope} {summary : Option String} :
      Visited input base events log log' r state state' batch summary →
      Makes base (.tick input events) log log'

theorem Operation.Makes.change {base log log' : EventLog} {operation : Operation}
    (h : operation.Makes base log log') : Change log log' := by
  cases h with
  | startRun h => exact .start _ _ h
  | pauseRun h | resumeRun h | cancelRun h => exact .status _ _ h
  | retryRun hne _ happ hps => exact .retry _ ⟨hne, _, _, _, happ, hps⟩
  | tick h => exact .batch h.advances

theorem historyStep_makes {log log' : EventLog} {operation : Operation} (hwf : WellFormed log)
    (h : historyStep log operation log') :
    Relation.ReflTransGen (operation.Makes log) log log' := by
  have hcontrol : ∀ {changed : Bool} {r : Uuid} {status : String},
      changed = false ∧ log' = log ∨ changed = true ∧ StatusChanged log log' r status →
      (StatusChanged log log' r status → operation.Makes log log log') →
      Relation.ReflTransGen (operation.Makes log) log log' := by
    rintro changed r status (⟨-, rfl⟩ | ⟨-, h⟩) hmakes
    · exact .refl
    · exact .single (hmakes h)
  cases operation with
  | startRun draws workspaceId objective targetItemCount agentCount =>
    exact .single (.startRun (startRun_spec hwf h.1 h.2).2)
  | pauseRun draws r =>
    obtain ⟨changed, h⟩ := h
    exact hcontrol (changeStatus_spec hwf (by decide) h) .pauseRun
  | resumeRun draws r =>
    obtain ⟨changed, h⟩ := h
    exact hcontrol (changeStatus_spec hwf (by decide) h) .resumeRun
  | cancelRun draws r =>
    obtain ⟨changed, h⟩ := h
    exact hcontrol (changeStatus_spec hwf (by decide) h) .cancelRun
  | retryRun draws order r =>
    obtain ⟨horder, changed, h⟩ := h
    rcases retryRun_appended hwf h with ⟨-, rfl⟩ | ⟨-, hne, rows, happ, hps⟩
    · exact .refl
    · exact .single (.retryRun hne horder happ hps)
  | tick input events =>
    obtain ⟨hload, horders, rfl⟩ := h
    have hvisits : Relation.ReflTransGen (input.Visits log events) ⟨log, .empty⟩
        (input.tick events ⟨log, .empty⟩) := TickInput.visitRuns_visits input
      (loadAll_eq_ok.mp hload).1 horders.1.1 hwf List.prefix_rfl fun _ _ => rfl
    refine hvisits.lift Db.log fun db db' h => ?_
    obtain ⟨r, state, state', batch, summary, hvisited, -⟩ := h
    exact .tick hvisited

/-- What holds of the empty log and is kept by every append that the guarded operations make holds of
every log that they lead to. -/
theorem history_guarded {guard : EventLog → Operation → Prop} {I : EventLog → Prop} (hempty : I [])
    (hmakes : ∀ base operation log log', Reach history guard base → guard base operation →
      operation.Makes base log log' → WellFormed log → I log → I log') {log : EventLog}
    (h : Reach history guard log) : WellFormed log ∧ I log := by
  refine h.invariant_of (K := Reach history guard) (I := fun log => WellFormed log ∧ I log)
    (fun _ hreach => hreach) ?_ ?_
  · rintro s rfl
    exact ⟨WellFormed.empty, hempty⟩
  · intro base operation log' hreach hinv hstep hguard
    have hpath := historyStep_makes hinv.1 hstep
    clear hstep
    induction hpath with
    | refl => exact hinv
    | tail _ hmade ih =>
      exact ⟨hmade.change.wellFormed ih.1, hmakes _ _ _ _ hreach hguard hmade ih.1 ih.2⟩

theorem history_invariant {I : EventLog → Prop} (hempty : I [])
    (hchange : ∀ log log', WellFormed log → I log → Change log log' → I log') {log : EventLog}
    (h : Reachable history log) : WellFormed log ∧ I log :=
  history_guarded hempty (fun _ _ _ _ _ _ hmade hwf hI => hchange _ _ hwf hI hmade.change) h

theorem history_wellFormed {log : EventLog} (h : Reachable history log) : WellFormed log :=
  (history_invariant (I := fun _ => True) trivial (fun _ _ _ _ _ => trivial) h).1

/-! ### Sample operations

A run that is started and advanced: ids and times count up, maps are iterated in key order. -/

/-- The stamps `base`, `base + 1`, … -/
def countingStamp (base k : Nat) : Stamp := ⟨⟨BitVec.ofNat 128 (base + k)⟩, (base + k : Nat)⟩

/-- The draws of an operation on run `r` whose stamps count from `base`. -/
def Draws.counting (r : Uuid) (base : Nat) : Draws where
  resource := r
  stamp := countingStamp base
  actor k := ⟨BitVec.ofNat 128 (k + 40)⟩
  item k := ⟨BitVec.ofNat 128 (k + 10)⟩
  agent k := ⟨BitVec.ofNat 128 (k + 20)⟩
  profile k := ⟨BitVec.ofNat 128 (k + 30)⟩
  standIn k := ⟨BitVec.ofNat 128 (k + 50)⟩

def sampleRun : Uuid := ⟨1⟩

def sampleWorkspace : Uuid := ⟨2⟩

/-- The log that a control operation leaves. -/
def logAfter {α : Type} : Except String (α × EventLog) → EventLog
  | .ok (_, log) => log
  | .error _ => []

/-- The log after the start of a run with this many items. -/
def startedLog (items : UInt16) : EventLog :=
  logAfter (startRun (.counting sampleRun 100) [] sampleWorkspace "" (some items) (some 1))

def sampleResult : ExecutionResult := ⟨true, ⟨2, by decide⟩, .finite 1, none, none⟩

/-- An executor that fails on some items and does the others for a cost of 1. -/
def sampleExecutor (failing : List Uuid) : AgentExecutor := fun ctx =>
  if ctx.itemId ∈ failing then .error "no connection"
  else .ok sampleResult

/-- A worker that advances up to two items. -/
def sampleWorker (executor : AgentExecutor) : LoopConfig := ⟨⟨⟨60⟩⟩, executor, 2, false⟩

/-- A tick that iterates over its maps in the order of their keys. -/
def TickInput.ofKeys (config : LoopConfig) (stamp : Uuid → Nat → Stamp)
    (events : List EventEnvelope) : TickInput where
  config := config
  appendMaxAttempts := 3
  runOrder := (runStatesFromEvents events).keys
  itemOrder r := ((runStatesFromEvents events).lookup r).elim [] (·.items.keys)
  stamp := stamp

/-- The log after a tick on the events of `log`. -/
def tickedLog (executor : AgentExecutor) (base : Nat) (log : EventLog) : EventLog :=
  ((TickInput.ofKeys (sampleWorker executor) (fun _ => countingStamp base) log).tick log
    ⟨log, .empty⟩).log

theorem TickInput.ofKeys_orders (config : LoopConfig) (stamp : Uuid → Nat → Stamp)
    (events : List EventEnvelope) : (TickInput.ofKeys config stamp events).Orders events := by
  refine ⟨HashMap.isOrder_keys _, fun r state h => ?_⟩
  simp only [ofKeys, h, Option.elim_some]
  exact HashMap.isOrder_keys _

theorem startedLog_one_reachable : Reachable history (startedLog 1) :=
  .step (.startRun (.counting sampleRun 100) sampleWorkspace "" (some 1) (some 1)) (.init rfl)
    ⟨⟨rfl, by simp⟩, rfl⟩ trivial

theorem tickedLog_reach {guard : EventLog → Operation → Prop} {log : EventLog}
    (h : Reach history guard log) (executor : AgentExecutor) (base : Nat)
    (hsorted : log.Pairwise timeLe) (hfinite : ∀ e ∈ log, e.payload.costIsFinite = true)
    (hguard : guard log
      (.tick (.ofKeys (sampleWorker executor) (fun _ => countingStamp base) log) log)) :
    Reach history guard (tickedLog executor base log) :=
  .step (.tick (.ofKeys (sampleWorker executor) (fun _ => countingStamp base) log) log) h
    ⟨loadAll_eq_ok.mpr ⟨⟨.refl _, hsorted⟩, hfinite⟩, TickInput.ofKeys_orders _ _ _, rfl⟩ hguard

theorem tickedLog_reachable {log : EventLog} (h : Reachable history log) (executor : AgentExecutor)
    (base : Nat) (hsorted : log.Pairwise timeLe)
    (hfinite : ∀ e ∈ log, e.payload.costIsFinite = true) :
    Reachable history (tickedLog executor base log) :=
  tickedLog_reach h executor base hsorted hfinite trivial

end SamtaDashboard

import SamtaDashboard.Api.Routes
import SamtaDashboard.Lib.Faulty

/-!
# `api::routes` on a database that fails

The handlers again, as programs of the operations that they issue one after the other: the loads and
the append of the orchestrator, which is one transaction, and the statements on the projection tables.
Any of them may fail. On a database that does not fail they are the handlers of `api::routes` as before
(`Mutation.handle_returns`).
-/

namespace SamtaDashboard

open Faulty Faulty.Program

/-! ### The orchestrator

`anyhow` passes the errors of the database on. -/

namespace Orchestrator

/-- `EventStore::load`. -/
def load (runId : Uuid) : Program Db String String (List EventEnvelope) :=
  read id fun db => SamtaDashboard.load db.log runId

def nextRevision (resourceId : Uuid) : Program Db String String Int :=
  read id fun db => SamtaDashboard.nextRevision db.log resourceId

/-- `EventStore::append`. -/
def append (aggregateId : Uuid) (events : List EventEnvelope) : Program Db String String Unit :=
  operation id fun db =>
    (SamtaDashboard.append db.log aggregateId events).map fun log => ((), { db with log := log })

def startRun (draws : Draws) (workspaceId : Uuid) (objective : String)
    (targetItemCount agentCount : Option UInt16) : Program Db String String Uuid := do
  let revision ← nextRevision draws.resource
  append draws.resource (newEvents draws draws.resource revision
    (startRunPayloads draws workspaceId objective targetItemCount agentCount))
  return draws.resource

def changeStatus (draws : Draws) (runId : Uuid) (status : String) (reason : Option String) :
    Program Db String String Bool := do
  let events ← load runId
  if events.isEmpty then fail s!"run {runId.toText} not found"
  else
    match statusChange runId status reason events with
    | none => return false
    | some payloads =>
      let revision ← nextRevision runId
      append runId (newEvents draws runId revision payloads)
      return true

def pauseRun (draws : Draws) (runId : Uuid) : Program Db String String Bool :=
  changeStatus draws runId "paused" (some "manual pause")

def resumeRun (draws : Draws) (runId : Uuid) : Program Db String String Bool :=
  changeStatus draws runId "running" (some "manual resume")

def cancelRun (draws : Draws) (runId : Uuid) : Program Db String String Bool :=
  changeStatus draws runId "cancelled" (some "manual cancel")

/-- `retry_run`: it reads the next revision before it looks for items to reassign. -/
def retryRun (draws : Draws) (order : List Uuid) (runId : Uuid) : Program Db String String Bool := do
  let events ← load runId
  if events.isEmpty then fail s!"run {runId.toText} not found"
  else if (RunReplayState.fromEvents events).status = "running" then return false
  else if (RunReplayState.fromEvents events).status = "completed" then return false
  else
    let revision ← nextRevision runId
    match retryPayloads draws order runId events with
    | none => return false
    | some payloads =>
      append runId (newEvents draws runId revision payloads)
      return true

end Orchestrator

/-! ### The handlers -/

namespace Routes

/-- `(StatusCode::INTERNAL_SERVER_ERROR, error.to_string())`. -/
def internalError (message : String) : HttpError := (.internalServerError, message)

def upsertRunProjection (runId workspaceId : Uuid) (status : String) (updatedAt : Time) :
    Program Db String HttpError Unit :=
  write internalError fun db =>
    { db with store := upsertNewRun db.store runId workspaceId status updatedAt }

def syncProjectionStatus (runId : Uuid) (workspaceId : Option Uuid) (status : String) (now : Time) :
    Program Db String HttpError Unit :=
  operation internalError fun db =>
    (SamtaDashboard.syncProjectionStatus db.store runId workspaceId status now).map fun store =>
      ((), { db with store := store })

def fetchRunStatusOnly (runId : Uuid) : Program Db String HttpError String :=
  read internalError fun db => SamtaDashboard.fetchRunStatusOnly db.store runId

def fetchRunWorkspace (runId : Uuid) : Program Db String HttpError (Option Uuid) :=
  read internalError fun db => SamtaDashboard.fetchRunWorkspace db.log runId

def createRun (draws : Draws) (now : Time) (request : CreateRunRequest) :
    Program Db String HttpError Uuid := do
  let id ← (Orchestrator.startRun draws request.workspaceId request.objective
    (request.targetItemCount.filter (0 < ·)) (request.agentCount.filter (0 < ·))).mapError
      internalError
  upsertRunProjection id request.workspaceId "running" now
  return id

/-- The end of a control handler that did not change the run. -/
def unchanged (runId : Uuid) : Program Db String HttpError RunActionResponse := do
  let runStatus ← fetchRunStatusOnly runId
  return ⟨runId, runStatus, false⟩

/-- The handler of a control operation that does not look up the workspace. -/
def control (operation : Program Db String String Bool) (status : String) (now : Time)
    (runId : Uuid) : Program Db String HttpError RunActionResponse := do
  let changed ← operation.mapError internalError
  if changed then
    syncProjectionStatus runId none status now
    return ⟨runId, status, true⟩
  else unchanged runId

def pauseRun (draws : Draws) (now : Time) (runId : Uuid) :
    Program Db String HttpError RunActionResponse :=
  control (Orchestrator.pauseRun draws runId) "paused" now runId

def resumeRun (draws : Draws) (now : Time) (runId : Uuid) :
    Program Db String HttpError RunActionResponse :=
  control (Orchestrator.resumeRun draws runId) "running" now runId

def cancelRun (draws : Draws) (now : Time) (runId : Uuid) :
    Program Db String HttpError RunActionResponse :=
  control (Orchestrator.cancelRun draws runId) "cancelled" now runId

def retryRun (draws : Draws) (order : List Uuid) (now : Time) (runId : Uuid) :
    Program Db String HttpError RunActionResponse := do
  let changed ← (Orchestrator.retryRun draws order runId).mapError internalError
  if changed then
    let workspaceId ← fetchRunWorkspace runId
    syncProjectionStatus runId workspaceId "running" now
    return ⟨runId, "running", true⟩
  else unchanged runId

end Routes

/-! ### Without a fault

The programs are the operations of the orchestrator and the handlers on a database that does not fail. -/

/-- If nothing fails, the program ends as `done` says: with the value and the log, or with the error. -/
def Does {α : Type} (p : Program Db String String α) (db : Db) :
    Except String (α × EventLog) → Prop
  | .ok (a, log) => p.Returns db (.ok a) { db with log := log }
  | .error message => p.Returns db (.error message) db

section does

variable {α : Type} {db : Db} {draws : Draws} {runId : Uuid} {events : List EventEnvelope}
  {decide : List EventEnvelope → Option (List EventPayload)}

theorem returns_nextRevision (r : Uuid) :
    (Orchestrator.nextRevision r).Returns db (nextRevision db.log r) db :=
  returns_read id (fun db : Db => nextRevision db.log r) db

theorem does_append (r : Uuid) (events : List EventEnvelope) (a : α) :
    Does (do Orchestrator.append r events; return a) db
      ((append db.log r events).map fun log' => (a, log')) := by
  cases happ : append db.log r events with
  | error message => exact Returns.bind_error (returns_operation_of_error (by rw [happ]; rfl))
  | ok log' => exact Returns.bind (returns_operation_of_ok (by rw [happ]; rfl)) (returns_pure a)

theorem Does.of_read {β : Type} {p : Program Db String String β} {q : β → Program Db String String α}
    {b : β} {done : Except String (α × EventLog)} (hread : p.Returns db (.ok b) db)
    (h : Does (q b) db done) : Does (p >>= q) db done := by
  cases done with
  | error message => exact Returns.bind hread h
  | ok x => exact Returns.bind hread h

theorem does_appendNext (r : Uuid) (ps : List EventPayload) (a : α) :
    Does (do
        let revision ← Orchestrator.nextRevision r
        Orchestrator.append r (newEvents draws r revision ps)
        return a) db
      ((appendNext draws db.log r ps).map fun log' => (a, log')) := by
  have hread : (Orchestrator.nextRevision r).Returns db _ db := returns_nextRevision r
  cases hrevision : nextRevision db.log r with
  | error message =>
    rw [hrevision] at hread
    rw [appendNext, hrevision]
    exact Returns.bind_error hread
  | ok revision =>
    rw [hrevision] at hread
    rw [appendNext, hrevision]
    exact .of_read hread (does_append r _ a)

theorem does_startRun (workspaceId : Uuid) (objective : String)
    (targetItemCount agentCount : Option UInt16) :
    Does (Orchestrator.startRun draws workspaceId objective targetItemCount agentCount) db
      (startRun draws db.log workspaceId objective targetItemCount agentCount) := by
  have h : Does (Orchestrator.startRun draws workspaceId objective targetItemCount agentCount) db
      ((appendNext draws db.log draws.resource _).map fun log' => (draws.resource, log')) :=
    does_appendNext draws.resource _ draws.resource
  unfold startRun
  cases happ : appendNext draws db.log draws.resource
      (startRunPayloads draws workspaceId objective targetItemCount agentCount) with
  | error message => rw [happ] at h; exact h
  | ok log' => rw [happ] at h; exact h

/-- What a control operation does after it has loaded its run. -/
def decided (decide : List EventEnvelope → Option (List EventPayload)) (draws : Draws) (log : EventLog)
    (runId : Uuid) (events : List EventEnvelope) : Except String (Bool × EventLog) :=
  match decide events with
  | none => .ok (false, log)
  | some ps => (appendNext draws log runId ps).map fun log' => (true, log')

theorem control_of_loaded {log : EventLog} (hload : load log runId = .ok events) :
    control decide draws log runId =
      if events.isEmpty then .error s!"run {runId.toText} not found"
      else decided decide draws log runId events := by
  by_cases hempty : events.isEmpty = true
  · simp only [control, hload, hempty, bind, Except.bind, if_true]
    rfl
  · simp only [control, decided, hload, hempty, bind, Except.bind]
    cases decide events with
    | none => rfl
    | some ps => cases appendNext draws log runId ps <;> rfl

theorem does_control {rest : List EventEnvelope → Program Db String String Bool}
    (hrest : ∀ events, load db.log runId = .ok events →
      Does (rest events) db (decided decide draws db.log runId events)) :
    Does (do
        let events ← Orchestrator.load runId
        if events.isEmpty then fail s!"run {runId.toText} not found" else rest events) db
      (control decide draws db.log runId) := by
  have hread : (Orchestrator.load runId).Returns db (load db.log runId) db :=
    returns_read id (fun db : Db => load db.log runId) db
  cases hload : load db.log runId with
  | error message =>
    rw [hload] at hread
    rw [control, hload]
    exact Returns.bind_error hread
  | ok events =>
    rw [hload] at hread
    rw [control_of_loaded hload]
    refine .of_read hread ?_
    by_cases hempty : events.isEmpty = true
    · rw [if_pos hempty, if_pos hempty]
      exact returns_fail _
    · rw [if_neg hempty, if_neg hempty]
      exact hrest events hload

theorem does_changeStatus (runId : Uuid) (status : String) (reason : Option String) :
    Does (Orchestrator.changeStatus draws runId status reason) db
      (changeStatus draws db.log runId status reason) := by
  refine does_control fun events _ => ?_
  unfold decided
  cases statusChange runId status reason events with
  | none => exact returns_pure false
  | some ps => exact does_appendNext runId ps true

theorem does_retryRun (order : List Uuid) (runId : Uuid) :
    Does (Orchestrator.retryRun draws order runId) db (retryRun draws order db.log runId) := by
  refine does_control fun events hload => ?_
  unfold decided
  by_cases hrunning : (RunReplayState.fromEvents events).status = "running"
  · simp only [retryPayloads, hrunning, if_true]
    exact returns_pure false
  by_cases hcompleted : (RunReplayState.fromEvents events).status = "completed"
  · simp only [retryPayloads, hcompleted, if_true, ite_self]
    exact returns_pure false
  rw [if_neg hrunning, if_neg hcompleted]
  cases hdecide : retryPayloads draws order runId events with
  | some ps => exact does_appendNext runId ps true
  | none =>
    have hread : (Orchestrator.nextRevision runId).Returns db _ db := returns_nextRevision runId
    rw [nextRevision, hload] at hread
    exact .of_read hread (returns_pure false)

end does

section returns

variable {db : Db} {draws : Draws} {runId : Uuid} {now : Time}

theorem returns_unchanged (status : String) (workspaceId : Option Uuid) :
    (Routes.unchanged runId).Returns db (runAction runId status workspaceId now false db).1
      (runAction runId status workspaceId now false db).2 := by
  have hread : (Routes.fetchRunStatusOnly runId).Returns db (fetchRunStatusOnly db.store runId) db :=
    returns_read Routes.internalError (fun db : Db => fetchRunStatusOnly db.store runId) db
  unfold runAction
  cases hstatus : fetchRunStatusOnly db.store runId with
  | error error => rw [hstatus] at hread; exact hread.bind_error
  | ok runStatus => rw [hstatus] at hread; exact hread.bind (returns_pure _)

theorem returns_changed (status : String) (workspaceId : Option Uuid) :
    (do Routes.syncProjectionStatus runId workspaceId status now
        return (⟨runId, status, true⟩ : RunActionResponse)).Returns db
      (runAction runId status workspaceId now true db).1
      (runAction runId status workspaceId now true db).2 := by
  unfold runAction
  cases hsync : syncProjectionStatus db.store runId workspaceId status now with
  | error error => exact (returns_operation_of_error (by rw [hsync]; rfl)).bind_error
  | ok store => exact (returns_operation_of_ok (by rw [hsync]; rfl)).bind (returns_pure _)

theorem returns_control {p : Program Db String String Bool} {status : String}
    {operation : Draws → EventLog → Uuid → Except String (Bool × EventLog)}
    (h : Does p db (operation draws db.log runId)) :
    (Routes.control p status now runId).Returns db
      (controlHandler operation status draws now runId db).1
      (controlHandler operation status draws now runId db).2 := by
  unfold controlHandler
  cases hdone : operation draws db.log runId with
  | error message => rw [hdone] at h; exact (h.mapError Routes.internalError).bind_error
  | ok x =>
    obtain ⟨changed, log⟩ := x
    rw [hdone] at h
    cases changed with
    | false => exact (h.mapError Routes.internalError).bind (returns_unchanged status none)
    | true => exact (h.mapError Routes.internalError).bind (returns_changed status none)

theorem returns_createRun (request : CreateRunRequest) :
    (Routes.createRun draws now request).Returns db (createRun draws now request db).1
      (createRun draws now request db).2 := by
  have h : Does _ db (startRun draws db.log request.workspaceId request.objective
      (request.targetItemCount.filter (0 < ·)) (request.agentCount.filter (0 < ·))) :=
    does_startRun ..
  unfold createRun
  cases hdone : startRun draws db.log request.workspaceId request.objective
      (request.targetItemCount.filter (0 < ·)) (request.agentCount.filter (0 < ·)) with
  | error message => rw [hdone] at h; exact (h.mapError Routes.internalError).bind_error
  | ok x =>
    rw [hdone] at h
    exact (h.mapError Routes.internalError).bind ((returns_write _ _ _).bind (returns_pure _))

theorem returns_retryRun (order : List Uuid) (runId : Uuid) :
    (Routes.retryRun draws order now runId).Returns db (retryRunHandler draws order now runId db).1
      (retryRunHandler draws order now runId db).2 := by
  have h : Does _ db (retryRun draws order db.log runId) := does_retryRun order runId
  unfold retryRunHandler
  cases hdone : retryRun draws order db.log runId with
  | error message => rw [hdone] at h; exact (h.mapError Routes.internalError).bind_error
  | ok x =>
    obtain ⟨changed, log⟩ := x
    rw [hdone] at h
    cases changed with
    | false => exact (h.mapError Routes.internalError).bind (returns_unchanged "running" none)
    | true =>
      refine (h.mapError Routes.internalError).bind ?_
      have hread : (Routes.fetchRunWorkspace runId).Returns { db with log := log }
          (fetchRunWorkspace log runId) { db with log := log } :=
        returns_read Routes.internalError (fun db : Db => fetchRunWorkspace db.log runId) _
      cases hworkspace : fetchRunWorkspace log runId with
      | error error =>
        rw [hworkspace] at hread
        simp only [hworkspace]
        exact hread.bind_error
      | ok workspaceId =>
        rw [hworkspace] at hread
        simp only [hworkspace]
        exact hread.bind (returns_changed "running" workspaceId)

end returns

/-! ### The mutations -/

/-- A request that a handler may answer with an append. -/
inductive Mutation where
  | createRun (request : CreateRunRequest)
  | pauseRun (runId : Uuid)
  | resumeRun (runId : Uuid)
  | cancelRun (runId : Uuid)
  | retryRun (order : List Uuid) (runId : Uuid)

namespace Mutation

def Response : Mutation → Type
  | createRun _ => Uuid
  | pauseRun _ | resumeRun _ | cancelRun _ | retryRun .. => RunActionResponse

def handle (draws : Draws) (now : Time) : (m : Mutation) → Program Db String HttpError m.Response
  | createRun request => Routes.createRun draws now request
  | pauseRun runId => Routes.pauseRun draws now runId
  | resumeRun runId => Routes.resumeRun draws now runId
  | cancelRun runId => Routes.cancelRun draws now runId
  | retryRun order runId => Routes.retryRun draws order now runId

def answer (draws : Draws) (now : Time) (db : Db) : (m : Mutation) → Except HttpError m.Response × Db
  | createRun request => SamtaDashboard.createRun draws now request db
  | pauseRun runId => pauseRunHandler draws now runId db
  | resumeRun runId => resumeRunHandler draws now runId db
  | cancelRun runId => cancelRunHandler draws now runId db
  | retryRun order runId => retryRunHandler draws order now runId db

theorem handle_returns (m : Mutation) (draws : Draws) (now : Time) (db : Db) :
    (m.handle draws now).Returns db (m.answer draws now db).1 (m.answer draws now db).2 := by
  cases m with
  | createRun request => exact returns_createRun request
  | pauseRun runId | resumeRun runId | cancelRun runId =>
    exact returns_control (does_changeStatus runId _ _)
  | retryRun order runId => exact returns_retryRun order runId

end Mutation

end SamtaDashboard

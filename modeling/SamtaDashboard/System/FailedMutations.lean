import SamtaDashboard.Api.RouteFaults
import SamtaDashboard.System.History

/-!
# Requests that fail

Every handler that changes a run appends to the log first and writes the projection tables then, and
there is no transaction around the two. So a failure after the append has taken effect is an answer with
an error to a request that has changed the log. `Ended` says how an operation of the orchestrator ends
and `handler_failed_iff` what this means for a handler that goes on with the tables; a request that
fails without a trace in the log is characterised in `mutation_failed_iff`.
-/

namespace SamtaDashboard

open Faulty Faulty.Program

/-! ### How an operation of the orchestrator ends -/

/-- The run of an operation that reads for `reads` operations and then appends. `log'?` is the log that
it leaves if nothing fails and it has something to append. -/
inductive Ended {α : Type} (faults : Nat → Fault String) (reads : Nat) (log'? : Option EventLog)
    (db : Db) (changed : α → Bool) : Ran Db String α → Prop
  | untouched {result : Except String α} {next : Nat} :
      (∀ a, result = .ok a → changed a = false) →
      (∀ log' ∈ log'?, (∃ j < reads, faults j ≠ .none) ∨ ∃ error, faults reads = .before error) →
      Ended faults reads log'? db changed ⟨result, db, next⟩
  | lost {error : String} {log' : EventLog} : log'? = some log' → (∀ j < reads, faults j = .none) →
      faults reads = .after error →
      Ended faults reads log'? db changed ⟨.error error, { db with log := log' }, reads + 1⟩
  | done {a : α} {log' : EventLog} : log'? = some log' → (∀ j ≤ reads, faults j = .none) →
      changed a = true →
      Ended faults reads log'? db changed ⟨.ok a, { db with log := log' }, reads + 1⟩

namespace Ended

variable {α : Type} {faults : Nat → Fault String} {reads : Nat} {log'? : Option EventLog} {db : Db}
  {changed : α → Bool}

theorem of_fault {j : Nat} (hj : j < reads) (hfault : faults j ≠ .none) (error : String) (next : Nat) :
    Ended faults reads log'? db changed ⟨.error error, db, next⟩ :=
  .untouched (fun _ h => by cases h) fun _ _ => Or.inl ⟨j, hj, hfault⟩

theorem of_none {result : Except String α} (hresult : ∀ a, result = .ok a → changed a = false)
    (next : Nat) : Ended faults reads none db changed ⟨result, db, next⟩ :=
  .untouched hresult fun _ h => by cases h

theorem of_append {r : Uuid} {events : List EventEnvelope} {a : α}
    (hreads : ∀ j < reads, faults j = .none) (ha : changed a = true) :
    Ended faults reads (append db.log r events).toOption db changed
      ((do Orchestrator.append r events; return a : Program Db String String α).run faults reads db) := by
  cases happ : append db.log r events with
  | error message =>
    obtain ⟨error, hrun⟩ : ∃ error, (Orchestrator.append r events).run faults reads db =
        ⟨.error error, db, reads + 1⟩ := operation_of_failing (by rw [happ]; rfl)
    rw [bind_of_error hrun]
    exact of_none (fun _ h => by cases h) _
  | ok log' =>
    have heffect : (append db.log r events).map (fun log => ((), ({ db with log := log } : Db))) =
        .ok ((), { db with log := log' }) := by
      rw [happ]
      rfl
    cases hfault : faults reads with
    | none =>
      have hrun : (Orchestrator.append r events).run faults reads db =
          ⟨.ok (), { db with log := log' }, reads + 1⟩ := operation_of_ok hfault heffect
      rw [bind_of_ok hrun]
      refine .done rfl (fun j hj => ?_) ha
      rcases Nat.lt_or_eq_of_le hj with hlt | rfl
      · exact hreads j hlt
      · exact hfault
    | before error =>
      have hrun : (Orchestrator.append r events).run faults reads db =
          ⟨.error error, db, reads + 1⟩ := operation_of_before hfault
      rw [bind_of_error hrun]
      exact .untouched (fun _ h => by cases h) fun _ _ => Or.inr ⟨error, hfault⟩
    | after error =>
      have hrun : (Orchestrator.append r events).run faults reads db =
          ⟨.error error, { db with log := log' }, reads + 1⟩ := operation_of_after hfault heffect
      rw [bind_of_error hrun]
      exact .lost rfl hreads hfault

end Ended

section orchestrator

variable {α : Type} {faults : Nat → Fault String} {db : Db} {draws : Draws} {runId : Uuid}
  {log : EventLog} {events : List EventEnvelope}
  {decide : List EventEnvelope → Option (List EventPayload)}

theorem ended_appendNext {n : Nat} (r : Uuid) (ps : List EventPayload) {a : α} {changed : α → Bool}
    (hreads : ∀ j < n, faults j = .none) (ha : changed a = true) :
    Ended faults (n + 1) (appendNext draws db.log r ps).toOption db changed
      ((do
        let revision ← Orchestrator.nextRevision r
        Orchestrator.append r (newEvents draws r revision ps)
        return a : Program Db String String α).run faults n db) := by
  by_cases hfault : faults n = .none
  · cases hrevision : nextRevision db.log r with
    | error message =>
      have hread : (Orchestrator.nextRevision r).run faults n db = ⟨.error message, db, n + 1⟩ :=
        read_of_error hfault hrevision
      have hnone : (appendNext draws db.log r ps).toOption = none := by
        rw [appendNext, hrevision]
        rfl
      rw [bind_of_error hread, hnone]
      exact .of_none (fun _ h => by cases h) _
    | ok revision =>
      have hread : (Orchestrator.nextRevision r).run faults n db = ⟨.ok revision, db, n + 1⟩ :=
        read_of_ok hfault hrevision
      have happend : appendNext draws db.log r ps =
          append db.log r (newEvents draws r revision ps) := by
        rw [appendNext, hrevision]
        rfl
      rw [bind_of_ok hread, happend]
      refine .of_append (fun j hj => ?_) ha
      rcases Nat.lt_succ_iff_lt_or_eq.mp hj with hlt | rfl
      · exact hreads j hlt
      · exact hfault
  · obtain ⟨error, hread⟩ : ∃ error, (Orchestrator.nextRevision r).run faults n db =
        ⟨.error error, db, n + 1⟩ := read_of_fault hfault
    rw [bind_of_error hread]
    exact .of_fault (Nat.lt_succ_self n) hfault _ _

theorem toOption_startRun (draws : Draws) (log : EventLog) (workspaceId : Uuid) (objective : String)
    (targetItemCount agentCount : Option UInt16) :
    (startRun draws log workspaceId objective targetItemCount agentCount).toOption.map (·.2) =
      (appendNext draws log draws.resource
        (startRunPayloads draws workspaceId objective targetItemCount agentCount)).toOption := by
  simp only [startRun, bind, Except.bind]
  cases appendNext draws log draws.resource _ <;> rfl

theorem startRun_ended (workspaceId : Uuid) (objective : String)
    (targetItemCount agentCount : Option UInt16) :
    Ended faults 1
      ((startRun draws db.log workspaceId objective targetItemCount agentCount).toOption.map (·.2)) db
      (fun _ => true) ((Orchestrator.startRun draws workspaceId objective targetItemCount
        agentCount).run faults 0 db) := by
  rw [toOption_startRun]
  exact ended_appendNext _ _ (fun j hj => absurd hj (Nat.not_lt_zero j)) rfl

theorem appendNext_eq_ok {r : Uuid} {ps : List EventPayload} {log' : EventLog}
    (h : appendNext draws log r ps = .ok log') :
    ∃ revision, log' = log ++ newEvents draws r revision ps := by
  unfold appendNext at h
  cases hrevision : nextRevision log r with
  | error message => rw [hrevision] at h; cases h
  | ok revision =>
    rw [hrevision] at h
    obtain ⟨rfl, -⟩ := append_eq_ok.mp h
    exact ⟨revision, by rw [map_bindTo_newEvents]⟩

theorem ne_of_appendNext {r : Uuid} {ps : List EventPayload} {log' : EventLog} (hps : ps ≠ [])
    (h : appendNext draws log r ps = .ok log') : log' ≠ log := by
  obtain ⟨revision, rfl⟩ := appendNext_eq_ok h
  intro hsame
  have hlength := congrArg List.length hsame
  rw [List.length_append, newEvents, List.length_mapIdx] at hlength
  exact hps (List.length_eq_zero_iff.mp (by omega))

/-- The log that a control operation leaves if it changes the run. -/
def changedLog : Except String (Bool × EventLog) → Option EventLog
  | .ok (true, log') => some log'
  | _ => none

theorem changedLog_of_unread {message : String} (hload : load log runId = .error message) :
    changedLog (control decide draws log runId) = none := by
  rw [control, hload]
  rfl

theorem changedLog_of_empty (hload : load log runId = .ok events)
    (hempty : events.isEmpty = true) : changedLog (control decide draws log runId) = none := by
  rw [control_of_loaded hload, if_pos hempty]
  rfl

theorem changedLog_of_none (hload : load log runId = .ok events)
    (hempty : ¬ events.isEmpty = true) (hdecide : decide events = none) :
    changedLog (control decide draws log runId) = none := by
  rw [control_of_loaded hload, if_neg hempty, decided, hdecide]
  rfl

theorem changedLog_of_some {ps : List EventPayload} (hload : load log runId = .ok events)
    (hempty : ¬ events.isEmpty = true) (hdecide : decide events = some ps) :
    changedLog (control decide draws log runId) =
      (appendNext draws log runId ps).toOption := by
  simp only [control_of_loaded hload, if_neg hempty, decided, hdecide]
  cases appendNext draws log runId ps <;> rfl

theorem toOption_eq_some {x : Except String EventLog} {log' : EventLog} (h : x.toOption = some log') :
    x = .ok log' := by
  cases x with
  | error message => cases h
  | ok log'' => rw [Option.some.inj h]

theorem appendNext_of_changedLog {log' : EventLog}
    (h : changedLog (control decide draws log runId) = some log') :
    ∃ events ps, decide events = some ps ∧ appendNext draws log runId ps = .ok log' := by
  cases hload : load log runId with
  | error message =>
    rw [changedLog_of_unread hload] at h
    cases h
  | ok events =>
    by_cases hempty : events.isEmpty = true
    · rw [changedLog_of_empty hload hempty] at h
      cases h
    · cases hdecide : decide events with
      | none =>
        rw [changedLog_of_none hload hempty hdecide] at h
        cases h
      | some ps =>
        rw [changedLog_of_some hload hempty hdecide] at h
        exact ⟨events, ps, hdecide, toOption_eq_some h⟩

theorem eq_runStarted_of_asStr {type : EventType} (h : type.asStr = "run_started") :
    type = .runStarted := by
  cases type <;> simp_all [EventType.asStr]

theorem fetchRunWorkspace_of_appendNext {r : Uuid} {ps : List EventPayload} {log' : EventLog}
    (hps : ∀ p ∈ ps, p.eventType ≠ .runStarted) (h : appendNext draws log r ps = .ok log')
    (runId : Uuid) : fetchRunWorkspace log' runId = fetchRunWorkspace log runId := by
  obtain ⟨revision, rfl⟩ := appendNext_eq_ok h
  have hnone : ((stream (newEvents draws r revision ps) runId).map EventRow.ofEnvelope).find?
      (fun row => row.eventType = "run_started" && (row.payload.get "workspace_id").isSome) = none := by
    refine List.find?_eq_none.mpr fun row hrow => ?_
    obtain ⟨e, he, rfl⟩ := List.mem_map.mp hrow
    have hpayload : e.payload ∈ ps := by
      rw [← payloads_newEvents draws r revision ps]
      exact List.mem_map_of_mem (mem_stream.mp he).1
    have htype : e.payload.eventType.asStr ≠ "run_started" :=
      fun hsame => hps e.payload hpayload (eq_runStarted_of_asStr hsame)
    simp [EventRow.ofEnvelope, EventEnvelope.eventType, htype]
  simp only [fetchRunWorkspace, stream_append, List.map_append, List.find?_append, hnone, Option.or_none]

theorem ended_control {message : String}
    {rest : List EventEnvelope → Program Db String String Bool}
    (hrest : ∀ events, faults 0 = .none → load db.log runId = .ok events →
      ¬ events.isEmpty = true → Ended faults 2 (changedLog (control decide draws db.log runId)) db id
        ((rest events).run faults 1 db)) :
    Ended faults 2 (changedLog (control decide draws db.log runId)) db id
      ((do
        let events ← Orchestrator.load runId
        if events.isEmpty then fail message else rest events :
          Program Db String String Bool).run faults 0 db) := by
  by_cases hfault : faults 0 = .none
  · cases hload : load db.log runId with
    | error message =>
      have hread : (Orchestrator.load runId).run faults 0 db = ⟨.error message, db, 1⟩ :=
        read_of_error hfault hload
      rw [bind_of_error hread, changedLog_of_unread hload]
      exact .of_none (fun _ h => by cases h) _
    | ok events =>
      have hread : (Orchestrator.load runId).run faults 0 db = ⟨.ok events, db, 1⟩ :=
        read_of_ok hfault hload
      rw [bind_of_ok hread]
      by_cases hempty : events.isEmpty = true
      · rw [if_pos hempty, changedLog_of_empty hload hempty]
        exact .of_none (fun _ h => by cases h) _
      · rw [if_neg hempty]
        exact hrest events hfault hload hempty
  · obtain ⟨error, hread⟩ : ∃ error, (Orchestrator.load runId).run faults 0 db =
        ⟨.error error, db, 1⟩ := read_of_fault hfault
    rw [bind_of_error hread]
    exact .of_fault Nat.two_pos hfault _ _

theorem changeStatus_ended (runId : Uuid) (status : String) (reason : Option String) :
    Ended faults 2 (changedLog (changeStatus draws db.log runId status reason)) db id
      ((Orchestrator.changeStatus draws runId status reason).run faults 0 db) := by
  refine ended_control fun events hfault hload hempty => ?_
  cases hdecide : statusChange runId status reason events with
  | none =>
    rw [changedLog_of_none hload hempty hdecide]
    exact .of_none (fun a h => (Except.ok.inj h).symm) _
  | some ps =>
    rw [changedLog_of_some hload hempty hdecide]
    refine ended_appendNext runId ps (fun j hj => ?_) rfl
    obtain rfl : j = 0 := by omega
    exact hfault

theorem retryRun_ended (order : List Uuid) (runId : Uuid) :
    Ended faults 2 (changedLog (retryRun draws order db.log runId)) db id
      ((Orchestrator.retryRun draws order runId).run faults 0 db) := by
  refine ended_control fun events hfault hload hempty => ?_
  have hnothing : retryPayloads draws order runId events = none → ∀ next,
      Ended faults 2 (changedLog (control (retryPayloads draws order runId) draws db.log runId)) db id
        ⟨.ok false, db, next⟩ := by
    intro hdecide next
    rw [changedLog_of_none hload hempty hdecide]
    exact .of_none (fun a h => (Except.ok.inj h).symm) next
  by_cases hrunning : (RunReplayState.fromEvents events).status = "running"
  · rw [if_pos hrunning]
    exact hnothing (by simp only [retryPayloads, hrunning, if_true]) _
  by_cases hcompleted : (RunReplayState.fromEvents events).status = "completed"
  · rw [if_neg hrunning, if_pos hcompleted]
    exact hnothing (by simp only [retryPayloads, hcompleted, if_true, ite_self]) _
  rw [if_neg hrunning, if_neg hcompleted]
  cases hdecide : retryPayloads draws order runId events with
  | none =>
    -- the next revision is read for nothing, and this may fail
    have hsame : ((Orchestrator.nextRevision runId).run faults 1 db).storage = db :=
      keeps_read (g := id) id _ faults 1 db
    rcases h : (Orchestrator.nextRevision runId).run faults 1 db with ⟨error | revision, db', next⟩
    · rw [h] at hsame
      obtain rfl : db' = db := hsame
      rw [bind_of_error h]
      show Ended faults 2 (changedLog (control ..)) _ id _
      rw [changedLog_of_none hload hempty hdecide]
      exact .of_none (fun _ h => by cases h) _
    · rw [h] at hsame
      obtain rfl : db' = db := hsame
      rw [bind_of_ok h]
      exact hnothing hdecide next
  | some ps =>
    rw [changedLog_of_some hload hempty hdecide]
    refine ended_appendNext runId ps (fun j hj => ?_) rfl
    obtain rfl : j = 0 := by omega
    exact hfault

end orchestrator

/-! ### How a handler ends -/

section spared

variable {faults : Nat → Fault String} {reads follows : Nat} {Answered : Prop}

theorem not_spared_of_lost {error : String} (hreads : ∀ j < reads, faults j = .none)
    (hafter : faults reads = .after error) :
    ¬ ((∃ j < reads, faults j ≠ .none) ∨ (∃ error, faults reads = .before error) ∨
      (∀ j ≤ reads + follows, faults j = .none) ∧ Answered) := by
  rintro (⟨j, hj, hfault⟩ | ⟨error, hbefore⟩ | ⟨hnone, -⟩)
  · exact hfault (hreads j hj)
  · rw [hafter] at hbefore
    cases hbefore
  · rw [hnone reads (Nat.le_add_right ..)] at hafter
    cases hafter

theorem spared_iff_of_done (hdone : ∀ j ≤ reads, faults j = .none) :
    ((∃ j < reads, faults j ≠ .none) ∨ (∃ error, faults reads = .before error) ∨
      (∀ j ≤ reads + follows, faults j = .none) ∧ Answered) ↔
    (∀ j < follows, faults (reads + 1 + j) = .none) ∧ Answered := by
  constructor
  · rintro (⟨j, hj, hfault⟩ | ⟨error, hbefore⟩ | ⟨hnone, hanswered⟩)
    · exact absurd (hdone j (Nat.le_of_lt hj)) hfault
    · rw [hdone reads (le_refl _)] at hbefore
      cases hbefore
    · exact ⟨fun j hj => hnone _ (by omega), hanswered⟩
  · rintro ⟨hrest, hanswered⟩
    refine Or.inr (Or.inr ⟨fun j hj => ?_, hanswered⟩)
    rcases Nat.lt_or_ge reads j with hlt | hle
    · have hfault := hrest (j - (reads + 1)) (by omega)
      rwa [Nat.add_sub_of_le hlt] at hfault
    · exact hdone j hle

end spared

/-- A handler is an operation of the orchestrator and a tail that works on the tables. It answers with an
error to a request that has changed the log exactly if the append took effect and its reply was lost or
the tail fails. -/
theorem handler_failed_iff {α β : Type} {faults : Nat → Fault String} {reads follows : Nat}
    {log'? : Option EventLog} {db : Db} {changed : α → Bool} {p : Program Db String String α}
    {tail : α → Program Db String HttpError β} {Answered : Prop}
    (hended : Ended faults reads log'? db changed (p.run faults 0 db))
    (hlog' : ∀ log' ∈ log'?, log' ≠ db.log) (hkeeps : ∀ a, Keeps Db.log (tail a))
    (htail : ∀ a, ∀ log' ∈ log'?, changed a = true →
      ((tail a).Succeeds faults (reads + 1) { db with log := log' } ↔
        (∀ j < follows, faults (reads + 1 + j) = .none) ∧ Answered)) :
    ((∃ error, ((p.mapError Routes.internalError >>= tail).run faults 0 db).result =
          .error error) →
        ((p.mapError Routes.internalError >>= tail).run faults 0 db).storage.log = db.log) ↔
      (log'? ≠ none → (∃ j < reads, faults j ≠ .none) ∨ (∃ error, faults reads = .before error) ∨
        (∀ j ≤ reads + follows, faults j = .none) ∧ Answered) := by
  rcases h : p.run faults 0 db with ⟨result, db', next⟩
  rw [h] at hended
  cases hended with
  | untouched hresult hearly =>
    refine iff_of_true (fun _ => ?_) fun hsome => ?_
    · cases result with
      | error error => rw [bind_of_error (mapError_of_error h)]
      | ok a =>
        rw [bind_of_ok (mapError_of_ok h)]
        exact hkeeps a _ _ _
    · obtain ⟨log', hmem⟩ := Option.ne_none_iff_exists'.mp hsome
      exact (hearly log' hmem).imp_right Or.inl
  | @lost error log' happend hreads hafter =>
    have hsome : log'? ≠ none := Option.ne_none_iff_exists'.mpr ⟨log', happend⟩
    refine iff_of_false (fun hsame => ?_) fun hall => not_spared_of_lost hreads hafter (hall hsome)
    rw [bind_of_error (mapError_of_error h)] at hsame
    exact hlog' log' happend (hsame ⟨_, rfl⟩)
  | @done a log' happend hnone hchanged =>
    have hsome : log'? ≠ none := Option.ne_none_iff_exists'.mpr ⟨log', happend⟩
    have hrun : (p.mapError Routes.internalError >>= tail).run faults 0 db =
        (tail a).run faults (reads + 1) { db with log := log' } := bind_of_ok (mapError_of_ok h)
    have hfinal : ((tail a).run faults (reads + 1) { db with log := log' }).storage.log = log' :=
      hkeeps a _ _ _
    rw [hrun, hfinal, ← not_succeeds_iff, htail a log' happend hchanged, spared_iff_of_done hnone]
    constructor
    · intro hsame _
      by_contra hfails
      exact hlog' log' happend (hsame hfails)
    · exact fun hall hfails => absurd (hall hsome) hfails

/-! ### The tails -/

section tails

variable {faults : Nat → Fault String} {n : Nat} {db : Db} {runId : Uuid} {workspaceId : Option Uuid}
  {status : String} {now : Time}

/-- The statement without a workspace needs a row. -/
theorem exists_syncProjectionStatus_iff {store : ProjectionStore} :
    (∃ store', syncProjectionStatus store runId workspaceId status now = .ok store') ↔
      workspaceId ≠ none ∨ store.runs runId ≠ none := by
  unfold syncProjectionStatus
  cases workspaceId <;> cases store.runs runId <;> simp

theorem keeps_syncProjectionStatus :
    Keeps Db.log (Routes.syncProjectionStatus runId workspaceId status now) := by
  refine keeps_operation fun s a s' h => ?_
  cases hsync : syncProjectionStatus s.store runId workspaceId status now with
  | error error => rw [hsync] at h; cases h
  | ok store => rw [hsync] at h; cases h; rfl

theorem keeps_unchanged : Keeps Db.log (Routes.unchanged runId) :=
  (keeps_read _ _).bind fun _ => keeps_pure _

theorem succeeds_syncProjectionStatus_iff :
    (Routes.syncProjectionStatus runId workspaceId status now).Succeeds faults n db ↔
      faults n = .none ∧ (workspaceId ≠ none ∨ db.store.runs runId ≠ none) := by
  rw [Routes.syncProjectionStatus, succeeds_operation_iff, ← exists_syncProjectionStatus_iff]
  refine and_congr_right fun _ => ?_
  cases syncProjectionStatus db.store runId workspaceId status now <;> simp [Except.map]

end tails

/-! ### The mutations -/

namespace Mutation

def reads : Mutation → Nat
  | createRun _ => 1
  | pauseRun _ | resumeRun _ | cancelRun _ | retryRun .. => 2

def follows : Mutation → Nat
  | createRun _ | pauseRun _ | resumeRun _ | cancelRun _ => 1
  | retryRun .. => 2

/-- The log that the orchestrator leaves on a database that does not fail, if it appends. -/
def appended (draws : Draws) (log : EventLog) : Mutation → Option EventLog
  | createRun request => (startRun draws log request.workspaceId request.objective
      (request.targetItemCount.filter (0 < ·)) (request.agentCount.filter (0 < ·))).toOption.map (·.2)
  | pauseRun runId => changedLog (SamtaDashboard.pauseRun draws log runId)
  | resumeRun runId => changedLog (SamtaDashboard.resumeRun draws log runId)
  | cancelRun runId => changedLog (SamtaDashboard.cancelRun draws log runId)
  | retryRun order runId => changedLog (SamtaDashboard.retryRun draws order log runId)

/-- The statement after the append inserts a row, or the row that it updates is there. -/
def Answered (db : Db) : Mutation → Prop
  | createRun _ => True
  | pauseRun runId | resumeRun runId | cancelRun runId => db.store.runs runId ≠ none
  | retryRun _ runId => ∃ workspaceId, fetchRunWorkspace db.log runId = .ok workspaceId ∧
      (workspaceId ≠ none ∨ db.store.runs runId ≠ none)

theorem ne_of_appended {draws : Draws} {log log' : EventLog} {m : Mutation}
    (h : m.appended draws log = some log') : log' ≠ log := by
  have hstatus : ∀ runId status reason, ∀ events ps,
      statusChange runId status reason events = some ps → ps ≠ [] := by
    intro runId status reason events ps hdecide
    unfold statusChange at hdecide
    split at hdecide
    · cases hdecide
    · obtain rfl := Option.some.inj hdecide
      exact List.cons_ne_nil _ _
  cases m with
  | createRun request =>
    rw [appended, toOption_startRun] at h
    exact ne_of_appendNext (List.cons_ne_nil _ _) (toOption_eq_some h)
  | pauseRun runId | resumeRun runId | cancelRun runId =>
    obtain ⟨events, ps, hdecide, happ⟩ := appendNext_of_changedLog h
    exact ne_of_appendNext (hstatus runId _ _ events ps hdecide) happ
  | retryRun order runId =>
    obtain ⟨events, ps, hdecide, happ⟩ := appendNext_of_changedLog h
    obtain ⟨-, -, -, rfl⟩ := retryPayloads_eq_some.mp hdecide
    exact ne_of_appendNext (List.cons_ne_nil _ _) happ

end Mutation

section mutation

variable {faults : Nat → Fault String} {db : Db} {draws : Draws} {now : Time}

theorem control_failed_iff {operation : Program Db String String Bool} {log'? : Option EventLog}
    {status : String} {runId : Uuid} (hended : Ended faults 2 log'? db id (operation.run faults 0 db))
    (hlog' : ∀ log' ∈ log'?, log' ≠ db.log) :
    ((∃ error, ((Routes.control operation status now runId).run faults 0 db).result =
          .error error) →
        ((Routes.control operation status now runId).run faults 0 db).storage.log = db.log) ↔
      (log'? ≠ none → (∃ j < 2, faults j ≠ .none) ∨ (∃ error, faults 2 = .before error) ∨
        (∀ j ≤ 2 + 1, faults j = .none) ∧ db.store.runs runId ≠ none) := by
  refine handler_failed_iff hended hlog' (fun changed => ?_) fun changed log' _ hchanged => ?_
  · cases changed with
    | false => exact keeps_unchanged
    | true => exact keeps_syncProjectionStatus.bind fun _ => keeps_pure _
  · obtain rfl : changed = true := hchanged
    show (_ >>= fun _ => pure _ : Program Db String HttpError RunActionResponse).Succeeds _ _ _ ↔ _
    rw [succeeds_bind_pure_iff, succeeds_syncProjectionStatus_iff]
    simp

theorem createRun_failed_iff (request : CreateRunRequest) :
    ((∃ error, ((Routes.createRun draws now request).run faults 0 db).result = .error error) →
        ((Routes.createRun draws now request).run faults 0 db).storage.log = db.log) ↔
      ((Mutation.createRun request).appended draws db.log ≠ none →
        (∃ j < 1, faults j ≠ .none) ∨ (∃ error, faults 1 = .before error) ∨
          (∀ j ≤ 1 + 1, faults j = .none) ∧ True) := by
  refine handler_failed_iff (startRun_ended ..) (fun _ h => Mutation.ne_of_appended h) (fun id => ?_)
    fun id log' _ _ => ?_
  · exact (keeps_operation fun s a s' h => by cases h; rfl).bind fun _ => keeps_pure _
  · rw [succeeds_bind_pure_iff, Routes.upsertRunProjection, write, succeeds_operation_iff]
    simp

theorem retryRun_failed_iff (order : List Uuid) (runId : Uuid) :
    ((∃ error, ((Routes.retryRun draws order now runId).run faults 0 db).result = .error error) →
        ((Routes.retryRun draws order now runId).run faults 0 db).storage.log = db.log) ↔
      ((Mutation.retryRun order runId).appended draws db.log ≠ none →
        (∃ j < 2, faults j ≠ .none) ∨ (∃ error, faults 2 = .before error) ∨
          (∀ j ≤ 2 + 2, faults j = .none) ∧ (Mutation.retryRun order runId).Answered db) := by
  refine handler_failed_iff (retryRun_ended order runId) (fun _ h => Mutation.ne_of_appended h)
    (fun changed => ?_) fun changed log' hlog' hchanged => ?_
  · cases changed with
    | false => exact keeps_unchanged
    | true =>
      exact (keeps_read _ _).bind fun _ => keeps_syncProjectionStatus.bind fun _ => keeps_pure _
  · obtain rfl : changed = true := hchanged
    obtain ⟨events, ps, hdecide, happ⟩ := appendNext_of_changedLog hlog'
    have hps : ∀ p ∈ ps, p.eventType ≠ .runStarted := by
      obtain ⟨-, -, -, rfl⟩ := retryPayloads_eq_some.mp hdecide
      intro p hp
      rcases List.mem_cons.mp hp with rfl | hp
      · exact fun h => by cases h
      · obtain ⟨x, -, rfl⟩ := List.mem_map.mp hp
        exact fun h => by cases h
    show (Routes.fetchRunWorkspace runId >>= _ :
      Program Db String HttpError RunActionResponse).Succeeds _ _ _ ↔ _
    rw [Routes.fetchRunWorkspace, succeeds_read_bind_iff,
      fetchRunWorkspace_of_appendNext hps happ]
    simp only [succeeds_bind_pure_iff, succeeds_syncProjectionStatus_iff]
    constructor
    · rintro ⟨hfetch, workspaceId, hworkspace, hsync, hrow⟩
      refine ⟨fun j hj => ?_, workspaceId, hworkspace, hrow⟩
      rcases Nat.lt_succ_iff_lt_or_eq.mp hj with hj | rfl
      · obtain rfl : j = 0 := by omega
        exact hfetch
      · exact hsync
    · rintro ⟨hfaults, workspaceId, hworkspace, hrow⟩
      exact ⟨hfaults 0 (by omega), workspaceId, hworkspace, hfaults 1 (by omega), hrow⟩

/-- A mutation that answers with an error has left the log as it was exactly if it has nothing to append,
or a read before the append fails, or the append fails without effect, or the append and all that
follows it go well and the projection row that it updates is there. -/
theorem mutation_failed_iff (m : Mutation) (draws : Draws) (now : Time) (faults : Nat → Fault String)
    (db : Db) :
    ((∃ error, ((m.handle draws now).run faults 0 db).result = .error error) →
        ((m.handle draws now).run faults 0 db).storage.log = db.log) ↔
      (m.appended draws db.log ≠ none →
        (∃ j < m.reads, faults j ≠ .none) ∨ (∃ error, faults m.reads = .before error) ∨
          (∀ j ≤ m.reads + m.follows, faults j = .none) ∧ m.Answered db) := by
  cases m with
  | createRun request => exact createRun_failed_iff request
  | pauseRun runId | resumeRun runId | cancelRun runId =>
    exact control_failed_iff (changeStatus_ended runId _ _) fun _ h => Mutation.ne_of_appended h
  | retryRun order runId => exact retryRun_failed_iff order runId

end mutation

/-! ### A run without a projection row -/

def unprojectedDb : Db := ⟨startedLog 1, .empty⟩

def unprojectedPause : Ran Db HttpError RunActionResponse :=
  (Routes.pauseRun (.counting sampleRun 200) 0 sampleRun).run (fun _ => .none) 0 unprojectedDb

/-- The answer is `404`, and the run is paused. -/
theorem pause_not_atomic :
    unprojectedPause.result = .error (.notFound, "run projection not found") ∧
      unprojectedPause.storage.log ≠ unprojectedDb.log ∧
      (RunReplayState.fromEvents unprojectedPause.storage.log).status = "paused" := by
  have hlength : unprojectedPause.storage.log.length = unprojectedDb.log.length + 1 := by
    decide +kernel
  refine ⟨rfl, fun hsame => ?_, by decide +kernel⟩
  rw [hsame] at hlength
  omega

end SamtaDashboard

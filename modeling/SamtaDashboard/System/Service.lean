import SamtaDashboard.System.RunLog

/-!
# Histories of the service

The event log together with the projection tables, under the API handlers and worker ticks, each run
to completion without failure before the next begins. Every such step is a sequence of `DbChange`s, an
append and the writes to the tables that follow it; `service_invariant` is the induction over them.
-/

namespace SamtaDashboard

open EventFold Transition

/-- A request to the API or a tick, with everything it gets from outside; `now` is the clock of the
statement that writes the projection. -/
inductive ServiceOperation where
  | createRun (draws : Draws) (now : Time) (request : CreateRunRequest)
  | pauseRun (draws : Draws) (now : Time) (runId : Uuid)
  | resumeRun (draws : Draws) (now : Time) (runId : Uuid)
  | cancelRun (draws : Draws) (now : Time) (runId : Uuid)
  | retryRun (draws : Draws) (order : List Uuid) (now : Time) (runId : Uuid)
  | tick (input : TickInput) (events : List EventEnvelope)

def serviceStep (db : Db) (operation : ServiceOperation) (db' : Db) : Prop :=
  match operation with
  | .createRun draws now request =>
    draws.NewRun db.log ∧ createRun draws now request db = (.ok draws.resource, db')
  | .pauseRun draws now runId => ∃ response, pauseRunHandler draws now runId db = (.ok response, db')
  | .resumeRun draws now runId => ∃ response, resumeRunHandler draws now runId db = (.ok response, db')
  | .cancelRun draws now runId => ∃ response, cancelRunHandler draws now runId db = (.ok response, db')
  | .retryRun draws order now runId =>
    (RunReplayState.fromEvents (stream db.log runId)).workItems.IsOrder order ∧
      ∃ response, retryRunHandler draws order now runId db = (.ok response, db')
  | .tick input events =>
    LoadAll db.log (.ok events) ∧ input.Orders events ∧ db' = input.tick events db

def service : System Db ServiceOperation where
  init := (· = .empty)
  step := serviceStep

/-! ### The handlers -/

section handlers

variable {db db' : Db} {draws : Draws} {now : Time} {r : Uuid}

theorem createRun_changes (hwf : WellFormed db.log) (hnew : draws.NewRun db.log) {id : Uuid}
    {request : CreateRunRequest} (h : createRun draws now request db = (.ok id, db')) :
    DbChange db db' := by
  unfold createRun at h
  split at h
  · cases h
  · next id' log hok =>
    cases h
    obtain ⟨rfl, hstarted⟩ := startRun_spec hwf hnew hok
    exact .start draws request.workspaceId now hstarted rfl

theorem runAction_ok {status : String} {workspaceId : Option Uuid} {changed : Bool}
    {response : RunActionResponse}
    (h : runAction r status workspaceId now changed db = (.ok response, db')) :
    changed = false ∧ db' = db ∨ changed = true ∧ db'.log = db.log ∧
      syncProjectionStatus db.store r workspaceId status now = .ok db'.store := by
  unfold runAction at h
  cases changed with
  | true =>
    rw [if_pos rfl] at h
    split at h
    · cases h
    · next store hsync =>
      cases h
      exact Or.inr ⟨rfl, rfl, hsync⟩
  | false =>
    rw [if_neg Bool.false_ne_true] at h
    split at h
    · cases h
    · cases h
      exact Or.inl ⟨rfl, rfl⟩

theorem controlHandler_changes (hwf : WellFormed db.log) {status : String} {reason : Option String}
    {response : RunActionResponse} (hstatus : status ∈ EventPayload.controlStatuses)
    (h : controlHandler (fun draws log runId => changeStatus draws log runId status reason) status
      draws now r db = (.ok response, db')) : Relation.ReflTransGen DbChange db db' := by
  unfold controlHandler at h
  split at h
  · cases h
  · next changed log hok =>
    rcases changeStatus_spec hwf hstatus hok with ⟨rfl, rfl⟩ | ⟨rfl, hchange⟩
    · obtain ⟨-, rfl⟩ := (runAction_ok h).resolve_right (by simp)
      exact .refl
    · obtain ⟨-, hlog, hsync⟩ := (runAction_ok h).resolve_left (by simp)
      exact .single (.status r status now (hlog ▸ hchange) hsync)

theorem retryRunHandler_changes (hwf : WellFormed db.log) {order : List Uuid}
    {response : RunActionResponse}
    (h : retryRunHandler draws order now r db = (.ok response, db')) :
    Relation.ReflTransGen DbChange db db' := by
  unfold retryRunHandler at h
  split at h
  · cases h
  · next log hok =>
    obtain ⟨-, rfl⟩ := (retryRun_spec hwf hok).resolve_right (by simp)
    obtain ⟨-, rfl⟩ := (runAction_ok h).resolve_right (by simp)
    exact .refl
  · next log hok =>
    obtain ⟨-, hretried⟩ := (retryRun_spec hwf hok).resolve_left (by simp)
    split at h
    · cases h
    · next workspaceId _ =>
      obtain ⟨-, hlog, hsync⟩ := (runAction_ok h).resolve_left (by simp)
      exact .single (.retry r workspaceId now (hlog ▸ hretried) hsync)

end handlers

theorem serviceStep_changes {db db' : Db} {operation : ServiceOperation}
    (hwf : WellFormed db.log) (h : serviceStep db operation db') :
    Relation.ReflTransGen DbChange db db' := by
  cases operation with
  | createRun draws now request => exact .single (createRun_changes hwf h.1 h.2)
  | pauseRun draws now r | resumeRun draws now r | cancelRun draws now r =>
    obtain ⟨response, h⟩ := h
    exact controlHandler_changes hwf (by decide) h
  | retryRun draws order now r =>
    obtain ⟨-, response, h⟩ := h
    exact retryRunHandler_changes hwf h
  | tick input events =>
    obtain ⟨hload, horders, rfl⟩ := h
    exact TickInput.tick_changes hwf hload horders

theorem service_invariant {I : Db → Prop} (hempty : I .empty)
    (hchange : ∀ db db', WellFormed db.log → Recorded db.log → I db → DbChange db db' → I db')
    {db : Db} (h : Reachable service db) : WellFormed db.log ∧ Recorded db.log ∧ I db := by
  have hpath : ∀ {db db' : Db}, Relation.ReflTransGen DbChange db db' →
      WellFormed db.log ∧ Recorded db.log ∧ I db →
        WellFormed db'.log ∧ Recorded db'.log ∧ I db' := by
    intro db db' hpath hinv
    induction hpath with
    | refl => exact hinv
    | tail _ hstep ih =>
      exact ⟨hstep.log.wellFormed ih.1, ih.2.1.change ih.1 hstep.log,
        hchange _ _ ih.1 ih.2.1 ih.2.2 hstep⟩
  refine h.invariant (I := fun db => WellFormed db.log ∧ Recorded db.log ∧ I db) ?_ ?_
  · rintro db rfl
    exact ⟨WellFormed.empty, Recorded.empty, hempty⟩
  · exact fun db operation db' hinv hstep _ => hpath (serviceStep_changes hinv.1 hstep) hinv

/-! ### Sample operations -/

def createdDb (items : UInt16) : Db :=
  (createRun (.counting sampleRun 100) 100 ⟨sampleWorkspace, "", some items, some 1⟩ .empty).2

def tickedDb (executor : AgentExecutor) (base : Nat) (db : Db) : Db :=
  (TickInput.ofKeys (sampleWorker executor) (fun _ => countingStamp base) db.log).tick db.log db

theorem createdDb_one_reachable : Reachable service (createdDb 1) :=
  .step (.createRun (.counting sampleRun 100) 100 ⟨sampleWorkspace, "", some 1, some 1⟩)
    (.init rfl) ⟨⟨rfl, by simp [Db.empty]⟩, rfl⟩ trivial

theorem createdDb_two_reachable : Reachable service (createdDb 2) :=
  .step (.createRun (.counting sampleRun 100) 100 ⟨sampleWorkspace, "", some 2, some 1⟩)
    (.init rfl) ⟨⟨rfl, by simp [Db.empty]⟩, rfl⟩ trivial

theorem tickedDb_reachable {db : Db} (h : Reachable service db) (executor : AgentExecutor)
    (base : Nat) (hsorted : db.log.Pairwise timeLe)
    (hfinite : ∀ e ∈ db.log, e.payload.costIsFinite = true) :
    Reachable service (tickedDb executor base db) :=
  .step (.tick (.ofKeys (sampleWorker executor) (fun _ => countingStamp base) db.log) db.log) h
    ⟨loadAll_eq_ok.mpr ⟨⟨.refl _, hsorted⟩, hfinite⟩, TickInput.ofKeys_orders _ _ _, rfl⟩ trivial

end SamtaDashboard

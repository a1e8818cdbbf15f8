import SamtaDashboard.System.Schedule

/-!
# On which stream a control operation decides

A control operation loads the stream to decide and loads it again for `next_revision`. The store
refuses a batch that is numbered for another stream than the one it finds, so nothing is committed to
the stream between the second load and the append (`RequestPhase.Inv.stream_eq`). What is committed
between the two loads goes unnoticed: the batch is numbered after it and decided without it.
-/

namespace SamtaDashboard

open EventFold Transition

/-! ### Decisions -/

/-- The stream that a step appends to. -/
def World.target (s : World) : Action → Option Uuid
  | .submit k =>
    match s.requests k with
    | .numbered request draws .. => some (request.resource draws)
    | _ => none
  | .append w =>
    match s.workers w with
    | .appending _ _ r _ (some _) _ => some r
    | _ => none
  | _ => none

/-- The step appends to no stream that a control operation has loaded once of two times. -/
def World.Undisturbed (s : World) (a : Action) : Prop :=
  ∀ k request draws ps r, s.requests k = .decided request draws ps → request.runId? = some r →
    s.target a ≠ some r

/-- The request appended what its rule gives on the stream before. -/
structure Informed (log log' : EventLog) (r : Uuid) (request : Request) (draws : Draws)
    (ps : List EventPayload) : Prop where
  appended : payloads (stream log' r) = payloads (stream log r) ++ ps
  orders : request.Orders (stream log r)
  decide : request.decide draws (stream log r) = some ps
  changes : ∀ status reason, .runStatusChanged r status reason ∈ ps →
    (RunReplayState.fromEvents (stream log r)).status ≠ status
  reassigns : ∀ i agentId, .workItemAssigned r i agentId ∈ ps →
    (RunReplayState.fromEvents (stream log r)).itemStatus i ≠ some .completed

/-- Every control operation that appends next is informed. -/
def DecidedOnStream (d : Deployment) (s : World) : Prop :=
  ∀ k request draws ps revision seen r s', s.requests k = .numbered request draws ps revision seen →
    request.runId? = some r → s.Step d (.submit k) s' → Informed s.log s'.log r request draws ps

section decisions

variable {d : Deployment} {s s' : World} {a : Action} {r : Uuid} {request : Request} {draws : Draws}
  {ps : List EventPayload} {events : List EventEnvelope}

/-- A control operation logs no status that its replay finds already. -/
theorem Request.status_ne_of_decide (hrun : request.runId? = some r)
    (h : request.decide draws events = some ps) {status : String} {reason : Option String}
    (hp : .runStatusChanged r status reason ∈ ps) :
    (RunReplayState.fromEvents events).status ≠ status := by
  have hchange : ∀ (r' : Uuid) (status' : String) (reason' : Option String),
      statusChange r' status' reason' events = some ps →
        (RunReplayState.fromEvents events).status ≠ status := by
    intro r' status' reason' hchange
    obtain ⟨hne, rfl⟩ := statusChange_eq_some.mp hchange
    obtain ⟨-, rfl, -⟩ := EventPayload.runStatusChanged.inj (List.mem_singleton.mp hp)
    exact hne
  cases request with
  | createWorkspace | createAgentProfile | startRun => cases hrun
  | pauseRun r' | resumeRun r' | cancelRun r' => exact hchange _ _ _ h
  | retryRun order r' =>
    obtain ⟨hrunning, -, -, rfl⟩ := retryPayloads_eq_some.mp h
    rcases List.mem_cons.mp hp with heq | hp
    · obtain ⟨-, rfl, -⟩ := EventPayload.runStatusChanged.inj heq
      exact hrunning
    · obtain ⟨x, -, hx⟩ := Assignments.mem_payloads hp
      cases hx

theorem Request.itemStatus_ne_of_decide (hrun : request.runId? = some r)
    (h : request.decide draws events = some ps) {i agentId : Uuid}
    (hp : .workItemAssigned r i agentId ∈ ps) :
    (RunReplayState.fromEvents events).itemStatus i ≠ some .completed := by
  have hchange : ∀ (r' : Uuid) (status' : String) (reason' : Option String),
      statusChange r' status' reason' events ≠ some ps := by
    intro r' status' reason' hchange
    obtain ⟨-, rfl⟩ := statusChange_eq_some.mp hchange
    simp at hp
  cases request with
  | createWorkspace | createAgentProfile | startRun => cases hrun
  | pauseRun r' | resumeRun r' | cancelRun r' => exact absurd h (hchange _ _ _)
  | retryRun order r' =>
    obtain ⟨-, -, -, rfl⟩ := retryPayloads_eq_some.mp h
    rcases List.mem_cons.mp hp with heq | hp
    · cases heq
    · obtain ⟨x, hx, heq⟩ := Assignments.mem_payloads hp
      obtain ⟨-, rfl, -⟩ := EventPayload.workItemAssigned.inj heq
      have hfirst := List.mem_map_of_mem (f := Prod.fst) hx
      rw [map_fst_retryAssignments, map_fst_retriedItems, List.mem_filter] at hfirst
      intro hcompleted
      rw [RunReplayState.itemStatus, Option.map_eq_some_iff] at hcompleted
      obtain ⟨item, hitem, hstatus⟩ := hcompleted
      simp [hitem, hstatus] at hfirst

/-! ### From the first load to the append -/

/-- What a control operation has decided is its rule on the stream; once the operation is numbered, on
the stream that it is numbered for. -/
def RequestPhase.Current (log : EventLog) : RequestPhase → Prop
  | .idle => True
  | .decided request draws ps => ∀ r, request.runId? = some r →
      request.Orders (stream log r) ∧ request.decide draws (stream log r) = some ps
  | .numbered request draws ps _ seen => ∀ r, request.runId? = some r →
      request.Orders (stream seen.log r) ∧ request.decide draws (stream seen.log r) = some ps

theorem stream_eq_of_append {log log' : EventLog} {r' : Uuid} (hne : r ≠ r')
    (h : append log r' events = .ok log') : stream log' r = stream log r := by
  obtain ⟨rfl, -⟩ := append_eq_ok.mp h
  rw [stream_append, stream_map_bindTo, if_neg hne, List.append_nil]

theorem World.Step.stream_eq (h : s.Step d a s') (hr : s.target a ≠ some r) :
    stream s'.log r = stream s.log r := by
  cases h with
  | submit hphase _ _ happ =>
    rw [target, hphase] at hr
    exact stream_eq_of_append (fun heq => hr (congrArg some heq.symm)) happ
  | append hphase happ =>
    rw [target, hphase] at hr
    exact stream_eq_of_append (fun heq => hr (congrArg some heq.symm)) happ
  | _ => rfl

theorem World.Step.current (h : s.Step d a s') (hwf : WellFormed s.log) (hquiet : s.Undisturbed a)
    (hcurrent : ∀ k, (s.requests k).Current s.log) : ∀ k, (s'.requests k).Current s'.log := by
  -- a request that takes no step itself
  have hkept : ∀ k, (s.requests k).Current s'.log := by
    intro k
    have hk := hcurrent k
    cases hphase : s.requests k with
    | idle => trivial
    | numbered request draws ps revision seen =>
      rw [hphase] at hk
      exact hk
    | decided request draws ps =>
      rw [hphase] at hk
      intro r hrun
      rw [h.stream_eq (hquiet k request draws ps r hphase hrun)]
      exact hk r hrun
  have hset : ∀ (k : Nat) (phase : RequestPhase), phase.Current s'.log →
      ∀ k', (Function.update s.requests k phase k').Current s'.log := by
    intro k phase hphase k'
    by_cases hk : k' = k
    · subst hk
      rwa [Function.update_self]
    · rw [Function.update_of_ne hk]
      exact hkept k'
  cases h with
  | @decide k request draws events ps hphase hreads horders hdecide =>
    refine hset k _ fun r hrun => ?_
    rw [Request.Reads, hrun] at hreads
    obtain rfl := (hwf.gapFree.load_eq_ok.mp hreads.1).1
    exact ⟨horders, hdecide⟩
  | @number k request draws ps revision hphase =>
    refine hset k _ fun r hrun => ?_
    have hk := hcurrent k
    rw [hphase] at hk
    exact hk r hrun
  | submit | drop => exact hset _ .idle trivial
  | _ => exact hkept

/-- In a run in which nothing is committed between the two loads of a control operation, every such
operation decides on the stream that it appends to. -/
theorem decidedOnStream_of_undisturbed (h : Reach (interleaving d) World.Undisturbed s) :
    DecidedOnStream d s := by
  have hcurrent : ∀ k, (s.requests k).Current s.log := by
    refine h.invariant_of (K := World.Inv d) (I := fun s => ∀ k, (s.requests k).Current s.log)
      (fun _ => World.Inv.of_reach) ?_ ?_
    · rintro s rfl k
      trivial
    · exact fun s a s' hinv hcurrent hstep hquiet =>
        World.Step.current hstep hinv.sound.wellFormed hquiet hcurrent
  have hinv := World.Inv.of_reach h
  intro k request draws ps revision seen r s' hphase hrun hstep
  have hk := hcurrent k
  have hnumbered := hinv.requests k
  rw [hphase] at hk hnumbered
  obtain ⟨horders, hdecide⟩ := hk r hrun
  have hresource : request.resource draws = r := by rw [Request.resource, hrun, Option.getD_some]
  cases hstep with
  | @submit _ request' draws' ps' revision' seen' log' hphase' hnew hstamped happ =>
    obtain ⟨rfl, rfl, rfl, rfl, rfl⟩ := RequestPhase.numbered.inj (hphase.symm.trans hphase')
    have hstream := RequestPhase.Inv.stream_eq hnumbered hinv.sound.wellFormed.gapFree happ
    rw [hresource] at hstream happ
    have hsame : stream s.log r = stream seen.log r := hstream
    rw [← hsame] at horders hdecide
    refine ⟨?_, horders, hdecide, fun status reason => Request.status_ne_of_decide hrun hdecide,
      fun i agentId => Request.itemStatus_ne_of_decide hrun hdecide⟩
    obtain ⟨rfl, -⟩ := append_eq_ok.mp happ
    show payloads (stream (s.log ++ _) r) = _
    rw [stream_append, stream_map_bindTo, if_pos rfl, map_bindTo_newEvents, payloads_append,
      payloads_newEvents]

end decisions

/-! ### Two pauses -/

def pauseDraws (k : Nat) : Draws := .at sampleRun (100 * (k + 1)) 0

def numberActions (k : Nat) (request : Request) (draws : Draws) : List Action :=
  [.decide k request draws, .number k]

def onePause : World :=
  World.init.after sampleDeployment
    (startActions ++ numberActions 1 (.pauseRun sampleRun) (pauseDraws 1))

theorem undisturbed_of_mem_numberActions {k : Nat} {request : Request} {draws : Draws} {a : Action}
    (h : a ∈ numberActions k request draws) (s : World) : s.Undisturbed a := by
  intro k' request' draws' ps r _ _
  simp only [numberActions, List.mem_cons, List.not_mem_nil, or_false] at h
  rcases h with rfl | rfl <;> simp [World.target]

theorem decidedOnStream_onePause : DecidedOnStream sampleDeployment onePause := by
  refine decidedOnStream_of_undisturbed ?_
  have hstart : Reach (interleaving sampleDeployment) World.Undisturbed
      (World.init.after sampleDeployment startActions) := by
    have hnumbered : Reach (interleaving sampleDeployment) World.Undisturbed
        (World.init.after sampleDeployment (numberActions 0
          (.startRun sampleWorkspace "" (some 1) (some 1)) (.at sampleRun 100 0))) :=
      World.reach_after (.init rfl)
        (World.Enabled.guarded (by decide) fun a => undisturbed_of_mem_numberActions)
    have hsubmit : (World.after sampleDeployment (World.init.after sampleDeployment
        (numberActions 0 (.startRun sampleWorkspace "" (some 1) (some 1)) (.at sampleRun 100 0)))
          [.submit 0]) = World.init.after sampleDeployment startActions := rfl
    rw [← hsubmit]
    refine World.reach_after hnumbered ⟨by decide, ?_, trivial⟩
    intro k request draws ps r hphase
    cases k with
    | zero => exact RequestPhase.noConfusion hphase
    | succ k => exact RequestPhase.noConfusion hphase
  exact World.reach_after hstart
    (World.Enabled.guarded (by decide) fun a => undisturbed_of_mem_numberActions)

/-- Both pauses have found the run running, and the first one is committed before the second one reads
its revision. -/
def twoPauses : World :=
  World.init.after sampleDeployment
    (startActions ++ [.decide 2 (.pauseRun sampleRun) (pauseDraws 2)] ++
      requestActions 1 (.pauseRun sampleRun) (pauseDraws 1) ++ [.number 2])

/-- The second pause pauses a paused run. -/
theorem not_decidedOnStream_twoPauses : Reachable (interleaving sampleDeployment) twoPauses ∧
    ¬ DecidedOnStream sampleDeployment twoPauses := by
  refine ⟨World.reach_after (.init rfl) (by decide), fun h => ?_⟩
  obtain ⟨seen, hphase⟩ : ∃ seen, twoPauses.requests 2 = .numbered (.pauseRun sampleRun)
      (pauseDraws 2) [.runStatusChanged sampleRun "paused" (some "manual pause")] 4 seen :=
    ⟨_, by rfl⟩
  obtain ⟨s', hplay⟩ : ∃ s', twoPauses.play sampleDeployment (.submit 2) = some s' :=
    Option.isSome_iff_exists.mp (by decide)
  have hinformed := h 2 _ _ _ _ _ _ s' hphase rfl (World.step_of_play hplay)
  exact hinformed.changes "paused" _ List.mem_cons_self (by decide)

end SamtaDashboard

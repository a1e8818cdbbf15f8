import SamtaDashboard.System.Decisions
import SamtaDashboard.System.ReadPaths

/-!
# Interleavings without stale reads

Every append is decided on a read: a control operation decides on its first `load`, a worker executes on
its `load_all`. When nothing is committed to the run between that read and the append (`FreshReads`),
an interleaving of requests and workers does nothing to the log that they could not do one after the
other: each append is a change of a history, or it opens the stream of a workspace or of an agent
profile (`freshReads_serial`). With one clock every stream is then stamped in commit order.
-/

namespace SamtaDashboard

open EventFold Transition

/-! ### Fresh reads -/

/-- No event has come to the run since the worker that appends to it has read it. -/
def World.FreshBatch (s : World) (a : Action) : Prop :=
  ∀ x ∈ s.batchOf a, (stream s.log x.2.1).length = (stream x.1.log x.2.1).length

instance (s : World) (a : Action) : Decidable (s.FreshBatch a) :=
  inferInstanceAs (Decidable (∀ x ∈ s.batchOf a, _))

/-- Neither a control operation nor a worker appends to a run that has grown since its read. -/
def World.FreshReads (s : World) (a : Action) : Prop := s.Undisturbed a ∧ s.FreshBatch a

/-- What requests and workers that come one after the other do to the log. -/
inductive SerialStep (log log' : EventLog) : Prop
  | workspace {r : Uuid} {rows : List EventEnvelope} (name : String) : stream log r = [] →
      Appended log log' r rows → payloads rows = [.workspaceCreated name] → SerialStep log log'
  | agentProfile {r : Uuid} {rows : List EventEnvelope} (name role : String) : stream log r = [] →
      Appended log log' r rows → payloads rows = [.agentProfileCreated name role .zero] →
      SerialStep log log'
  | change : Change log log' → SerialStep log log'

/-! ### What a request is going to append -/

/-- A pending batch is what the rule of its request gives on some events; a control operation has found
a stream. -/
def RequestPhase.Ruled (log : EventLog) (phase : RequestPhase) : Prop :=
  ∀ x ∈ phase.pending?, (∃ events, x.1.decide x.2.1 events = some x.2.2) ∧
    ∀ r, x.1.runId? = some r → stream log r ≠ []

section steps

variable {d : Deployment} {s s' : World} {a : Action}

theorem World.Step.ruled (h : s.Step d a s') (hinv : s.Inv d)
    (hruled : ∀ k, (s.requests k).Ruled s.log) (k : Nat) : (s'.requests k).Ruled s'.log := by
  have hlog := h.log_mono hinv
  intro x hx
  rcases h.pending_request k hx with hold | ⟨events, -, hreads, -, hdecide⟩
  · obtain ⟨hrule, hstream⟩ := hruled k x hold
    exact ⟨hrule, fun r hr => List.IsPrefix.ne_nil (stream_mono hlog r) (hstream r hr)⟩
  · refine ⟨⟨events, hdecide⟩, fun r hr => ?_⟩
    rw [Request.Reads, hr] at hreads
    obtain rfl := (hinv.sound.wellFormed.gapFree.load_eq_ok.mp hreads.1).1
    exact List.IsPrefix.ne_nil (stream_mono hlog r) hreads.2

theorem World.FreshBatch.stream_eq (h : s.FreshBatch a) {w : Nat}
    {snapshot : Snapshot} {r : Uuid} {batch rows : List EventEnvelope}
    (hbatch : s.batchOf a = some (snapshot, r, batch))
    (hcommit : BatchCommit d s s' w snapshot r batch rows) : stream snapshot.log r = stream s.log r :=
  (stream_mono hcommit.read.past.later.2 r).eq_of_length (h _ hbatch).symm

/-- On one clock a batch from a fresh read is stamped after the events of the run. -/
theorem World.FreshBatch.onTime (h : s.FreshBatch a) (hclock : d.OneClock) (hinv : s.Inv d)
    (hstep : s.Step d a s') : OnTime s a := by
  intro x hx e he b hb
  cases hstep.commit hinv with
  | nothing hnone => rw [hnone] at hx; cases hx
  | request ha => subst ha; cases hx
  | @batch w snapshot r batch rows hbatch hcommit =>
    obtain rfl := Option.some.inj (hbatch.symm.trans hx)
    rw [← h.stream_eq hbatch hcommit] at he
    exact hclock.le_of_stamps (hcommit.read.past.sound.stamped e (mem_stream.mp he).1)
      hcommit.prepared.stamped hb

theorem Request.serial {request : Request} {draws : Draws} {events rows : List EventEnvelope}
    {log log' : EventLog} (hdecide : request.decide draws events = some (payloads rows))
    (hcurrent : ∀ r, request.runId? = some r → stream log r ≠ [] ∧
      request.decide draws (stream log r) = some (payloads rows)) (hnew : request.New draws log)
    (happ : Appended log log' (request.resource draws) rows) : SerialStep log log' := by
  have hstatus : ∀ (r : Uuid) (status : String) (reason : Option String),
      status ∈ EventPayload.controlStatuses → stream log r ≠ [] →
      statusChange r status reason (stream log r) = some (payloads rows) →
      Appended log log' r rows → SerialStep log log' := by
    intro r status reason hallowed hr hchange happ
    obtain ⟨hdiffers, hps⟩ := statusChange_eq_some.mp hchange
    exact .change (.status r status ⟨hr, hallowed, hdiffers, rows, reason, happ, hps⟩)
  cases request with
  | createWorkspace name => exact .workspace name hnew happ (Option.some.inj hdecide).symm
  | createAgentProfile name role => exact .agentProfile name role hnew happ (Option.some.inj hdecide).symm
  | startRun workspaceId objective target agents =>
    exact .change (.start draws workspaceId
      ⟨hnew, rows, objective, target, agents, happ, (Option.some.inj hdecide).symm⟩)
  | pauseRun r | resumeRun r | cancelRun r =>
    obtain ⟨hr, hchange⟩ := hcurrent r rfl
    exact hstatus r _ _ (by decide) hr hchange happ
  | retryRun order r =>
    obtain ⟨hr, hretry⟩ := hcurrent r rfl
    exact .change (.retry r ⟨hr, rows, draws, order, happ, hretry⟩)

theorem World.Step.requestAppended {k : Nat} (h : s.Step d (.submit k) s') (hinv : s.Inv d) :
    ∃ request draws ps revision seen, s.requests k = .numbered request draws ps revision seen ∧
      request.New draws s.log ∧
      stream s.log (request.resource draws) = stream seen.log (request.resource draws) ∧
      Appended s.log s'.log (request.resource draws)
        (newEvents draws (request.resource draws) revision ps) := by
  have hgap : GapFree s.log := hinv.sound.wellFormed.gapFree
  cases h with
  | @submit _ request draws ps revision seen log' hphase hnew hstamped happ =>
    have hnumbered := hinv.requests k
    rw [hphase] at hnumbered
    have hadm : Admissible s.log (request.resource draws)
        (payloads (newEvents draws (request.resource draws) revision ps)) := by
      rw [payloads_newEvents]
      exact hnumbered.1.admissible _ List.prefix_rfl hnew
    have happended := Appended.of_append hgap hadm happ
    rw [map_bindTo_newEvents] at happended
    exact ⟨request, draws, ps, revision, seen, hphase, hnew,
      RequestPhase.Inv.stream_eq hnumbered hgap happ, happended⟩

theorem World.Step.batchCommitted {w : Nat} (h : s.Step d (.append w) s') (hinv : s.Inv d) :
    ∃ snapshot runs r batch latest retries w' rows,
      s.workers w = .appending snapshot runs r batch (some latest) retries ∧
        BatchCommit d s s' w' snapshot r batch rows := by
  have hcommit := h.commit hinv
  cases h with
  | @append _ snapshot runs r batch latest retries log' hphase happ =>
    have hbatchOf : s.batchOf (.append w) = some (snapshot, r, batch) := by
      simp only [batchOf, hphase]
    cases hcommit with
    | nothing hnone => rw [hbatchOf] at hnone; cases hnone
    | request ha => cases ha
    | @batch w' _ _ _ rows hbatch hcommit =>
      cases hbatchOf.symm.trans hbatch
      exact ⟨snapshot, runs, r, batch, latest, retries, w', rows, hphase, hcommit⟩

theorem World.Step.serial (h : s.Step d a s') (hinv : s.Inv d)
    (hcurrent : ∀ k, (s.requests k).Current s.log) (hruled : ∀ k, (s.requests k).Ruled s.log)
    (hfresh : s.FreshBatch a) : s'.log = s.log ∨ SerialStep s.log s'.log := by
  cases a with
  | submit k =>
    obtain ⟨request, draws, ps, revision, seen, hphase, hnew, hsame, happ⟩ := h.requestAppended hinv
    have hk := hcurrent k
    have hrule := hruled k
    rw [hphase] at hk hrule
    obtain ⟨⟨events, hdecide⟩, hstream⟩ := hrule _ rfl
    rw [← payloads_newEvents draws (request.resource draws) revision ps] at hdecide hk
    refine Or.inr (request.serial hdecide (fun r hr => ⟨hstream r hr, ?_⟩) hnew happ)
    have hresource : request.resource draws = r := by rw [Request.resource, hr, Option.getD_some]
    have hdecided := (hk r hr).2
    rw [hresource] at hsame hdecided ⊢
    rwa [hsame]
  | append w =>
    obtain ⟨snapshot, runs, r, batch, latest, retries, _, rows, hphase, hcommit⟩ := h.batchCommitted hinv
    obtain ⟨executor, state, state', executed, summary, hstate, hadvanced⟩ := hcommit.prepared.advanced
    have hstream : stream snapshot.log r = stream s.log r :=
      hfresh.stream_eq (by simp only [batchOf, hphase]) hcommit
    exact Or.inr (.change (.batch ⟨⟨snapshot.log, snapshot.events, hcommit.read.past.later.2, hstream,
      hcommit.read.order, hstate⟩, hadvanced, rows, hcommit.appended, hcommit.payloads⟩))
  | _ => exact Or.inl (by cases h <;> rfl)

end steps

/-- Without stale reads the log of an interleaving comes about by appends of a history and by the
creation of workspaces and agent profiles, one after the other. With one clock `load` and `load_all` then
see every stream in the same order. -/
theorem freshReads_serial {d : Deployment} {s : World}
    (h : Reach (interleaving d) World.FreshReads s) :
    Relation.ReflTransGen SerialStep [] s.log ∧ (d.OneClock → ∀ r, ReadPathsAgree s.log r) := by
  have hinv : ∀ s, Reach (interleaving d) World.FreshReads s → s.Inv d := fun _ => World.Inv.of_reach
  refine ⟨And.right (a := (∀ k, (s.requests k).Current s.log) ∧ ∀ k, (s.requests k).Ruled s.log) ?_,
    fun hclock r => ?_⟩
  · refine h.invariant_of (K := World.Inv d) (I := fun s => ((∀ k, (s.requests k).Current s.log) ∧
      ∀ k, (s.requests k).Ruled s.log) ∧ Relation.ReflTransGen SerialStep [] s.log) hinv ?_ ?_
    · rintro s rfl
      exact ⟨⟨fun _ => trivial, fun _ _ hx => nomatch hx⟩, .refl⟩
    · rintro s a s' hs ⟨⟨hcurrent, hruled⟩, hpath⟩ hstep ⟨hquiet, hfresh⟩
      refine ⟨⟨hstep.current hs.sound.wellFormed hquiet hcurrent, hstep.ruled hs hruled⟩, ?_⟩
      rcases hstep.serial hs hcurrent hruled hfresh with hsame | hserial
      · exact hsame ▸ hpath
      · exact hpath.tail hserial
  · have honTime : Reach (interleaving d) OnTime s := h.imp fun s a s' hs hstep hguard =>
      hguard.2.onTime hclock (World.Inv.of_reach hs) hstep
    exact (((reach_onTime_iff hclock).mp honTime).2 r).readPathsAgree
      (World.Inv.of_reach h).sound.wellFormed.gapFree

theorem World.undisturbed_of_target {s : World} {a : Action} (h : s.target a = none) :
    s.Undisturbed a := by
  intro k request draws ps r _ _
  rw [h]
  exact nofun

theorem promptActions_freshReads :
    Reach (interleaving sampleDeployment) World.FreshReads
      (World.init.after sampleDeployment promptActions) := by
  refine World.reach_after (.init rfl) ⟨by decide, ⟨World.undisturbed_of_target rfl, by decide⟩,
    by decide, ⟨World.undisturbed_of_target rfl, by decide⟩, by decide, ⟨?_, by decide⟩,
    by decide, ⟨World.undisturbed_of_target rfl, by decide⟩,
    by decide, ⟨World.undisturbed_of_target rfl, by decide⟩,
    by decide, ⟨World.undisturbed_of_target rfl, by decide⟩, by decide, ⟨?_, by decide⟩, trivial⟩
  all_goals
    intro k request draws ps r hphase
    cases k <;> exact RequestPhase.noConfusion hphase

theorem freshReads_serial_promptActions :
    Relation.ReflTransGen SerialStep [] (logAfterActions promptActions) ∧
      ReadPathsAgree (logAfterActions promptActions) sampleRun :=
  have h := freshReads_serial promptActions_freshReads
  ⟨h.1, h.2 sampleDeployment_oneClock sampleRun⟩

end SamtaDashboard

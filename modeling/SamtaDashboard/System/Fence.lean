import SamtaDashboard.System.Schedule

/-!
# Pause and cancel as a fence

A worker checks the status of a run on its snapshot and appends later, at whatever revision the
stream has reached. So a pause or a cancel keeps the worker out unless it overtakes it, that is, is
appended between the worker's `load_all` and its append and still in force then. `fenced_iff`: the
reachable states whose streams are fenced are those that are reached without being overtaken. The
clocks of the workers do not matter, the control operations need a common one.
-/

namespace SamtaDashboard

open EventFold Transition

namespace EventPayload

def statusChange? : EventPayload → Option String
  | runStatusChanged _ status _ => some status
  | _ => none

/-- The run is paused or cancelled. -/
def stops (p : EventPayload) : Bool :=
  p.statusChange? = some "paused" || p.statusChange? = some "cancelled"

def resumes (p : EventPayload) : Bool := p.statusChange? = some "running"

/-- An item is started or completed, or the run is. -/
def isProgress : EventPayload → Bool
  | workItemStarted .. | workItemCompleted .. | progressChunkEmitted .. | runCompleted .. => true
  | _ => false

end EventPayload

/-- After a pause or a cancel nothing progresses until the run is set running. -/
def Fenced (ps : List EventPayload) : Prop :=
  ∀ pre stop mid p post, ps = pre ++ stop :: (mid ++ p :: post) → stop.stops → p.isProgress →
    ∃ x ∈ mid, x.resumes

/-- The last `RunStatusChanged` is a pause or a cancel. -/
def stopInForce (ps : List EventPayload) : Bool :=
  lastWrite EventPayload.statusChange? ps = some "paused" ||
    lastWrite EventPayload.statusChange? ps = some "cancelled"

section fence

variable {ps qs : List EventPayload}

theorem stopInForce_append_of_none (hqs : ∀ q ∈ qs, q.statusChange? = none) :
    stopInForce (ps ++ qs) = stopInForce ps := by
  unfold stopInForce
  rw [lastWrite_append, lastWrite_of_none hqs, Option.none_or]

theorem stopInForce_append_of_some (hqs : lastWrite EventPayload.statusChange? qs ≠ none) :
    stopInForce (ps ++ qs) = stopInForce qs := by
  obtain ⟨status, hstatus⟩ := Option.ne_none_iff_exists'.mp hqs
  unfold stopInForce
  rw [lastWrite_append, hstatus, Option.some_or]

/-- As only three statuses are written, a stop is in force until the run is set running. -/
theorem stopInForce_iff (hps : ∀ p ∈ ps, p.isWritten) :
    stopInForce ps ↔ ∃ pre stop mid, ps = pre ++ stop :: mid ∧ stop.stops ∧
      ∀ x ∈ mid, x.resumes = false := by
  constructor
  · intro h
    obtain ⟨status, hlast, hstatus⟩ : ∃ status,
        lastWrite EventPayload.statusChange? ps = some status ∧
          (status = "paused" ∨ status = "cancelled") := by
      unfold stopInForce at h
      rw [Bool.or_eq_true, decide_eq_true_eq, decide_eq_true_eq] at h
      rcases h with h | h
      · exact ⟨_, h, Or.inl rfl⟩
      · exact ⟨_, h, Or.inr rfl⟩
    obtain ⟨pre, stop, mid, hcut, hstop, hmid⟩ := lastWrite_eq_some.mp hlast
    refine ⟨pre, stop, mid, hcut, ?_, fun x hx => ?_⟩
    · rcases hstatus with rfl | rfl <;> simp [EventPayload.stops, hstop]
    · simp [EventPayload.resumes, hmid x hx]
  · rintro ⟨pre, stop, mid, rfl, hstop, hmid⟩
    -- the statuses written after the stop are not "running", so they are stops as well
    have hlast : ∀ status, lastWrite EventPayload.statusChange? (stop :: mid) = some status →
        status = "paused" ∨ status = "cancelled" := by
      intro status hstatus
      obtain ⟨x, hx, hwrite⟩ := lastWrite_mem hstatus
      rcases List.mem_cons.mp hx with rfl | hx
      · simpa [EventPayload.stops, hwrite] using hstop
      · have hwritten := hps x (by simp [hx])
        have hnot := hmid x hx
        cases x <;> simp_all [EventPayload.statusChange?, EventPayload.resumes,
          EventPayload.isWritten, EventPayload.controlStatuses]
    have hsome : lastWrite EventPayload.statusChange? (stop :: mid) ≠ none := by
      intro hnone
      have := lastWrite_eq_none.mp hnone stop List.mem_cons_self
      simp [EventPayload.stops, this] at hstop
    rw [stopInForce_append_of_some hsome]
    obtain ⟨status, hstatus⟩ := Option.ne_none_iff_exists'.mp hsome
    rcases hlast status hstatus with rfl | rfl <;> simp [stopInForce, hstatus]

theorem fenced_nil : Fenced [] := by
  intro pre stop mid p post h
  simp at h

theorem fenced_append_singleton {p : EventPayload} (hps : ∀ q ∈ ps, q.isWritten) :
    Fenced (ps ++ [p]) ↔ Fenced ps ∧ (p.isProgress → stopInForce ps = false) := by
  constructor
  · refine fun h => ⟨fun pre stop mid q post hcut => ?_, fun hp => ?_⟩
    · exact h pre stop mid q (post ++ [p]) (by simp [hcut])
    · by_contra hforce
      rw [Bool.not_eq_false, stopInForce_iff hps] at hforce
      obtain ⟨pre, stop, mid, rfl, hstop, hmid⟩ := hforce
      obtain ⟨x, hx, hresumes⟩ := h pre stop mid p [] (by simp) hstop hp
      simp [hmid x hx] at hresumes
  · rintro ⟨h, hp⟩ pre stop mid q post hcut hstop hq
    cases post using List.reverseRecOn with
    | nil =>
      have hcut' : ps ++ [p] = (pre ++ stop :: mid) ++ [q] := by simpa using hcut
      obtain ⟨rfl, heq⟩ := List.append_inj' hcut' rfl
      obtain rfl : p = q := by simpa using heq
      by_contra hnone
      have hforce : stopInForce (pre ++ stop :: mid) := (stopInForce_iff hps).mpr
        ⟨pre, stop, mid, rfl, hstop, fun x hx => by
          by_contra hx'
          exact hnone ⟨x, hx, by simpa using hx'⟩⟩
      simp [hp hq] at hforce
    | append_singleton post last _ =>
      have hcut' : ps ++ [p] = (pre ++ stop :: (mid ++ q :: post)) ++ [last] := by simpa using hcut
      exact h pre stop mid q post (List.append_inj' hcut' rfl).1 hstop hq

theorem fenced_append_quiet (hps : ∀ q ∈ ps ++ qs, q.isWritten)
    (hqs : ∀ q ∈ qs, q.isProgress = false) : Fenced (ps ++ qs) ↔ Fenced ps := by
  induction qs using List.reverseRecOn with
  | nil => rw [List.append_nil]
  | append_singleton qs q ih =>
    rw [← List.append_assoc] at hps ⊢
    rw [List.forall_mem_append, List.forall_mem_singleton] at hps hqs
    rw [fenced_append_singleton hps.1, ih hps.1 hqs.1]
    simp [hqs.2]

theorem fenced_append_batch (hps : ∀ q ∈ ps ++ qs, q.isWritten)
    (hqs : ∀ q ∈ qs, q.statusChange? = none) : Fenced (ps ++ qs) ↔
      Fenced ps ∧ ((∃ q ∈ qs, q.isProgress) → stopInForce ps = false) := by
  induction qs using List.reverseRecOn with
  | nil => simp
  | append_singleton qs q ih =>
    rw [← List.append_assoc] at hps ⊢
    rw [List.forall_mem_append, List.forall_mem_singleton] at hps hqs
    rw [fenced_append_singleton hps.1, ih hps.1 hqs.1, stopInForce_append_of_none hqs.1]
    simp only [List.mem_append, List.mem_singleton]
    grind

end fence

/-! ### The clock of the control operations -/

/-- All requests read the same clock, and it does not run backwards. -/
def Deployment.ApiClock (d : Deployment) : Prop :=
  ∀ k k' t t', t ≤ t' → d.clock (.request k) t ≤ d.clock (.request k') t'

/-- The orchestrator's events of every stream are stamped in the order of their revisions. -/
def ApiOrdered (log : EventLog) : Prop :=
  ∀ r, ((stream log r).filter (·.payload.isOrchestrated)).Pairwise (·.occurredAt ≤ ·.occurredAt)

section clock

variable {d : Deployment} {s s' : World} {a : Action}

theorem ApiOrdered.of_prefix {log log' : EventLog} (h : ApiOrdered log') (hread : log <+: log') :
    ApiOrdered log :=
  fun r => (h r).sublist ((stream_mono hread r).sublist.filter _)

theorem Commit.apiOrdered (h : Commit d s a s') (hclock : d.ApiClock) (horder : ApiOrdered s.log) :
    ApiOrdered s'.log := by
  cases h with
  | nothing _ hlog => rwa [hlog]
  | @request k request draws seen rows _ h =>
    intro r
    rw [h.appended.stream_eq, List.filter_append]
    refine List.pairwise_append.mpr ⟨horder r, ?_, fun e he b hb => ?_⟩
    · refine List.Pairwise.sublist List.filter_sublist ?_
      split
      · exact h.stamped.sorted fun t t' => hclock k k t t'
      · exact List.Pairwise.nil
    · obtain ⟨he, horch⟩ := List.mem_filter.mp he
      have hb := (List.mem_filter.mp hb).1
      split at hb
      · next hr =>
        rw [hr, h.unchanged] at he
        -- an event of the orchestrator's carries the time of a request
        obtain ⟨p, hwrites, t, ht, heq⟩ := h.past.sound.stamped e (mem_stream.mp he).1
        obtain ⟨t', ht', -, heq'⟩ := h.stamped.exists_time hb
        cases p with
        | request k' =>
          rw [heq, heq']
          exact hclock k' k t t' (le_trans ht ht')
        | worker w => simp [Process.writes, horch] at hwrites
      · cases hb
  | @batch w snapshot r batch rows _ h =>
    intro r'
    have hnone : (if r' = r then rows else []).filter (·.payload.isOrchestrated) = [] := by
      refine List.filter_eq_nil_iff.mpr fun e he => ?_
      split at he
      · rw [h.prepared.not_orchestrated _ (h.payloads ▸ List.mem_map_of_mem he)]
        exact Bool.false_ne_true
      · cases he
    rw [h.appended.stream_eq, List.filter_append, hnone, List.append_nil]
    exact horder r'

end clock

/-! ### A worker sees every stop of its snapshot -/

theorem ApiOrdered.le {log : EventLog} (h : ApiOrdered log) {r : Uuid}
    {pre post : List EventEnvelope} {e b : EventEnvelope} (hcut : stream log r = pre ++ b :: post)
    (he : e ∈ pre) (horch : e.payload.isOrchestrated) (horch' : b.payload.isOrchestrated) :
    e.occurredAt ≤ b.occurredAt := by
  have hsorted := h r
  rw [hcut, List.filter_append] at hsorted
  exact (List.pairwise_append.mp hsorted).2.2 e (List.mem_filter.mpr ⟨he, horch⟩) b
    (List.mem_filter.mpr ⟨List.mem_cons_self, horch'⟩)

theorem isOrchestrated_of_stops {p : EventPayload} (h : p.stops) : p.isOrchestrated := by
  cases p <;> simp_all [EventPayload.stops, EventPayload.statusChange?,
    EventPayload.isOrchestrated]

theorem of_workerStatus_running {p : EventPayload} (h : p.workerStatus? = some "running") :
    p.isOrchestrated ∧ p.stops = false ∧ (p.isRunStarted ∨ p.statusChange? ≠ none) := by
  cases p <;> simp_all [EventPayload.workerStatus?, EventPayload.orchestratorStatus?,
    EventPayload.isOrchestrated, EventPayload.stops, EventPayload.statusChange?,
    EventPayload.isRunStarted]

theorem exists_stop {events : List EventEnvelope} (h : stopInForce (payloads events)) :
    ∃ pre stop post, events = pre ++ stop :: post ∧ stop.payload.stops ∧
      ∀ x ∈ post, x.payload.statusChange? = none := by
  unfold stopInForce at h
  rw [Bool.or_eq_true, decide_eq_true_eq, decide_eq_true_eq,
    ← lastWrite_payloads EventPayload.statusChange?] at h
  rcases h with h | h <;>
  · obtain ⟨pre, stop, post, hcut, hstop, hpost⟩ := lastWrite_eq_some.mp h
    exact ⟨pre, stop, post, hcut, by simp [EventPayload.stops, hstop], hpost⟩

theorem Snapshot.Inv.stopInForce_eq_false {d : Deployment} {m : Moment} {snapshot : Snapshot}
    (h : snapshot.Inv d m) (horder : ApiOrdered snapshot.log) {r : Uuid} {state : RunState}
    (hstate : replayRun (runEvents snapshot.events r) = some state)
    (hrunning : state.status = "running") :
    stopInForce (payloads (stream snapshot.log r)) = false := by
  have hwf := h.past.sound.wellFormed
  by_contra hforce
  rw [Bool.not_eq_false] at hforce
  obtain ⟨pre, stop, mid, hcut, hstop, hmid⟩ := exists_stop hforce
  -- the event that the worker takes the status from
  have hlast : lastWrite EventPayload.workerStatus? (payloads (runEvents snapshot.events r)) =
      some "running" := lastWrite_of_running hstate hrunning
  obtain ⟨e, hstream, he, hbefore⟩ := h.exists_lastWrite hlast
  obtain ⟨horch, hnot, hkind⟩ := of_workerStatus_running he
  have hstopmem : stop ∈ stream snapshot.log r := by simp [hcut]
  -- the stop comes after it in the stream
  have hle : timeLe e stop := by
    have hcons := (hwf.gapFree r).pairwise
    have hcases := hstream
    rw [hcut, List.mem_append, List.mem_cons] at hcases
    rcases hcases with hpre | rfl | hpost
    · rw [hcut] at hcons
      exact timeLe_of_lt (horder.le hcut hpre horch (isOrchestrated_of_stops hstop))
        ((List.pairwise_append.mp hcons).2.2 e hpre stop List.mem_cons_self)
    · rw [hstop] at hnot
      cases hnot
    · have htail : e ∈ (stream snapshot.log r).tail := by
        rw [hcut]
        cases pre <;> simp [hpost]
      rcases hkind with hstarted | hchange
      · rw [hwf.started r e htail] at hstarted
        cases hstarted
      · exact absurd (hmid e hpost) hchange
  -- and before it in the order of the times
  have hge : timeLe stop e := by
    refine hbefore stop hstopmem ?_ ?_
    · rw [runIdForEvent]
      cases hp : stop.payload <;> simp_all [EventPayload.stops, EventPayload.statusChange?,
        EventPayload.runId?]
    · cases hp : stop.payload <;> simp_all [EventPayload.stops, EventPayload.statusChange?,
        EventPayload.workerStatus?, EventPayload.orchestratorStatus?]
  obtain rfl := (hwf.gapFree r).eq_of_timeLe hstream hstopmem hle hge
  rw [hstop] at hnot
  cases hnot

/-! ### The fence holds unless it is overtaken -/

/-- What was appended to the batch's stream since the worker read the log. -/
def World.since (s : World) (x : Snapshot × Uuid × List EventEnvelope) : List EventEnvelope :=
  (stream s.log x.2.1).drop (stream x.1.log x.2.1).length

/-- When a worker appends progress, no pause or cancel is in force that came since its `load_all`. -/
def NotOvertaken (s : World) (a : Action) : Prop :=
  ∀ x ∈ s.batchOf a, (∃ p ∈ payloads x.2.2, p.isProgress) →
    stopInForce (payloads (s.since x)) = false

instance (s : World) (a : Action) : Decidable (NotOvertaken s a) :=
  inferInstanceAs (Decidable (∀ x ∈ s.batchOf a, _))

section steps

variable {d : Deployment} {s s' : World} {a : Action}

theorem BatchCommit.stream_since {w : Nat} {snapshot : Snapshot} {r : Uuid}
    {batch rows : List EventEnvelope} (h : BatchCommit d s s' w snapshot r batch rows) :
    stream s.log r = stream snapshot.log r ++ s.since (snapshot, r, batch) :=
  (List.prefix_iff_eq_append.mp (stream_mono h.read.past.later.2 r)).symm

/-- A stop that is in force when a worker appends has come since its `load_all`. -/
theorem stopInForce_of_batchCommit {w : Nat} {snapshot : Snapshot} {r : Uuid}
    {batch rows : List EventEnvelope} (h : BatchCommit d s s' w snapshot r batch rows)
    (horder : ApiOrdered s.log) : stopInForce (payloads (stream s.log r)) =
      stopInForce (payloads (s.since (snapshot, r, batch))) := by
  obtain ⟨executor, state, state', executed, summary, hstate, hadv⟩ := h.prepared.advanced
  have hsnapshot := h.read.stopInForce_eq_false (horder.of_prefix h.read.past.later.2) hstate
    hadv.status_before
  rw [h.stream_since, payloads_append]
  cases hlast : lastWrite EventPayload.statusChange?
    (payloads (s.since (snapshot, r, batch))) with
  | none =>
    rw [stopInForce_append_of_none (lastWrite_eq_none.mp hlast), hsnapshot]
    simp [stopInForce, hlast]
  | some status => exact stopInForce_append_of_some (by simp [hlast])

theorem Commit.fenced_step (h : Commit d s a s') (hsound : d.Sound s.moment)
    (horder : ApiOrdered s.log) : (∀ r, Fenced (payloads (stream s'.log r))) ↔
      (∀ r, Fenced (payloads (stream s.log r))) ∧ NotOvertaken s a := by
  have hwritten := (h.sound hsound).1.wellFormed.written_stream
  cases h with
  | nothing hbatch hlog => simp [hlog, NotOvertaken, hbatch]
  | @request k request draws seen rows ha h =>
    subst ha
    have hw := hwritten (request.resource draws)
    rw [h.appended.payloads_stream, if_pos rfl] at hw
    refine h.appended.forall_stream_iff ?_
    rw [and_iff_left (by simp [NotOvertaken, World.batchOf])]
    refine fenced_append_quiet hw fun q hq => ?_
    have horch := h.decided.orchestrated q hq
    cases q <;> simp_all [EventPayload.isOrchestrated, EventPayload.isProgress]
  | @batch w snapshot r batch rows hbatch h =>
    have hquiet : ∀ q ∈ payloads batch, q.statusChange? = none := by
      intro q hq
      have horch := h.prepared.not_orchestrated q hq
      cases q <;> simp_all [EventPayload.isOrchestrated, EventPayload.statusChange?]
    have hw := hwritten r
    rw [h.appended.payloads_stream, if_pos rfl] at hw
    refine h.appended.forall_stream_iff ?_
    rw [h.payloads] at hw ⊢
    rw [fenced_append_batch hw hquiet, stopInForce_of_batchCommit h horder]
    simp [NotOvertaken, hbatch]

end steps

theorem apiOrdered_of_reach {d : Deployment} (hclock : d.ApiClock) {s : World}
    (h : Reachable (interleaving d) s) : ApiOrdered s.log :=
  log_invariant h (fun _ => List.Pairwise.nil) fun _ _ _ _ horder _ hcommit =>
    hcommit.apiOrdered hclock horder

/-- With one clock for the control operations, all streams are fenced exactly if no worker has
progressed over a pause or a cancel that came since its `load_all`. -/
theorem fenced_iff {d : Deployment} (hclock : d.ApiClock) {s : World} :
    Reach (interleaving d) NotOvertaken s ↔
      Reachable (interleaving d) s ∧ ∀ r, Fenced (payloads (stream s.log r)) := by
  refine Reach.iff_of_exact (I := fun s : World => ∀ r, Fenced (payloads (stream s.log r))) ?_ ?_
  · rintro s rfl r
    exact fenced_nil
  · exact fun s a s' hreach hstep =>
      (hstep.commit (World.Inv.of_reach hreach)).fenced_step (World.Inv.of_reach hreach).sound
        (apiOrdered_of_reach hclock hreach)

/-! ### Sample runs -/

theorem fenced_promptActions :
    Fenced (payloads (stream (logAfterActions promptActions) sampleRun)) :=
  ((fenced_iff (d := sampleDeployment) fun _ _ _ _ hle => hle).mp
    (World.reach_after (.init rfl) (by decide +kernel))).2 sampleRun

/-- The clock of the first request is ahead of all others. -/
def skewedDeployment : Deployment where
  clock
    | .request 0, t => t + 10
    | _, t => t
  worker := sampleDeployment.worker

/-- A run is paused before a worker reads the log, but the pause is stamped before the start. -/
def skewedActions : List Action :=
  requestActions 0 (.startRun sampleWorkspace "" (some 1) (some 1)) (.at sampleRun 100 10) ++
    requestActions 1 (.pauseRun sampleRun) (.at sampleRun 200 0) ++
    executeActions 0 ++ appendActions 0

/-- A worker progresses over a pause that comes after its `load_all`, and also over an earlier one
that the clocks have put before the start of the run. -/
theorem not_fenced :
    (Reachable (interleaving sampleDeployment) (World.init.after sampleDeployment lateActions) ∧
      ¬ Fenced (payloads (stream (logAfterActions lateActions) sampleRun))) ∧
    Reach (interleaving skewedDeployment) NotOvertaken
        (World.init.after skewedDeployment skewedActions) ∧
      ¬ Fenced (payloads (stream (World.init.after skewedDeployment skewedActions).log sampleRun)) := by
  have hcut : ∀ ps : List EventPayload, ps = ps.take 2 ++
      .runStatusChanged sampleRun "paused" (some "manual pause") ::
        ([] ++ .workItemStarted sampleRun ⟨10⟩ ⟨60⟩ :: ps.drop 4) → ¬ Fenced ps := by
    intro ps hps hfenced
    obtain ⟨x, hx, -⟩ := hfenced _ _ _ _ _ hps rfl rfl
    cases hx
  exact ⟨⟨lateActions_reachable, hcut _ (by decide +kernel)⟩, World.reach_after (.init rfl)
    (by decide +kernel), hcut _ (by decide +kernel)⟩

end SamtaDashboard

import SamtaDashboard.Replays.Rebuild
import SamtaDashboard.System.History

/-!
# What every reader sees of a run

In a history all events are run events and a stream begins with its `RunStarted` (`RunLog`). When the
events of a run are stamped in commit order (`InOrder`), they come out of `load_all` in commit order
as well, so that the worker and the rebuild fold over the same list as the orchestrator: the run's
stream.
-/

namespace SamtaDashboard

open EventFold Transition

/-- What holds of the logs of a history in addition to `WellFormed`. -/
structure RunLog (log : EventLog) : Prop where
  grouped : ∀ e ∈ log, runIdForEvent e = some e.resourceId
  headed : ∀ r, ∀ e ∈ (stream log r).head?, e.payload.isRunStarted

/-- The events of run `r` are stamped in commit order. -/
def InOrder (log : EventLog) (r : Uuid) : Prop :=
  (stream log r).Pairwise (·.occurredAt ≤ ·.occurredAt)

instance (log : EventLog) (r : Uuid) : Decidable (InOrder log r) :=
  inferInstanceAs (Decidable (List.Pairwise _ _))

theorem InOrder.of_append {log rows : EventLog} {r : Uuid} (h : InOrder (log ++ rows) r) :
    InOrder log r := by
  rw [InOrder, stream_append] at h
  exact h.sublist (List.sublist_append_left _ _)

theorem runIdForEvent_eq {e : EventEnvelope} {r : Uuid} (hr : e.resourceId = r)
    (h : e.payload.isRunStarted ∨ e.payload.runId? = some r) : runIdForEvent e = some r := by
  unfold runIdForEvent
  split
  · rw [hr]
  · next hne =>
    rcases h with h | h
    · cases hp : e.payload <;> simp_all [EventPayload.isRunStarted]
    · exact h

theorem RunLog.exists_runStarted {log : EventLog} (h : RunLog log) {r : Uuid}
    (hr : stream log r ≠ []) :
    ∃ started rest w o, stream log r = started :: rest ∧ started.payload = .runStarted w o := by
  obtain ⟨started, rest, hcons⟩ := List.exists_cons_of_ne_nil hr
  have hhead : started.payload.isRunStarted := h.headed r started (by rw [hcons]; rfl)
  cases hp : started.payload <;> simp_all [EventPayload.isRunStarted]

theorem RunLog.lastWrite_ne_none {log : EventLog} (h : RunLog log) {r : Uuid}
    (hr : stream log r ≠ []) {V : Type} {w : EventPayload → Option V}
    (hw : ∀ workspaceId objective, w (.runStarted workspaceId objective) ≠ none) :
    lastWrite w (payloads (stream log r)) ≠ none := by
  obtain ⟨started, rest, workspaceId, objective, hcons, hp⟩ := h.exists_runStarted hr
  intro hnone
  rw [hcons, payloads_cons, hp] at hnone
  exact hw _ _ (lastWrite_eq_none.mp hnone _ List.mem_cons_self)

theorem ReadBy.stream_ne_nil {log : EventLog} (hwf : WellFormed log) {r : Uuid} {state : RunState}
    (h : ReadBy log r state) : stream log r ≠ [] := by
  obtain ⟨read, events, hread, -, horder, hstate⟩ := h
  have hne : runEvents events r ≠ [] := replayRun_isSome.mp (by rw [hstate]; rfl)
  obtain ⟨e, he⟩ := List.exists_mem_of_ne_nil _ hne
  obtain ⟨he, hrun⟩ := List.mem_filter.mp he
  have hlog := hread.subset (horder.perm.subset he)
  exact List.ne_nil_of_mem
    (mem_stream.mpr ⟨hlog, hwf.resourceId_eq hlog (by simpa using hrun)⟩)

theorem Change.rows {log log' : EventLog} (hwf : WellFormed log) (h : Change log log') :
    ∃ r rows, Appended log log' r rows ∧
      (∀ p ∈ payloads rows, p.isRunStarted ∨ p.runId? = some r) ∧
        (stream log r = [] → ∃ w o ps, payloads rows = .runStarted w o :: ps) := by
  cases h with
  | start draws workspaceId h =>
    obtain ⟨rows, objective, target, agents, happ, hps⟩ := h.appended
    refine ⟨_, rows, happ, fun p hp => ?_, fun _ => ⟨_, _, _, hps⟩⟩
    rw [hps, startRunPayloads_eq] at hp
    rcases List.mem_cons.mp hp with rfl | hp
    · exact Or.inl rfl
    · obtain ⟨x, -, rfl⟩ := Assignments.mem_payloads hp
      exact Or.inr rfl
  | status r status h =>
    obtain ⟨rows, reason, happ, hps⟩ := h.appended
    refine ⟨r, rows, happ, fun p hp => ?_, fun hnil => absurd hnil h.exists_run⟩
    rw [hps, List.mem_singleton] at hp
    subst hp
    exact Or.inr rfl
  | retry r h =>
    obtain ⟨rows, draws, order, happ, hps⟩ := h.appended
    refine ⟨r, rows, happ, fun p hp => ?_, fun hnil => absurd hnil h.exists_run⟩
    obtain ⟨-, -, -, heq⟩ := retryPayloads_eq_some.mp hps
    rw [heq] at hp
    rcases List.mem_cons.mp hp with rfl | hp
    · exact Or.inr rfl
    · obtain ⟨x, -, rfl⟩ := Assignments.mem_payloads hp
      exact Or.inr rfl
  | @batch r config state state' batch executed summary h =>
    obtain ⟨rows, happ, hps⟩ := h.appended
    refine ⟨r, rows, happ, fun p hp => ?_, fun hnil => absurd hnil (h.read.stream_ne_nil hwf)⟩
    rw [hps, h.advanced.payloads] at hp
    rcases List.mem_append.mp hp with hp | hp
    · obtain ⟨x, -, hp⟩ := mem_executedPayloads hp
      exact Or.inr (mem_outcome_payloads _ _ _ _ hp).1
    · obtain ⟨text, -, rfl⟩ := List.mem_map.mp hp
      exact Or.inr rfl

theorem RunLog.change {log log' : EventLog} (hwf : WellFormed log) (hrun : RunLog log)
    (h : Change log log') : RunLog log' := by
  obtain ⟨r, rows, happ, hkind, hopen⟩ := h.rows hwf
  rw [happ.log_eq]
  constructor
  · intro e he
    rcases List.mem_append.mp he with he | he
    · exact hrun.grouped e he
    · rw [happ.run e he]
      exact runIdForEvent_eq (happ.run e he) (hkind e.payload (List.mem_map_of_mem he))
  · intro r' e he
    rw [stream_append, stream_rows happ.run, List.head?_append] at he
    cases hs : stream log r' with
    | cons x xs =>
      rw [hs, List.head?_cons, Option.some_or] at he
      exact hrun.headed r' e (by rw [hs]; exact he)
    | nil =>
      rw [hs, List.head?_nil, Option.none_or] at he
      split at he
      · next heq =>
        subst heq
        obtain ⟨w, o, ps, hps⟩ := hopen hs
        cases rows with
        | nil => cases he
        | cons x xs =>
          obtain rfl : x = e := by simpa using he
          rw [payloads_cons] at hps
          rw [(List.cons.inj hps).1]
          rfl
      · cases he

/-! ### All readers fold over the stream -/

section readers

variable {log : EventLog} {r : Uuid}

theorem RunLog.runEvents_eq (hrun : RunLog log) {rows : List EventEnvelope}
    (hrows : ∀ e ∈ rows, e ∈ log) :
    runEvents rows r = rows.filter (·.resourceId = r) := by
  refine List.filter_congr fun e he => ?_
  rw [hrun.grouped e (hrows e he)]
  simp

theorem RunLog.runEvents_stream (hrun : RunLog log) : runEvents (stream log r) r = stream log r := by
  rw [hrun.runEvents_eq fun e he => (mem_stream.mp he).1, stream, List.filter_filter]
  simp

theorem RunLog.runEvents_loadAll (hwf : WellFormed log) (hrun : RunLog log)
    (horder : InOrder log r) {rows : List EventEnvelope} (h : InTimeOrder log rows) :
    runEvents rows r = stream log r := by
  rw [hrun.runEvents_eq fun e he => h.perm.subset he, h.filter_eq_stream (hwf.gapFree r) horder]

theorem ReadBy.replayRun_stream (hwf : WellFormed log) (hrun : RunLog log)
    (horder : InOrder log r) {state : RunState} (h : ReadBy log r state) :
    replayRun (stream log r) = some state := by
  obtain ⟨read, events, hread, hstream, hrows, hstate⟩ := h
  have hevents : ∀ e ∈ events, e ∈ log := fun e he => hread.subset (hrows.perm.subset he)
  have htimes : InOrder read r := by rwa [InOrder, hstream]
  have hcons : Consecutive 0 (stream read r) := hstream ▸ hwf.gapFree r
  rw [hrun.runEvents_eq hevents, hrows.filter_eq_stream hcons htimes, hstream] at hstate
  exact hstate

end readers

/-! ### What is recorded while a run is running -/

/-- The orchestrator sees a run running that a worker advances. -/
theorem Advances.running {log log' : EventLog} {r : Uuid} {config : LoopConfig}
    {state state' : RunState} {batch : List EventEnvelope} {executed : List (Uuid × Outcome)}
    {summary : Option String} (h : Advances log log' r config state state' batch executed summary)
    (hwf : WellFormed log) (hrun : RunLog log) (horder : InOrder log r) :
    lastWrite EventPayload.workerStatus? (payloads (stream log r)) = some "running" ∧
      lastWrite EventPayload.orchestratorStatus? (payloads (stream log r)) = some "running" := by
  have hworker : lastWrite EventPayload.workerStatus? (payloads (stream log r)) = some "running" :=
    lastWrite_of_running (h.read.replayRun_stream hwf hrun horder) h.advanced.status_before
  refine ⟨hworker, ?_⟩
  rw [← lastWrite_workerStatus_of_not_failureStands, hworker]
  intro hstands
  rw [lastWrite_workerStatus_of_failureStands (hwf.written_stream r) hstands] at hworker
  exact absurd hworker (by decide)

theorem Advances.assignedIn {log log' : EventLog} {r : Uuid} {config : LoopConfig}
    {state state' : RunState} {batch : List EventEnvelope} {executed : List (Uuid × Outcome)}
    {summary : Option String} (h : Advances log log' r config state state' batch executed summary)
    (hwf : WellFormed log) {x : Uuid × Outcome} (hx : x ∈ executed) : AssignedIn log r x.1 := by
  obtain ⟨read, events, hread, -, horder, hstate⟩ := h.read
  exact h.advanced.assignedIn hwf (fun e he => hread.subset (horder.perm.subset he)) hstate x hx

theorem RecordedWhileRunning.append_if {c : Prop} [Decidable c] {ps qs : List EventPayload}
    (h : RecordedWhileRunning ps) (hqs : RecordedWhileRunning (ps ++ qs)) :
    RecordedWhileRunning (ps ++ if c then qs else []) := by
  split
  · exact hqs
  · rwa [List.append_nil]

theorem RecordedWhileRunning.change {log log' : EventLog} (hwf : WellFormed log)
    (hrun : RunLog log) {r : Uuid} (horder : InOrder log r)
    (ih : RecordedWhileRunning (payloads (stream log r))) (h : Change log log') :
    RecordedWhileRunning (payloads (stream log' r)) := by
  cases h with
  | start draws workspaceId h =>
    obtain ⟨rows, objective, target, agents, happ, hps⟩ := h.appended
    rw [happ.payloads_stream]
    refine ih.append_if (ih.append_quiet fun p hp => ?_)
    rw [hps, startRunPayloads_eq] at hp
    rcases List.mem_cons.mp hp with rfl | hp
    · rfl
    · obtain ⟨x, -, rfl⟩ := Assignments.mem_payloads hp
      rfl
  | status r' status h =>
    obtain ⟨rows, reason, happ, hps⟩ := h.appended
    rw [happ.payloads_stream]
    refine ih.append_if (ih.append_quiet fun p hp => ?_)
    rw [hps, List.mem_singleton] at hp
    rw [hp]
    rfl
  | retry r' h =>
    obtain ⟨rows, draws, order, happ, hps⟩ := h.appended
    rw [happ.payloads_stream]
    refine ih.append_if (ih.append_quiet fun p hp => ?_)
    obtain ⟨-, -, -, heq⟩ := retryPayloads_eq_some.mp hps
    rw [heq] at hp
    rcases List.mem_cons.mp hp with rfl | hp
    · rfl
    · obtain ⟨x, -, rfl⟩ := Assignments.mem_payloads hp
      rfl
  | @batch r' config state state' batch executed summary h =>
    obtain ⟨rows, happ, hps⟩ := h.appended
    rw [happ.payloads_stream]
    by_cases hr : r = r'
    · subst hr
      rw [if_pos rfl, hps, h.advanced.payloads, ← List.append_assoc]
      refine (ih.append_running (h.running hwf hrun horder).2 fun p hp => ?_).append_quiet
        fun p hp => ?_
      · obtain ⟨x, -, hp⟩ := mem_executedPayloads hp
        have hkind := (mem_outcome_payloads _ _ _ _ hp).2.2
        cases p <;> simp_all [EventPayload.isExecution, EventPayload.orchestratorStatus?]
      · obtain ⟨text, -, rfl⟩ := List.mem_map.mp hp
        rfl
    · rw [if_neg hr, List.append_nil]
      exact ih

/-- What the changes of a log keep. -/
structure Recorded (log : EventLog) : Prop where
  runLog : RunLog log
  whileRunning : ∀ r, InOrder log r → RecordedWhileRunning (payloads (stream log r))

theorem Recorded.empty : Recorded [] :=
  ⟨⟨by simp, by simp [stream]⟩, fun _ _ => .nil⟩

theorem Recorded.change {log log' : EventLog} (hwf : WellFormed log) (h : Recorded log)
    (hchange : Change log log') : Recorded log' := by
  refine ⟨h.runLog.change hwf hchange, fun r horder' => ?_⟩
  obtain ⟨r', rows, happ⟩ := hchange.appended
  have horder : InOrder log r := by
    rw [happ.log_eq] at horder'
    exact horder'.of_append
  exact .change hwf h.runLog horder (h.whileRunning r horder) hchange

theorem history_recorded {log : EventLog} (h : Reachable history log) : Recorded log :=
  (history_invariant .empty (fun _ _ hwf hrec hchange => hrec.change hwf hchange) h).2

theorem history_runLog {log : EventLog} (h : Reachable history log) : RunLog log :=
  (history_recorded h).runLog

end SamtaDashboard

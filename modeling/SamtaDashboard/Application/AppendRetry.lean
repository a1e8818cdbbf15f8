import SamtaDashboard.Application.WorkerLoop
import SamtaDashboard.Infra.Transactions

/-!
# `bin/worker.rs`: `append_events_with_retry` on a database that fails

A round loads the stream, renumbers the batch and appends it. A load or an append may fail, and a
commit may take effect while its acknowledgement is lost; after an error the next round tries again
with the same ids, up to `max_attempts`. Between the steps of a round others append.

The batch is written at most once (`append_at_most_once`), because its ids survive the renumbering. But
after a lost acknowledgement all further rounds fail on these ids, and the call reports an error for a
batch that is in the log (`reported_failure_iff`).
-/

namespace SamtaDashboard

open Transition

/-- The arguments of `append_events_with_retry`. -/
structure RetryInput where
  runId : Uuid
  baseEvents : List EventEnvelope
  maxAttempts : Nat

inductive RoundPhase where
  | loading
  | appending (latestRevision : Int)
  | finished (ok : Bool)
  deriving DecidableEq

/-- The log and the locals of `append_events_with_retry`; `attempt` counts the rounds begun. -/
structure RetryState where
  log : EventLog
  attempt : Nat
  phase : RoundPhase

inductive RetryAction where
  /-- another writer -/
  | other (aggregateId : Uuid) (events : List EventEnvelope)
  | load
  | loadFails
  | append
  | appendFails
  /-- the commit takes effect and is reported as an error -/
  | ackLost

/-- The step is one of `append_events_with_retry`. -/
def RetryAction.isOwn : RetryAction → Bool
  | other .. => false
  | _ => true

namespace RetryInput

variable (input : RetryInput)

def failed (s : RetryState) : RetryState :=
  if input.maxAttempts ≤ s.attempt then { s with phase := .finished false }
  else { s with attempt := s.attempt + 1, phase := .loading }

/-- No event of the batch is in the log. -/
def Absent (log : EventLog) : Prop := ∀ e ∈ input.baseEvents, ∀ x ∈ log, x.id ≠ e.id

/-- The events of the batch are in the log once each, one after the other in the run's stream and with
consecutive revisions. -/
def Written (log : EventLog) : Prop :=
  (input.baseEvents.map (·.id)).Nodup ∧ ∃ latestRevision before after,
    log = before ++
      (withRebasedRevisions input.baseEvents latestRevision).map (bindTo input.runId) ++ after ∧
    input.Absent before ∧ input.Absent after

inductive Step (s : RetryState) : RetryAction → RetryState → Prop
  | other {aggregateId : Uuid} {events : List EventEnvelope} {log' : EventLog} :
      append s.log aggregateId events = .ok log' → input.Absent events →
      Step s (.other aggregateId events) { s with log := log' }
  | load {events : List EventEnvelope} : s.phase = .loading →
      load s.log input.runId = .ok events →
      Step s .load { s with phase := .appending (lastRevision events) }
  | loadFails : s.phase = .loading → Step s .loadFails (input.failed s)
  | append {latestRevision : Int} {log' : EventLog} : s.phase = .appending latestRevision →
      append s.log input.runId (withRebasedRevisions input.baseEvents latestRevision) = .ok log' →
      Step s .append { s with log := log', phase := .finished true }
  -- without events there is no transaction that could fail
  | appendFails {latestRevision : Int} : s.phase = .appending latestRevision →
      input.baseEvents ≠ [] → Step s .appendFails (input.failed s)
  | ackLost {latestRevision : Int} {log' : EventLog} : s.phase = .appending latestRevision →
      input.baseEvents ≠ [] →
      append s.log input.runId (withRebasedRevisions input.baseEvents latestRevision) = .ok log' →
      Step s .ackLost (input.failed { s with log := log' })

/-- A call of `append_events_with_retry` for a batch with new ids. -/
def system : System RetryState RetryAction where
  init s := input.Absent s.log ∧ s.attempt = 1 ∧ s.phase = .loading
  step := input.Step

/-- A bound on the steps that the call still takes. -/
def stepsLeft (s : RetryState) : Nat :=
  match s.phase with
  | .loading => 2 * (max 1 input.maxAttempts - s.attempt) + 2
  | .appending _ => 2 * (max 1 input.maxAttempts - s.attempt) + 1
  | .finished _ => 0

end RetryInput

section retry

variable {input : RetryInput} {s s' : RetryState} {a : RetryAction}

@[simp] theorem RetryInput.log_failed : (input.failed s).log = s.log := by
  unfold failed
  split <;> rfl

theorem RetryInput.phase_failed : (input.failed s).phase ≠ .finished true := by
  unfold failed
  split <;> simp

/-! ### What an append does to the batch -/

theorem RetryInput.Absent.append {log rows : EventLog} :
    input.Absent (log ++ rows) ↔ input.Absent log ∧ input.Absent rows := by
  constructor
  · intro h
    exact ⟨fun e he x hx => h e he x (List.mem_append_left _ hx),
      fun e he x hx => h e he x (List.mem_append_right _ hx)⟩
  · rintro ⟨hlog, hrows⟩ e he x hx
    exact (List.mem_append.mp hx).elim (hlog e he x) (hrows e he x)

theorem RetryInput.absent_bindTo {r : Uuid} {events : List EventEnvelope} :
    input.Absent (events.map (bindTo r)) ↔ input.Absent events := by
  simp [Absent, bindTo]

theorem RetryInput.written_of_append {log log' : EventLog} {latestRevision : Int}
    (h : append log input.runId (withRebasedRevisions input.baseEvents latestRevision) = .ok log') :
    input.Absent log ∧ input.Written log' := by
  obtain ⟨rfl, -, hnodup, hfresh⟩ := append_eq_ok.mp h
  rw [map_withRebasedRevisions _ fun _ _ => rfl] at hnodup
  have habsent : input.Absent log := by
    intro e he x hx
    have hids : (withRebasedRevisions input.baseEvents latestRevision).map (·.id) =
        input.baseEvents.map (·.id) := map_withRebasedRevisions _ fun _ _ => rfl
    have hid := List.mem_map_of_mem (f := (·.id)) he
    rw [← hids] at hid
    obtain ⟨y, hy, hye⟩ := List.mem_map.mp hid
    exact hye ▸ hfresh y hy x hx
  exact ⟨habsent, hnodup, latestRevision, log, [], by rw [List.append_nil], habsent,
    fun _ _ _ hx => nomatch hx⟩

theorem RetryInput.Written.not_absent {log : EventLog} (h : input.Written log)
    (hne : input.baseEvents ≠ []) : ¬ input.Absent log := by
  obtain ⟨-, latestRevision, before, after, rfl, -⟩ := h
  obtain ⟨e, rest, hbase⟩ := List.exists_cons_of_ne_nil hne
  intro habsent
  refine habsent e (hbase ▸ List.mem_cons_self)
    (bindTo input.runId { e with revision := latestRevision + 1 }) ?_ rfl
  rw [hbase, withRebasedRevisions_cons]
  simp

theorem RetryInput.Written.append {log rows : EventLog} (h : input.Written log)
    (hrows : input.Absent rows) : input.Written (log ++ rows) := by
  obtain ⟨hnodup, latestRevision, before, after, rfl, hbefore, hafter⟩ := h
  exact ⟨hnodup, latestRevision, before, after ++ rows, by simp only [List.append_assoc], hbefore,
    RetryInput.Absent.append.mpr ⟨hafter, hrows⟩⟩

/-! ### At most once -/

structure RetryInput.Inv (input : RetryInput) (s : RetryState) : Prop where
  whole : input.Absent s.log ∨ input.Written s.log
  acknowledged : s.phase = .finished true → input.Written s.log
  attempt_pos : 1 ≤ s.attempt
  attempt_le : s.attempt ≤ max 1 input.maxAttempts

theorem RetryInput.Inv.failed (h : input.Inv s) : input.Inv (input.failed s) := by
  refine ⟨by rw [log_failed]; exact h.whole, fun hphase => absurd hphase phase_failed, ?_, ?_⟩ <;>
  · have := h.attempt_pos
    have := h.attempt_le
    unfold RetryInput.failed
    split <;> dsimp only <;> omega

theorem RetryInput.Step.inv (hstep : input.Step s a s') (h : input.Inv s) : input.Inv s' := by
  cases hstep with
  | @other aggregateId events log' happ hids =>
    obtain ⟨rfl, -⟩ := append_eq_ok.mp happ
    have hrows : input.Absent (events.map (bindTo aggregateId)) := absent_bindTo.mpr hids
    exact ⟨h.whole.imp (fun hlog => Absent.append.mpr ⟨hlog, hrows⟩) fun hlog => hlog.append hrows,
      fun hphase => (h.acknowledged hphase).append hrows, h.attempt_pos, h.attempt_le⟩
  | load => exact ⟨h.whole, fun hphase => (nomatch hphase), h.attempt_pos, h.attempt_le⟩
  | loadFails | appendFails => exact h.failed
  | append _ happ =>
    have hwritten := (written_of_append happ).2
    exact ⟨Or.inr hwritten, fun _ => hwritten, h.attempt_pos, h.attempt_le⟩
  | @ackLost _ log' _ _ happ =>
    have hwritten := (written_of_append happ).2
    have hlost : input.Inv { s with log := log' } :=
      ⟨Or.inr hwritten, fun _ => hwritten, h.attempt_pos, h.attempt_le⟩
    exact hlost.failed

theorem RetryInput.Step.stepsLeft_lt (hstep : input.Step s a s') (hown : a.isOwn) (h : input.Inv s) :
    input.stepsLeft s' < input.stepsLeft s := by
  have hle := h.attempt_le
  have hfailed : ∀ x : RetryState, x.attempt = s.attempt →
      input.stepsLeft (input.failed x) ≤ 2 * (max 1 input.maxAttempts - s.attempt) := by
    intro x hx
    unfold RetryInput.failed
    split
    · exact Nat.zero_le _
    · simp only [stepsLeft]
      omega
  cases hstep with
  | other => cases hown
  | load hphase => simp only [stepsLeft, hphase]; omega
  | loadFails hphase =>
    refine lt_of_le_of_lt (hfailed s rfl) ?_
    simp only [stepsLeft, hphase]
    omega
  | append hphase => simp only [stepsLeft, hphase]; omega
  | appendFails hphase =>
    refine lt_of_le_of_lt (hfailed s rfl) ?_
    simp only [stepsLeft, hphase]
    omega
  | @ackLost _ log' hphase =>
    refine lt_of_le_of_lt (hfailed { s with log := log' } rfl) ?_
    simp only [stepsLeft, hphase]
    omega

theorem RetryInput.exists_step (hphase : ∀ ok, s.phase ≠ .finished ok) :
    ∃ a s', a.isOwn ∧ input.Step s a s' := by
  cases h : s.phase with
  | loading => exact ⟨.loadFails, _, rfl, .loadFails h⟩
  | appending latestRevision =>
    by_cases hne : input.baseEvents = []
    · have happ : append s.log input.runId
          (withRebasedRevisions input.baseEvents latestRevision) = .ok s.log := by
        rw [hne]
        rfl
      exact ⟨.append, _, rfl, .append h happ⟩
    · exact ⟨.appendFails, _, rfl, .appendFails h hne⟩
  | finished ok => exact absurd h (hphase ok)

/-- In every state the batch is in the log as a whole and once, or not at all, and it is there when the
call has reported success. The call goes through at most `max 1 max_attempts` rounds, with each of its
steps it comes nearer to its end, and it does not stop before. -/
theorem append_at_most_once (h : Reachable input.system s) :
    (input.Absent s.log ∨ input.Written s.log) ∧ (s.phase = .finished true → input.Written s.log) ∧
      s.attempt ≤ max 1 input.maxAttempts ∧
      (∀ a s', a.isOwn → input.Step s a s' → input.stepsLeft s' < input.stepsLeft s) ∧
      ((∀ ok, s.phase ≠ .finished ok) → ∃ a s', a.isOwn ∧ input.Step s a s') := by
  have hinv : input.Inv s := by
    refine h.invariant ?_ fun _ _ _ hinv hstep _ => hstep.inv hinv
    rintro s ⟨habsent, hattempt, hphase⟩
    refine ⟨Or.inl habsent, fun hfinished => ?_, ?_, ?_⟩
    · rw [hphase] at hfinished
      cases hfinished
    · omega
    · omega
  exact ⟨hinv.whole, hinv.acknowledged, hinv.attempt_le,
    fun a s' hown hstep => hstep.stepsLeft_lt hown hinv, RetryInput.exists_step⟩

def sampleRetry : RetryInput := ⟨⟨1⟩, [sampleEvent 10 1], 4⟩

theorem reachable_sampleRetry : Reachable sampleRetry.system ⟨[], 1, .loading⟩ := by
  refine .init ⟨fun e _ x hx => ?_, rfl, rfl⟩
  cases hx

theorem reachable_sampleRetry_appending :
    Reachable sampleRetry.system ⟨[], 1, .appending 0⟩ :=
  .step .load reachable_sampleRetry
    (RetryInput.Step.load (s := ⟨[], 1, .loading⟩) rfl (rfl : load [] ⟨1⟩ = .ok [])) trivial

theorem append_at_most_once_sample : sampleRetry.Written [sampleEvent 10 1] :=
  (append_at_most_once (.step .append reachable_sampleRetry_appending (.append rfl rfl) trivial)).2.1
    rfl

/-! ### What a reported failure means -/

theorem RetryInput.Step.absent_iff (hstep : input.Step s a s') :
    (s'.phase ≠ .finished true → input.Absent s'.log) ↔
      (s.phase ≠ .finished true → input.Absent s.log) ∧ a ≠ .ackLost := by
  cases hstep with
  | @other aggregateId events log' happ hids =>
    obtain ⟨rfl, -⟩ := append_eq_ok.mp happ
    have hrows : input.Absent (events.map (bindTo aggregateId)) := absent_bindTo.mpr hids
    simp [Absent.append, hrows]
  | load hphase => simp [hphase]
  | loadFails hphase => simp [hphase, phase_failed]
  | append hphase happ => simp [(written_of_append happ).1]
  | appendFails hphase => simp [hphase, phase_failed]
  | ackLost hphase hne happ =>
    simp [phase_failed, (written_of_append happ).2.not_absent hne]

/-- When the call has reported a failure, the batch is not in the log exactly if no acknowledgement
was lost. -/
theorem reported_failure_iff (h : Reachable input.system s) (hfailed : s.phase = .finished false) :
    input.Absent s.log ↔ Reach input.system (fun _ a => a ≠ .ackLost) s := by
  have hiff : Reach input.system (fun _ a => a ≠ .ackLost) s ↔
      Reachable input.system s ∧ (s.phase ≠ .finished true → input.Absent s.log) :=
    Reach.iff_of_exact (I := fun s : RetryState => s.phase ≠ .finished true → input.Absent s.log)
      (fun s (hinit : input.Absent s.log ∧ _) _ => hinit.1)
      fun _ _ _ _ hstep => RetryInput.Step.absent_iff hstep
  rw [hiff]
  simp [h, hfailed]

theorem reported_failure_iff_sample :
    sampleRetry.Absent [] ↔ Reach sampleRetry.system (fun _ a => a ≠ .ackLost)
      ⟨[], 4, .finished false⟩ := by
  have h₂ : Reachable sampleRetry.system ⟨[], 2, .loading⟩ :=
    .step _ reachable_sampleRetry (.loadFails rfl) trivial
  have h₃ : Reachable sampleRetry.system ⟨[], 3, .loading⟩ := .step _ h₂ (.loadFails rfl) trivial
  have h₄ : Reachable sampleRetry.system ⟨[], 4, .loading⟩ := .step _ h₃ (.loadFails rfl) trivial
  exact reported_failure_iff (.step _ h₄ (.loadFails rfl) trivial) rfl

/-- The first acknowledgement is lost and the other three rounds find the id taken. -/
theorem not_absent_of_reported_failure :
    ¬ ∀ (input : RetryInput) (s : RetryState), Reachable input.system s →
      s.phase = .finished false → input.Absent s.log := by
  intro hall
  let log : EventLog := [sampleEvent 10 1]
  have hload : load log sampleRetry.runId = .ok log := rfl
  have hack : append [] sampleRetry.runId (withRebasedRevisions sampleRetry.baseEvents 0) = .ok log :=
    rfl
  have h₂ : Reachable sampleRetry.system ⟨log, 2, .loading⟩ :=
    .step .ackLost reachable_sampleRetry_appending
      (.ackLost rfl (List.cons_ne_nil _ _) hack) trivial
  have happend : ∀ k, Reachable sampleRetry.system ⟨log, k, .loading⟩ →
      Reachable sampleRetry.system ⟨log, k, .appending 1⟩ := fun k h =>
    .step .load h (RetryInput.Step.load (s := ⟨log, k, .loading⟩) rfl hload) trivial
  have h₃ : Reachable sampleRetry.system ⟨log, 3, .loading⟩ :=
    .step _ (happend 2 h₂) (.appendFails rfl (List.cons_ne_nil _ _)) trivial
  have h₄ : Reachable sampleRetry.system ⟨log, 4, .loading⟩ :=
    .step _ (happend 3 h₃) (.appendFails rfl (List.cons_ne_nil _ _)) trivial
  have hend : Reachable sampleRetry.system ⟨log, 4, .finished false⟩ :=
    .step _ (happend 4 h₄) (.appendFails rfl (List.cons_ne_nil _ _)) trivial
  exact hall _ _ hend rfl _ List.mem_cons_self _ List.mem_cons_self rfl

end retry

end SamtaDashboard

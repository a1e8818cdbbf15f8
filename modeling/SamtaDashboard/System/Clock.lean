import SamtaDashboard.System.RunLog

/-!
# Histories under a clock that does not run backwards

The operations of a history run one after the other, so a clock that does not run backwards stamps
the events in commit order.
-/

namespace SamtaDashboard

open EventFold Transition

/-- The log is stamped in commit order. -/
def TimeOrdered (log : EventLog) : Prop := log.Pairwise (·.occurredAt ≤ ·.occurredAt)

theorem TimeOrdered.inOrder {log : EventLog} (h : TimeOrdered log) (r : Uuid) : InOrder log r :=
  h.sublist List.filter_sublist

/-- The times of an operation do not run backwards, and not behind the log. -/
def Draws.OnClock (draws : Draws) (log : EventLog) : Prop :=
  (Monotone fun k => (draws.stamp k).now) ∧ ∀ e ∈ log, e.occurredAt ≤ (draws.stamp 0).now

/-- The times of a tick do not run backwards while it visits one run after the other, and not behind
the log. -/
structure TickInput.OnClock (input : TickInput) (log : EventLog) : Prop where
  monotone : ∀ r ∈ input.runOrder, Monotone fun k => (input.stamp r k).now
  visits : input.runOrder.Pairwise fun r r' => ∀ k, (input.stamp r k).now ≤ (input.stamp r' 0).now
  log_le : ∀ r ∈ input.runOrder, ∀ e ∈ log, e.occurredAt ≤ (input.stamp r 0).now

/-- The clock of a history does not run backwards. -/
def Operation.OnClock (log : EventLog) : Operation → Prop
  | .startRun draws .. | .pauseRun draws _ | .resumeRun draws _ | .cancelRun draws _ => draws.OnClock log
  | .retryRun draws .. => draws.OnClock log
  | .tick input _ => input.OnClock log

section stamped

variable {log rows : EventLog} {stamp : Nat → Stamp} {hi : Nat}

theorem TimeOrdered.append (h : TimeOrdered log) (hrows : StampedBy stamp 0 hi rows)
    (hmono : Monotone fun k => (stamp k).now) (hlog : ∀ e ∈ log, e.occurredAt ≤ (stamp 0).now) :
    TimeOrdered (log ++ rows) := by
  refine List.pairwise_append.mpr ⟨h, hrows.sorted hmono, fun e he x hx => ?_⟩
  obtain ⟨k, -, hk⟩ := hrows.exists_stamp hx
  rw [hk]
  exact le_trans (hlog e he) (hmono (Nat.zero_le k))

end stamped

section steps

variable {log log' : EventLog} {draws : Draws} {r : Uuid}

theorem TimeOrdered.newEvents (h : TimeOrdered log) (hclock : draws.OnClock log) (revision : Int)
    (ps : List EventPayload) : TimeOrdered (log ++ newEvents draws r revision ps) :=
  h.append (.newEvents ..) hclock.1 hclock.2

theorem TimeOrdered.control (h : TimeOrdered log) (hwf : WellFormed log)
    (hclock : draws.OnClock log) {decide : List EventEnvelope → Option (List EventPayload)}
    {changed : Bool} (hok : control decide draws log r = .ok (changed, log')) : TimeOrdered log' := by
  obtain ⟨-, -, hdecide⟩ := hwf.gapFree.control_eq_ok.mp hok
  cases hps : decide (stream log r) with
  | none =>
    rw [hps] at hdecide
    rwa [hdecide.2]
  | some ps =>
    rw [hps] at hdecide
    rw [hdecide.2.2]
    exact h.newEvents hclock ..

theorem TimeOrdered.visitRuns (input : TickInput) (runStates : HashMap RunState) {runs : List Uuid}
    (hmono : ∀ r ∈ runs, Monotone fun k => (input.stamp r k).now)
    (hvisits : runs.Pairwise fun r r' => ∀ k, (input.stamp r k).now ≤ (input.stamp r' 0).now)
    {db : Db} (hlog : ∀ r ∈ runs, ∀ e ∈ db.log, e.occurredAt ≤ (input.stamp r 0).now)
    (hgap : GapFree db.log) (h : TimeOrdered db.log) :
    TimeOrdered (runs.foldl (input.visitRun runStates) db).log := by
  induction runs generalizing db with
  | nil => exact h
  | cons r runs ih =>
    obtain ⟨hfirst, hvisits⟩ := List.pairwise_cons.mp hvisits
    have hmono' := fun r' hr' => hmono r' (List.mem_cons_of_mem _ hr')
    rw [List.foldl_cons]
    rcases input.visitRun_cases runStates hgap r with
      heq | ⟨state, state', batch, summary, -, -, hbatch, hadv, heq⟩
    · rw [heq]
      exact ih hmono' hvisits (fun r' hr' => hlog r' (List.mem_cons_of_mem _ hr')) hgap h
    · obtain ⟨⟨hi, hstamped⟩, -⟩ := input.config.advanceRun_stamped (input.stamp r)
        (input.itemOrder r) r state
      rw [hbatch] at hstamped
      have hrows : StampedBy (input.stamp r) 0 hi (appendedRows db.log r batch) :=
        hstamped.appendedRows
      rw [heq]
      refine ih hmono' hvisits (fun r' hr' e he => ?_) ?_ ?_
      · rcases List.mem_append.mp he with he | he
        · exact hlog r' (List.mem_cons_of_mem _ hr') e he
        · obtain ⟨k, -, hk⟩ := hrows.exists_stamp he
          rw [hk]
          exact hfirst r' hr' k
      · exact hgap.append_appendedRows r batch
      · exact h.append hrows (hmono r List.mem_cons_self) (hlog r List.mem_cons_self)

end steps

theorem timeOrdered_of_onClock {log : EventLog} (h : Reach history Operation.OnClock log) :
    TimeOrdered log := by
  refine h.invariant_of (fun log hlog => history_wellFormed hlog.reachable) ?_ ?_
  · rintro log rfl
    exact List.Pairwise.nil
  · intro log operation log' hwf htime hstep hclock
    cases operation with
    | startRun draws workspaceId objective targetItemCount agentCount =>
      obtain ⟨-, -, hlog⟩ := hwf.gapFree.appendNext_eq_ok.mp (startRun_eq_ok.mp hstep.2).2
      rw [hlog]
      exact htime.newEvents hclock ..
    | pauseRun draws r | resumeRun draws r | cancelRun draws r =>
      obtain ⟨changed, hok⟩ := hstep
      exact htime.control hwf hclock hok
    | retryRun draws order r =>
      obtain ⟨-, changed, hok⟩ := hstep
      exact htime.control hwf hclock hok
    | tick input events =>
      obtain ⟨-, -, rfl⟩ := hstep
      exact TimeOrdered.visitRuns input _ hclock.monotone hclock.visits hclock.log_le hwf.gapFree htime

/-! ### Sample operations -/

theorem countingStamp_monotone (base : Nat) : Monotone fun k => (countingStamp base k).now := by
  intro k k' hle
  show ((base + k : Nat) : Int) ≤ ((base + k' : Nat) : Int)
  omega

theorem startedLog_two_onClock : Reach history Operation.OnClock (startedLog 2) :=
  .step (.startRun (.counting sampleRun 100) sampleWorkspace "" (some 2) (some 1)) (.init rfl)
    ⟨⟨rfl, by simp⟩, rfl⟩ ⟨countingStamp_monotone 100, by simp⟩

theorem tickedLog_onClock {log : EventLog} (h : Reach history Operation.OnClock log)
    (executor : AgentExecutor) {base : Nat} (hruns : (runStatesFromEvents log).keys = [sampleRun])
    (hsorted : log.Pairwise timeLe) (hfinite : ∀ e ∈ log, e.payload.costIsFinite = true)
    (hbase : ∀ e ∈ log, e.occurredAt ≤ (countingStamp base 0).now) :
    Reach history Operation.OnClock (tickedLog executor base log) := by
  refine .step (.tick (.ofKeys (sampleWorker executor) (fun _ => countingStamp base) log) log) h
    ⟨loadAll_eq_ok.mpr ⟨⟨.refl _, hsorted⟩, hfinite⟩, TickInput.ofKeys_orders _ _ _, rfl⟩ ?_
  have hvisits : (runStatesFromEvents log).keys.Pairwise fun _ _ =>
      ∀ k, (countingStamp base k).now ≤ (countingStamp base 0).now := by
    rw [hruns]
    exact List.pairwise_singleton ..
  exact ⟨fun _ _ => countingStamp_monotone base, hvisits, fun _ _ => hbase⟩

end SamtaDashboard

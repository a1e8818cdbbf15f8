import SamtaDashboard.System.RunLog
import SamtaDashboard.System.Schedule

/-!
# The two read paths

`load` orders a stream by revision, `load_all` orders the log by time. With one clock for all
processes a control operation cannot bring the two out of step: it stamps its events after it has
read the revision that they are appended at. A worker can, because it stamps a batch when it executes
it and takes the revision when it appends it. The two paths agree in exactly those reachable states
that are reached without a batch that comes late (`readPaths_agree_iff`).
-/

namespace SamtaDashboard

open EventFold Transition

/-- The events of `load_all` on resource `r` are the events of `load`, in the same order. -/
def ReadPathsAgree (log : EventLog) (r : Uuid) : Prop :=
  ∀ events, LoadAll log (.ok events) → load log r = .ok (events.filter (·.resourceId = r))

/-- No event of the stream is stamped later than an event of a batch that a worker appends. -/
def OnTime (s : World) (a : Action) : Prop :=
  ∀ x ∈ s.batchOf a, ∀ e ∈ stream s.log x.2.1, ∀ b ∈ x.2.2, e.occurredAt ≤ b.occurredAt

instance (s : World) (a : Action) : Decidable (OnTime s a) :=
  inferInstanceAs (Decidable (∀ x ∈ s.batchOf a, _))

/-! ### Agreement is order in time -/

section order

variable {log : EventLog} {r : Uuid}

theorem InOrder.readPathsAgree (h : InOrder log r) (hgap : GapFree log) : ReadPathsAgree log r := by
  intro events hload
  obtain ⟨horder, hfinite⟩ := loadAll_eq_ok.mp hload
  rw [horder.filter_eq_stream (hgap r) h, hgap.load_eq_ok]
  exact ⟨rfl, fun e he => hfinite e (mem_stream.mp he).1⟩

theorem timeLe.occurredAt_le {a b : EventEnvelope} (h : timeLe a b) :
    a.occurredAt ≤ b.occurredAt :=
  h.elim le_of_lt fun h => le_of_eq h.1

theorem ReadPathsAgree.inOrder (h : ReadPathsAgree log r) (hgap : GapFree log)
    (hfinite : ∀ e ∈ log, e.payload.costIsFinite = true) : InOrder log r := by
  have horder := inTimeOrder_insertionSort log
  have hload := h _ (loadAll_eq_ok.mpr ⟨horder, hfinite⟩)
  have hstream := (hgap.load_eq_ok.mp hload).1
  rw [InOrder, ← hstream]
  exact (horder.sorted.sublist List.filter_sublist).imp timeLe.occurredAt_le

end order

/-! ### What the steps do to the order -/

section steps

variable {d : Deployment} {s s' : World} {a : Action}

theorem inOrder_append {log rows : EventLog} {r : Uuid} (hrows : ∀ e ∈ rows, e.resourceId = r)
    (hsorted : rows.Pairwise (·.occurredAt ≤ ·.occurredAt)) :
    (∀ r', InOrder (log ++ rows) r') ↔ (∀ r', InOrder log r') ∧
      ∀ e ∈ stream log r, ∀ b ∈ rows, e.occurredAt ≤ b.occurredAt := by
  unfold InOrder
  constructor
  · intro h
    refine ⟨fun r' => (show InOrder (log ++ rows) r' from h r').of_append, ?_⟩
    have hr := h r
    rw [stream_append, stream_rows hrows, if_pos rfl, List.pairwise_append] at hr
    exact hr.2.2
  · rintro ⟨h, hlate⟩ r'
    rw [stream_append, stream_rows hrows]
    split
    · subst r'
      exact List.pairwise_append.mpr ⟨h r, hsorted, hlate⟩
    · rw [List.append_nil]
      exact h r'

theorem Commit.inOrder_iff (h : Commit d s a s') (hclock : d.OneClock) :
    (∀ r, InOrder s'.log r) ↔ (∀ r, InOrder s.log r) ∧ OnTime s a := by
  cases h with
  | nothing hbatch hlog => simp [hlog, OnTime, hbatch]
  | @request k request draws seen rows ha h =>
    subst ha
    rw [h.appended.log_eq, inOrder_append h.appended.run (h.stamped.sorted (hclock.monotone _))]
    refine and_congr_right fun _ => iff_of_true (fun e he b hb => ?_) (by simp [OnTime, World.batchOf])
    rw [h.unchanged] at he
    exact hclock.le_of_stamps (h.past.sound.stamped e (mem_stream.mp he).1) h.stamped hb
  | @batch w snapshot r batch rows hbatch h =>
    rw [h.appended.log_eq, inOrder_append h.appended.run (h.stamped.sorted (hclock.monotone _))]
    have hrows : ∀ t : Time, (∀ b ∈ rows, t ≤ b.occurredAt) ↔ ∀ b ∈ batch, t ≤ b.occurredAt := by
      intro t
      have htimes : (∀ u ∈ rows.map (·.occurredAt), t ≤ u) ↔
          ∀ u ∈ batch.map (·.occurredAt), t ≤ u := by rw [h.times]
      simpa using htimes
    simp only [OnTime, hbatch, Option.mem_some_iff, forall_eq', hrows]

theorem reach_onTime_iff (hclock : d.OneClock) :
    Reach (interleaving d) OnTime s ↔
      Reachable (interleaving d) s ∧ ∀ r, InOrder s.log r := by
  refine Reach.iff_of_exact (I := fun s : World => ∀ r, InOrder s.log r) ?_ ?_
  · rintro s rfl r
    exact List.Pairwise.nil
  · exact fun s a s' hreach hstep =>
      (hstep.commit (World.Inv.of_reach hreach)).inOrder_iff hclock

end steps

/-! ### The read paths -/

/-- With one clock the two read paths agree on all streams when no worker's batch has come late; of a
log that can be read they agree only then. -/
theorem readPaths_agree_iff {d : Deployment} (hclock : d.OneClock) {s : World}
    (h : Reachable (interleaving d) s) :
    (Reach (interleaving d) OnTime s → ∀ r, ReadPathsAgree s.log r) ∧
      ((∀ e ∈ s.log, e.payload.costIsFinite = true) → (∀ r, ReadPathsAgree s.log r) →
        Reach (interleaving d) OnTime s) := by
  have hgap := (World.Inv.of_reach h).sound.wellFormed.gapFree
  refine ⟨fun honTime r => ?_, fun hfinite hagree => (reach_onTime_iff hclock).mpr ⟨h, fun r => ?_⟩⟩
  · exact (((reach_onTime_iff hclock).mp honTime).2 r).readPathsAgree hgap
  · exact (hagree r).inOrder hgap hfinite

theorem readPaths_agree_prompt : ReadPathsAgree (logAfterActions promptActions) sampleRun :=
  (readPaths_agree_iff sampleDeployment_oneClock
    (World.reach_after (.init rfl)
      (by decide : World.init.Enabled sampleDeployment _ promptActions))).1
      (World.reach_after (.init rfl) (by decide)) sampleRun

/-- A batch that comes late is read in another order by `load_all`. -/
theorem readPaths_disagree : sampleDeployment.OneClock ∧
    Reachable (interleaving sampleDeployment) (World.init.after sampleDeployment lateActions) ∧
    ¬ ReadPathsAgree (logAfterActions lateActions) sampleRun := by
  refine ⟨sampleDeployment_oneClock, lateActions_reachable, fun h => ?_⟩
  have hgap := (World.Inv.of_reach lateActions_reachable).sound.wellFormed.gapFree
  exact absurd (h.inOrder hgap (by decide)) (by decide)

end SamtaDashboard

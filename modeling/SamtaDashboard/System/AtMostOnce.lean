import SamtaDashboard.Lib.Tokens
import SamtaDashboard.System.Schedule

/-!
# How often an item is completed

A worker takes an item for assigned on its snapshot and appends the completion later, whatever other
workers have appended in between. Two workers that read the log before either has appended both
complete the item. If no completion of an item is overtaken by another one, every completion has an
assignment of its own: the one that the worker has read (`completions_le_assignments`).
-/

namespace SamtaDashboard

open EventFold Transition Tokens

/-- How many events complete item `i`. -/
def completions (log : EventLog) (i : Uuid) : Nat := log.countP (·.payload.completes i)

/-- How many events assign item `i`. -/
def assignments (log : EventLog) (i : Uuid) : Nat := log.countP (·.payload.assigns i)

/-- When a worker appends the completion of an item, the item has not been completed since the
worker's `load_all`. -/
def FirstToComplete (s : World) (a : Action) : Prop :=
  ∀ x ∈ s.batchOf a, ∀ p ∈ payloads x.2.2, ∀ i ∈ p.itemId?, p.completes i →
    completions s.log i = completions x.1.log i

instance (s : World) (a : Action) : Decidable (FirstToComplete s a) :=
  inferInstanceAs (Decidable (∀ x ∈ s.batchOf a, _))

theorem itemId?_of_completes {p : EventPayload} {i : Uuid} (h : p.completes i) :
    p.itemId? = some i := by
  cases p <;> simp_all [EventPayload.completes, EventPayload.itemId?]

/-! ### The completions of a batch -/

section batch

variable {worker : Worker} {r i : Uuid}

theorem countP_completes_outcome (itemId : Uuid) (outcome : Outcome) :
    (outcome.payloads worker r itemId).countP (·.completes i) =
      if itemId = i ∧ outcome.succeeded then 1 else 0 := by
  unfold Outcome.payloads Outcome.succeeded
  split
  · simp [EventPayload.completes]
  · split <;> simp_all [EventPayload.completes, List.countP_cons]

theorem countP_completes_executed {executed : List (Uuid × Outcome)}
    (hnodup : (executed.map (·.1)).Nodup) :
    (executedPayloads worker r executed).countP (·.completes i) = 0 ∨
      (executedPayloads worker r executed).countP (·.completes i) = 1 ∧
        ∃ x ∈ executed, x.1 = i := by
  induction executed with
  | nil => exact Or.inl rfl
  | cons x executed ih =>
    rw [List.map_cons, List.nodup_cons] at hnodup
    rw [executedPayloads_cons, List.countP_append, countP_completes_outcome]
    rcases ih hnodup.2 with hzero | ⟨hone, y, hy, hyi⟩
    · rw [hzero, Nat.add_zero]
      split
      · next h => exact Or.inr ⟨rfl, x, List.mem_cons_self, h.1⟩
      · exact Or.inl rfl
    · have hne : x.1 ≠ i := fun heq => hnodup.1 (heq ▸ hyi ▸ List.mem_map_of_mem hy)
      rw [hone, if_neg fun h => hne h.1]
      exact Or.inr ⟨rfl, y, List.mem_cons_of_mem _ hy, hyi⟩

end batch

section commit

variable {d : Deployment} {m : Moment} {s s' : World} {a : Action}

theorem Prepared.countP_completes {w : Nat} {snapshot : Snapshot} {r : Uuid}
    {batch : List EventEnvelope} (h : Prepared d m w snapshot r batch) (i : Uuid) :
    (payloads batch).countP (·.completes i) = 0 ∨
      (payloads batch).countP (·.completes i) = 1 ∧
        lastWrite (EventPayload.itemStatus? i) (payloads (runEvents snapshot.events r)) =
          some .assigned := by
  obtain ⟨executor, state, state', executed, summary, hstate, hadv⟩ := h.advanced
  have hsummary : (summary.toList.map (EventPayload.runCompleted r)).countP (·.completes i) = 0 := by
    cases summary <;> rfl
  rw [hadv.payloads, List.countP_append, hsummary, Nat.add_zero]
  refine (countP_completes_executed hadv.nodup).imp id fun ⟨hone, x, hx, hxi⟩ => ⟨hone, ?_⟩
  obtain ⟨item, hitem, heligible⟩ := hadv.eligible x hx
  rw [hxi, lookup_items_replayRun hstate] at hitem
  obtain ⟨status, hstatus, rfl⟩ := Option.map_eq_some_iff.mp hitem
  rw [hstatus]
  exact congrArg some (LoopConfig.eligible_iff.mp heligible).1

/-- The assignment that a worker has read comes after all completions in its snapshot. -/
theorem Snapshot.Inv.exists_assignment {snapshot : Snapshot} {r i : Uuid} (h : snapshot.Inv d m)
    (hassigned : lastWrite (EventPayload.itemStatus? i) (payloads (runEvents snapshot.events r)) =
      some .assigned) :
    ∃ t ∈ stream snapshot.log r, t.payload.assigns i ∧
      ∀ x ∈ snapshot.log, x.payload.completes i → ¬ timeLe t x := by
  have hwf := h.past.sound.wellFormed
  obtain ⟨t, ht, hwrite, hbefore⟩ := h.exists_lastWrite hassigned
  have hassigns : t.payload.assigns i := by
    cases hp : t.payload <;> simp_all [EventPayload.itemStatus?, EventPayload.assigns]
  obtain ⟨htlog, htres⟩ := mem_stream.mp ht
  refine ⟨t, ht, hassigns, fun x hx hcompletes hle => ?_⟩
  have hxstream : x ∈ stream snapshot.log r := by
    refine mem_stream.mpr ⟨hx, ?_⟩
    rw [← htres]
    exact hwf.separate x hx t htlog i (itemId?_of_completes hcompletes) (itemId?_of_assigns hassigns)
  have hge : timeLe x t := by
    refine hbefore x hxstream ?_ ?_
    · rw [runIdForEvent]
      cases hp : x.payload <;> simp_all [EventPayload.completes, EventPayload.runId?]
    · cases hp : x.payload <;> simp_all [EventPayload.completes, EventPayload.itemStatus?]
  obtain rfl := (hwf.gapFree r).eq_of_timeLe ht hxstream hle hge
  rw [EventPayload.completes_of_assigns hassigns] at hcompletes
  cases hcompletes

/-! ### The account of an item -/

/-- Every completion of item `i` has an assignment of its own that comes before it. -/
def Accounted (log : EventLog) (i : Uuid) : Prop :=
  ∃ spent, Accounts (·.payload.assigns i) (·.payload.completes i) timeLe log spent

theorem completions_append (log rows : EventLog) (i : Uuid) :
    completions (log ++ rows) i = completions log i + (payloads rows).countP (·.completes i) := by
  rw [completions, completions, List.countP_append, payloads, List.countP_map]
  rfl

theorem completions_mono {log log' : EventLog} (h : log <+: log') (i : Uuid) :
    completions log i ≤ completions log' i :=
  h.sublist.countP_le

theorem mem_of_completes {log log' : EventLog} {i : Uuid} (h : log <+: log')
    (heq : completions log' i = completions log i) {x : EventEnvelope} (hx : x ∈ log')
    (hcompletes : x.payload.completes i) : x ∈ log := by
  obtain ⟨rows, rfl⟩ := h
  rw [completions_append, Nat.add_eq_left, payloads, List.countP_map, List.countP_eq_zero] at heq
  exact (List.mem_append.mp hx).resolve_right fun hrow => heq x hrow hcompletes

theorem BatchCommit.accounted {w : Nat} {snapshot : Snapshot} {r i : Uuid}
    {batch rows : List EventEnvelope} (h : BatchCommit d s s' w snapshot r batch rows)
    (hclock : d.OneClock)
    (hfirst : (SamtaDashboard.payloads batch).countP (·.completes i) = 1 →
      completions s.log i = completions snapshot.log i)
    (haccounted : Accounted s.log i) : Accounted s'.log i := by
  obtain ⟨spent, haccount⟩ := haccounted
  have hrows : rows.countP (·.payload.completes i) =
      (SamtaDashboard.payloads batch).countP (·.completes i) := by
    rw [← h.payloads, SamtaDashboard.payloads, List.countP_map]
    rfl
  rw [h.appended.log_eq]
  rcases h.prepared.countP_completes i with hzero | ⟨hone, hassigned⟩
  · exact ⟨spent, haccount.append (hrows.trans hzero)⟩
  · obtain ⟨t, ht, hassigns, hlatest⟩ := h.read.exists_assignment hassigned
    obtain ⟨hlog, hres⟩ := mem_stream.mp ht
    have hread : snapshot.log <+: s.log := h.read.past.later.2
    obtain ⟨u, hu, hcompletes⟩ := List.countP_pos_iff.mp (hrows.trans hone ▸ Nat.one_pos)
    refine ⟨t :: spent, haccount.spend (hread.subset hlog) hassigns (fun x hx hxcompletes => ?_) hu
      hcompletes ?_ (hrows.trans hone)⟩
    · exact hlatest x (mem_of_completes hread (hfirst hone) hx hxcompletes) hxcompletes
    · -- the assignment is stamped before the worker reads it, the completion afterwards
      refine timeLe_of_lt (hclock.le_of_stamps (h.read.past.sound.stamped t hlog) h.stamped hu) ?_
      have htrevision := ((h.read.past.sound.wellFormed.gapFree r).revision_mem ht).2
      have hurevision := (h.appended.consecutive.revision_mem hu).1
      have hlength := (stream_mono hread r).length_le
      omega

theorem RequestCommit.completions_eq {k : Nat} {request : Request} {draws : Draws} {seen : Moment}
    {rows : List EventEnvelope} (h : RequestCommit d s s' k request draws seen rows) (i : Uuid) :
    (payloads rows).countP (·.completes i) = 0 := by
  refine List.countP_eq_zero.mpr fun p hp hcompletes => ?_
  have hexec := EventPayload.isExecution_of_isOrchestrated (h.decided.orchestrated p hp)
  rw [EventPayload.isExecution_of_completes hcompletes] at hexec
  cases hexec

theorem Commit.accounted (h : Commit d s a s') (hclock : d.OneClock) (hfirst : FirstToComplete s a)
    {i : Uuid} (haccounted : Accounted s.log i) : Accounted s'.log i := by
  cases h with
  | nothing _ hlog => rwa [hlog]
  | request _ h =>
    obtain ⟨spent, haccount⟩ := haccounted
    rw [h.appended.log_eq]
    refine ⟨spent, haccount.append ?_⟩
    rw [← h.completions_eq i, payloads, List.countP_map]
    rfl
  | batch hbatch h =>
    refine h.accounted hclock (fun hone => ?_) haccounted
    obtain ⟨p, hp, hcompletes⟩ := List.countP_pos_iff.mp (hone ▸ Nat.one_pos)
    exact hfirst _ hbatch p hp i (itemId?_of_completes hcompletes) hcompletes

theorem Commit.firstToComplete (h : Commit d s a s')
    (honce : ∀ i, completions s'.log i ≤ 1) : FirstToComplete s a := by
  intro x hx p hp i hi hcompletes
  cases h with
  | nothing hbatch _ => rw [hbatch] at hx; cases hx
  | request ha _ => subst ha; cases hx
  | @batch w snapshot r events rows hbatch h =>
    obtain rfl := Option.some.inj (hbatch.symm.trans hx)
    have hnew : 0 < (payloads events).countP (·.completes i) :=
      List.countP_pos_iff.mpr ⟨p, hp, hcompletes⟩
    have hle := honce i
    rw [h.appended.log_eq, completions_append, h.payloads] at hle
    have hread : completions snapshot.log i ≤ completions s.log i :=
      completions_mono h.read.past.later.2 i
    show completions s.log i = completions snapshot.log i
    omega

end commit

/-! ### At most once -/

theorem accounted_of_reach {d : Deployment} (hclock : d.OneClock) {s : World}
    (h : Reach (interleaving d) FirstToComplete s) (i : Uuid) : Accounted s.log i :=
  log_invariant (I := fun log => Accounted log i) h ⟨[], .nil⟩
    fun _ _ _ _ haccounted hfirst hcommit => hcommit.accounted hclock hfirst haccounted

/-- With one clock an item is completed at most as often as it is assigned when every completion is
the first since the snapshot that it was decided on; items that are completed only once are in every
run. -/
theorem completions_le_assignments {d : Deployment} (hclock : d.OneClock) {s : World} :
    (Reach (interleaving d) FirstToComplete s → ∀ i, completions s.log i ≤ assignments s.log i) ∧
      (Reachable (interleaving d) s → (∀ i, completions s.log i ≤ 1) →
        Reach (interleaving d) FirstToComplete s) := by
  refine ⟨fun h i => ?_, fun h honce => ?_⟩
  · obtain ⟨spent, haccount⟩ := accounted_of_reach hclock h i
    exact haccount.countP_le
  · refine h.of_necessary (I := fun s : World => ∀ i, completions s.log i ≤ 1) honce ?_
    intro s a s' hreach hstep honce
    have hinv := World.Inv.of_reach hreach
    exact ⟨fun i => (completions_mono (hstep.log_mono hinv) i).trans (honce i),
      (hstep.commit hinv).firstToComplete honce⟩

theorem completions_le_assignments_prompt : completions (logAfterActions promptActions) ⟨10⟩ ≤
    assignments (logAfterActions promptActions) ⟨10⟩ :=
  (completions_le_assignments sampleDeployment_oneClock).1
    (World.reach_after (.init rfl) (by decide)) ⟨10⟩

/-- Two workers read the log before either appends. -/
def rivalActions : List Action :=
  startActions ++ executeActions 0 ++ executeActions 1 ++ appendActions 0 ++ appendActions 1

theorem completions_gt_assignments : sampleDeployment.OneClock ∧
    (∀ w, (sampleDeployment.worker w).itemAffinity = false) ∧
    Reachable (interleaving sampleDeployment) (World.init.after sampleDeployment rivalActions) ∧
    assignments (logAfterActions rivalActions) ⟨10⟩ < completions (logAfterActions rivalActions) ⟨10⟩ :=
  ⟨sampleDeployment_oneClock, fun _ => rfl, World.reach_after (.init rfl) (by decide),
    by decide⟩

end SamtaDashboard

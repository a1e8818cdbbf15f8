import SamtaDashboard.System.AtMostOnce
import SamtaDashboard.System.Fence

/-!
# When a run is completed

A worker decides on its snapshot that all items are completed and appends `RunCompleted` behind
whatever has been appended since. What others have appended can contradict it: another completion of
the run, or an event that leaves an item in another state. It can also have misread the run, if
`load_all` gave the run's events in another order than that of their revisions. Among the runs without
such a reading the completions are sound exactly if none of them was contradicted
(`completionsSound_iff`).
-/

namespace SamtaDashboard

open EventFold Transition

namespace EventPayload

def isRunCompleted : EventPayload → Bool
  | runCompleted .. => true
  | _ => false

/-- A completion of the run stands until the status is changed. -/
def completion? : EventPayload → Option Bool
  | runCompleted .. => some true
  | runStatusChanged .. => some false
  | _ => none

end EventPayload

/-- Every item that is assigned is completed by the last event of its execution. -/
def AllCompleted (ps : List EventPayload) : Prop :=
  ∀ i, (∃ q ∈ ps, q.assigns i) → lastWrite (EventPayload.itemStatus? i) ps = some .completed

/-- At every completion of the run all items are completed, and between two completions the status is
changed. -/
structure CompletionsSound (ps : List EventPayload) : Prop where
  sound : ∀ pre p post, ps = pre ++ p :: post → p.isRunCompleted → AllCompleted pre
  unique : ∀ pre p mid q post, ps = pre ++ p :: (mid ++ q :: post) → p.isRunCompleted →
    q.isRunCompleted → ∃ x ∈ mid, x.statusChange? ≠ none

section payloads

variable {ps qs : List EventPayload} {p : EventPayload}

theorem CompletionsSound.nil : CompletionsSound [] where
  sound := by simp
  unique := by simp

theorem completion_eq_false_iff {p : EventPayload} :
    p.completion? = some false ↔ p.statusChange? ≠ none := by
  cases p <;> simp [EventPayload.completion?, EventPayload.statusChange?]

theorem lastWrite_completion_iff : lastWrite EventPayload.completion? ps = some true ↔
    ∃ pre p mid, ps = pre ++ p :: mid ∧ p.isRunCompleted ∧ ∀ x ∈ mid, x.statusChange? = none := by
  constructor
  · intro h
    obtain ⟨pre, p, mid, hcut, hp, hmid⟩ := lastWrite_eq_some.mp h
    refine ⟨pre, p, mid, hcut, ?_, fun x hx => ?_⟩
    · cases p <;> simp_all [EventPayload.completion?, EventPayload.isRunCompleted]
    · have hnone := hmid x hx
      cases x <;> simp_all [EventPayload.completion?, EventPayload.statusChange?]
  · rintro ⟨pre, p, mid, rfl, hp, hmid⟩
    have hwrite : p.completion? = some true := by
      cases p <;> simp_all [EventPayload.completion?, EventPayload.isRunCompleted]
    rw [lastWrite_append, lastWrite_cons, hwrite]
    cases hlast : lastWrite EventPayload.completion? mid with
    | none => rfl
    | some b =>
      obtain ⟨x, hx, hb⟩ := lastWrite_mem hlast
      cases b with
      | true => rfl
      | false => exact absurd (hmid x hx) (completion_eq_false_iff.mp hb)

theorem completionsSound_append_singleton : CompletionsSound (ps ++ [p]) ↔ CompletionsSound ps ∧
    (p.isRunCompleted → AllCompleted ps ∧ lastWrite EventPayload.completion? ps ≠ some true) := by
  constructor
  · refine fun h => ⟨⟨fun pre q post hcut => ?_, fun pre q mid q' post hcut => ?_⟩,
      fun hp => ⟨h.sound ps p [] rfl hp, fun hstands => ?_⟩⟩
    · exact h.sound pre q (post ++ [p]) (by simp [hcut])
    · exact h.unique pre q mid q' (post ++ [p]) (by simp [hcut])
    · obtain ⟨pre, q, mid, rfl, hq, hmid⟩ := lastWrite_completion_iff.mp hstands
      obtain ⟨x, hx, hchange⟩ := h.unique pre q mid p [] (by simp) hq hp
      exact hchange (hmid x hx)
  · rintro ⟨h, hp⟩
    constructor
    · intro pre q post hcut hq
      cases post using List.reverseRecOn with
      | nil =>
        obtain ⟨rfl, heq⟩ := List.append_inj' hcut rfl
        obtain rfl : p = q := by simpa using heq
        exact (hp hq).1
      | append_singleton post last _ =>
        have hcut' : ps ++ [p] = (pre ++ q :: post) ++ [last] := by simpa using hcut
        exact h.sound pre q post (List.append_inj' hcut' rfl).1 hq
    · intro pre q mid q' post hcut hq hq'
      cases post using List.reverseRecOn with
      | nil =>
        have hcut' : ps ++ [p] = (pre ++ q :: mid) ++ [q'] := by simpa using hcut
        obtain ⟨rfl, heq⟩ := List.append_inj' hcut' rfl
        obtain rfl : p = q' := by simpa using heq
        by_contra hnone
        refine (hp hq').2 (lastWrite_completion_iff.mpr ⟨pre, q, mid, rfl, hq, fun x hx => ?_⟩)
        by_contra hx'
        exact hnone ⟨x, hx, hx'⟩
      | append_singleton post last _ =>
        have hcut' : ps ++ [p] = (pre ++ q :: (mid ++ q' :: post)) ++ [last] := by simpa using hcut
        exact h.unique pre q mid q' post (List.append_inj' hcut' rfl).1 hq hq'

theorem completionsSound_append_quiet (hqs : ∀ q ∈ qs, q.isRunCompleted = false) :
    CompletionsSound (ps ++ qs) ↔ CompletionsSound ps := by
  induction qs using List.reverseRecOn with
  | nil => rw [List.append_nil]
  | append_singleton qs q ih =>
    rw [List.forall_mem_append, List.forall_mem_singleton] at hqs
    rw [← List.append_assoc, completionsSound_append_singleton, ih hqs.1]
    simp [hqs.2]

theorem completionsSound_append_completion (hqs : ∀ q ∈ qs, q.isRunCompleted = false)
    (hp : p.isRunCompleted) : CompletionsSound (ps ++ (qs ++ [p])) ↔
      CompletionsSound ps ∧ AllCompleted (ps ++ qs) ∧
        lastWrite EventPayload.completion? (ps ++ qs) ≠ some true := by
  rw [← List.append_assoc, completionsSound_append_singleton, completionsSound_append_quiet hqs]
  simp only [hp, true_imp_iff]

theorem not_running_of_completion (hstarted : ∀ q ∈ ps.tail, q.isRunStarted = false)
    (h : lastWrite EventPayload.completion? ps = some true) :
    lastWrite EventPayload.workerStatus? ps ≠ some "running" := by
  obtain ⟨pre, p, mid, rfl, hp, hmid⟩ := lastWrite_completion_iff.mp h
  have hcompleted : p.workerStatus? = some "completed" := by
    cases p <;> simp_all [EventPayload.isRunCompleted, EventPayload.workerStatus?,
      EventPayload.orchestratorStatus?]
  rw [lastWrite_append, lastWrite_cons, hcompleted]
  cases hlast : lastWrite EventPayload.workerStatus? mid with
  | none => simp
  | some status =>
    rw [Option.some_or, Option.some_or]
    rintro ⟨rfl⟩
    obtain ⟨x, hx, hrunning⟩ := lastWrite_mem hlast
    obtain ⟨-, -, hkind⟩ := of_workerStatus_running hrunning
    rcases hkind with hkind | hkind
    · have htail : x ∈ (pre ++ p :: mid).tail := by
        cases pre <;> simp [hx]
      rw [hstarted x htail] at hkind
      cases hkind
    · exact hkind (hmid x hx)

/-- Behind a worker's snapshot and what has come since, a batch that leaves no item of the snapshot
incomplete leaves all items completed, unless an item that it does not execute has been left in another
state since. -/
theorem allCompleted_append_iff {seen since batch : List EventPayload}
    (hassigned : ∀ q ∈ seen ++ since, ∀ i, q.itemId? = some i →
      ∃ x ∈ seen ++ since, x.assigns i)
    (hquiet : ∀ q ∈ batch, ∀ i, q.assigns i = false)
    (hdone : ∀ i status, (lastWrite (EventPayload.itemStatus? i) batch).or
      (lastWrite (EventPayload.itemStatus? i) seen) = some status → status = .completed) :
    AllCompleted (seen ++ since ++ batch) ↔ ∀ q ∈ since, ∀ i ∈ q.itemId?,
      lastWrite (EventPayload.itemStatus? i) batch = none →
        ∀ status ∈ lastWrite (EventPayload.itemStatus? i) since, status = .completed := by
  constructor
  · intro h q hq i hi hnone status hstatus
    obtain ⟨x, hx, hassigns⟩ := hassigned q (List.mem_append_right _ hq) i hi
    have hlast := h i ⟨x, List.mem_append_left _ hx, hassigns⟩
    rw [lastWrite_append, lastWrite_append, hnone, Option.none_or, Option.mem_def.mp hstatus,
      Option.some_or] at hlast
    exact Option.some.inj hlast
  · rintro h i ⟨q, hq, hassigns⟩
    have hwrites : q.itemStatus? i ≠ none := by
      cases q <;> simp_all [EventPayload.assigns, EventPayload.itemStatus?]
    have hmem : q ∈ seen ++ since := by
      rcases List.mem_append.mp hq with hq | hq
      · exact hq
      · rw [hquiet q hq i] at hassigns
        cases hassigns
    have hdone := hdone i
    rw [lastWrite_append, lastWrite_append]
    cases hbatch : lastWrite (EventPayload.itemStatus? i) batch with
    | some status =>
      rw [hbatch] at hdone
      rw [Option.some_or, hdone status rfl]
    | none =>
      rw [hbatch, Option.none_or] at hdone
      rw [Option.none_or]
      cases hsince : lastWrite (EventPayload.itemStatus? i) since with
      | some status =>
        obtain ⟨x, hx, hwrite⟩ := lastWrite_mem hsince
        have hitem : x.itemId? = some i :=
          EventPayload.itemId?_of_itemStatus? (by rw [hwrite]; exact Option.some_ne_none _)
        rw [Option.some_or, h x hx i hitem hbatch status hsince]
      | none =>
        rw [Option.none_or]
        cases hseen : lastWrite (EventPayload.itemStatus? i) seen with
        | some status => rw [hdone status hseen]
        | none =>
          rcases List.mem_append.mp hmem with hq | hq
          · exact absurd (lastWrite_eq_none.mp hseen q hq) hwrites
          · exact absurd (lastWrite_eq_none.mp hsince q hq) hwrites

end payloads

/-! ### What a worker has read -/

/-- A worker that appends a completion has read the events of the run in the order of their
revisions. -/
def ReadInOrder (s : World) (a : Action) : Prop :=
  ∀ x ∈ s.batchOf a, (∃ p ∈ payloads x.2.2, p.isRunCompleted) →
    (x.1.events.filter (·.resourceId = x.2.1)).Pairwise (·.revision < ·.revision)

/-- What has come since a worker's `load_all` is not opposed to a batch that completes the run: it
leaves no other completion standing, and no item that the worker has not executed incomplete. -/
def NotOpposed (since batch : List EventPayload) : Prop :=
  lastWrite EventPayload.completion? since ≠ some true ∧ ∀ q ∈ since, ∀ i ∈ q.itemId?,
    lastWrite (EventPayload.itemStatus? i) batch = none →
      ∀ status ∈ lastWrite (EventPayload.itemStatus? i) since, status = .completed

/-- The completions that a worker appends are not opposed. -/
def Unopposed (s : World) (a : Action) : Prop :=
  ∀ x ∈ s.batchOf a, (∃ p ∈ payloads x.2.2, p.isRunCompleted) →
    NotOpposed (payloads (s.since x)) (payloads x.2.2)

instance (since batch : List EventPayload) : Decidable (NotOpposed since batch) :=
  inferInstanceAs (Decidable (_ ∧ _))

instance (s : World) (a : Action) : Decidable (ReadInOrder s a) :=
  inferInstanceAs (Decidable (∀ x ∈ s.batchOf a, _))

instance (s : World) (a : Action) : Decidable (Unopposed s a) :=
  inferInstanceAs (Decidable (∀ x ∈ s.batchOf a, _))

section snapshot

variable {d : Deployment} {m : Moment} {snapshot : Snapshot} {r : Uuid}

theorem Snapshot.Inv.filter_eq_stream (h : snapshot.Inv d m)
    (hread : (snapshot.events.filter (·.resourceId = r)).Pairwise (·.revision < ·.revision)) :
    snapshot.events.filter (·.resourceId = r) = stream snapshot.log r := by
  refine (h.order.perm.filter _).eq_of_pairwise (fun a b _ _ hab hba => ?_) hread
    (h.past.sound.wellFormed.gapFree r).pairwise
  omega

theorem Snapshot.Inv.lastWrite_stream (h : snapshot.Inv d m)
    (hread : (snapshot.events.filter (·.resourceId = r)).Pairwise (·.revision < ·.revision))
    {V : Type} {w : EventPayload → Option V}
    (hw : ∀ e : EventEnvelope, w e.payload ≠ none → runIdForEvent e ≠ none) :
    lastWrite w (payloads (runEvents snapshot.events r)) =
      lastWrite w (payloads (stream snapshot.log r)) := by
  have hwf := h.past.sound.wellFormed
  have hevents : runEvents snapshot.events r =
      (stream snapshot.log r).filter (runIdForEvent · = some r) := by
    rw [← h.filter_eq_stream hread, List.filter_filter]
    refine List.filter_congr fun e he => ?_
    by_cases hrun : runIdForEvent e = some r
    · simp [hrun, hwf.resourceId_eq (h.mem he) hrun]
    · simp [hrun]
  rw [hevents, ← lastWrite_payloads, ← lastWrite_payloads, lastWrite_filter]
  exact fun e he hwrite => decide_eq_true (hwf.runIdForEvent_eq he (hw e hwrite))

end snapshot

/-! ### Completions are sound unless they are opposed -/

section steps

variable {d : Deployment} {s s' : World} {a : Action}

theorem mem_executedPayloads_quiet {worker : Worker} {r : Uuid} {executed : List (Uuid × Outcome)}
    {q : EventPayload} (h : q ∈ executedPayloads worker r executed) :
    q.isRunCompleted = false ∧ q.completion? = none ∧ ∀ i, q.assigns i = false := by
  obtain ⟨x, -, hq⟩ := mem_executedPayloads h
  have hkind := (mem_outcome_payloads _ _ _ _ hq).2.2
  cases q <;> simp_all [EventPayload.isExecution, EventPayload.isRunCompleted,
    EventPayload.completion?, EventPayload.assigns]

theorem WellFormed.exists_assigns {log : EventLog} (h : WellFormed log) {r : Uuid}
    {q : EventPayload} (hq : q ∈ payloads (stream log r)) {i : Uuid} (hi : q.itemId? = some i) :
    ∃ x ∈ payloads (stream log r), x.assigns i := by
  obtain ⟨e, he, rfl⟩ := List.mem_map.mp hq
  obtain ⟨hlog, hres⟩ := mem_stream.mp he
  obtain ⟨b, hb, hassigns⟩ := h.assigned e hlog i hi
  rw [hres] at hb
  exact ⟨b.payload, List.mem_map_of_mem hb, hassigns⟩

theorem completion_sound_iff {w : Nat} {snapshot : Snapshot} {r : Uuid}
    {batch rows : List EventEnvelope} (h : BatchCommit d s s' w snapshot r batch rows)
    {executor : AgentExecutor} {state state' : RunState} {executed : List (Uuid × Outcome)}
    {text : String} (hstate : replayRun (runEvents snapshot.events r) = some state)
    (hadv : Advanced ((d.worker w).config executor) r state state' batch executed (some text))
    (hsound : d.Sound s.moment)
    (hread : (snapshot.events.filter (·.resourceId = r)).Pairwise (·.revision < ·.revision)) :
    AllCompleted (payloads (stream s.log r) ++
          executedPayloads ((d.worker w).config executor).worker r executed) ∧
        lastWrite EventPayload.completion? (payloads (stream s.log r) ++
          executedPayloads ((d.worker w).config executor).worker r executed) ≠ some true ↔
      NotOpposed (payloads (s.since (snapshot, r, batch))) (payloads batch) := by
  set qs := executedPayloads ((d.worker w).config executor).worker r executed
  have hquiet : ∀ q ∈ qs, q.isRunCompleted = false ∧ q.completion? = none ∧
      ∀ i, q.assigns i = false := fun q => mem_executedPayloads_quiet
  have hcut : payloads (stream s.log r) =
      payloads (stream snapshot.log r) ++ payloads (s.since (snapshot, r, batch)) := by
    rw [h.stream_since, payloads_append]
  have hbatch : ∀ i, lastWrite (EventPayload.itemStatus? i) (payloads batch) =
      lastWrite (EventPayload.itemStatus? i) qs := by
    intro i
    rw [hadv.payloads, lastWrite_append]
    rfl
  -- in the snapshot the run is running, and after the executions all its items are completed
  have hstanding : lastWrite EventPayload.completion? (payloads (stream snapshot.log r)) ≠
      some true := by
    intro hstands
    refine not_running_of_completion ?_ hstands ?_
    · intro q hq
      rw [payloads, ← List.map_tail] at hq
      obtain ⟨e, he, rfl⟩ := List.mem_map.mp hq
      exact h.read.past.sound.wellFormed.started r e he
    · rw [← h.read.lastWrite_stream hread fun e he => ?_]
      · exact lastWrite_of_running hstate hadv.status_before
      · unfold runIdForEvent
        cases hp : e.payload <;> simp_all [EventPayload.workerStatus?,
          EventPayload.orchestratorStatus?, EventPayload.runId?]
  have hdone : ∀ i status, (lastWrite (EventPayload.itemStatus? i) qs).or
      (lastWrite (EventPayload.itemStatus? i) (payloads (stream snapshot.log r))) = some status →
        status = .completed := by
    intro i status hlast
    refine hadv.completed rfl i status ?_
    rw [hadv.itemStatus, itemStatus_replayRun hstate, h.read.lastWrite_stream hread, hlast]
    intro e he
    unfold runIdForEvent
    cases hp : e.payload <;> simp_all [EventPayload.itemStatus?, EventPayload.runId?]
  unfold NotOpposed
  simp only [hbatch]
  rw [and_comm, hcut, allCompleted_append_iff ?_ (fun q hq => (hquiet q hq).2.2) hdone]
  · refine and_congr_left fun _ => ?_
    rw [lastWrite_append, lastWrite_of_none fun q hq => (hquiet q hq).2.1, Option.none_or,
      lastWrite_append]
    cases lastWrite EventPayload.completion? (payloads (s.since (snapshot, r, batch))) with
    | none => simp [hstanding]
    | some b => rfl
  · rw [← hcut]
    exact fun q hq i hi => hsound.wellFormed.exists_assigns hq hi

theorem Commit.completionsSound_step (h : Commit d s a s') (hsound : d.Sound s.moment)
    (hread : ReadInOrder s a) : (∀ r, CompletionsSound (payloads (stream s'.log r))) ↔
      (∀ r, CompletionsSound (payloads (stream s.log r))) ∧ Unopposed s a := by
  cases h with
  | nothing hbatch hlog => simp [hlog, Unopposed, hbatch]
  | @request k request draws seen rows ha h =>
    subst ha
    refine h.appended.forall_stream_iff ?_
    rw [and_iff_left (by simp [Unopposed, World.batchOf])]
    refine completionsSound_append_quiet fun q hq => ?_
    have horch := h.decided.orchestrated q hq
    cases q <;> simp_all [EventPayload.isOrchestrated, EventPayload.isRunCompleted]
  | @batch w snapshot r batch rows hbatch h =>
    refine h.appended.forall_stream_iff ?_
    obtain ⟨executor, state, state', executed, summary, hstate, hadv⟩ := h.prepared.advanced
    have hquiet : ∀ q ∈ executedPayloads ((d.worker w).config executor).worker r executed,
        q.isRunCompleted = false := fun q hq => (mem_executedPayloads_quiet hq).1
    cases summary with
    | none =>
      have hbatchPayloads := hadv.payloads
      rw [Option.toList_none, List.map_nil, List.append_nil] at hbatchPayloads
      rw [h.payloads, hbatchPayloads, completionsSound_append_quiet hquiet, and_iff_left]
      intro x hx hcompletes
      obtain rfl := Option.some.inj (hbatch.symm.trans hx)
      obtain ⟨p, hp, hcompleted⟩ := hcompletes
      rw [hbatchPayloads] at hp
      rw [hquiet p hp] at hcompleted
      cases hcompleted
    | some text =>
      have hbatchPayloads : payloads batch = executedPayloads ((d.worker w).config executor).worker
          r executed ++ [.runCompleted r text] := hadv.payloads
      have hcompletes : ∃ p ∈ payloads batch, p.isRunCompleted :=
        ⟨_, by rw [hbatchPayloads]; exact List.mem_append_right _ List.mem_cons_self, rfl⟩
      rw [h.payloads, hbatchPayloads, completionsSound_append_completion hquiet rfl,
        completion_sound_iff h hstate hadv hsound (hread _ hbatch hcompletes)]
      simp only [Unopposed, hbatch, Option.mem_some_iff, forall_eq', hcompletes, true_imp_iff]

end steps

/-- Among the runs in which workers that complete a run have read it in order, the completions of all
streams are sound exactly if no completion was opposed. -/
theorem completionsSound_iff {d : Deployment} {s : World} :
    Reach (interleaving d) (fun s a => ReadInOrder s a ∧ Unopposed s a) s ↔
      Reach (interleaving d) ReadInOrder s ∧ ∀ r, CompletionsSound (payloads (stream s.log r)) := by
  refine Reach.iff_of_exact_within
    (I := fun s : World => ∀ r, CompletionsSound (payloads (stream s.log r))) ?_ ?_
  · rintro s rfl r
    exact CompletionsSound.nil
  · exact fun s a s' hreach hstep hread =>
      (hstep.commit (World.Inv.of_reach hreach)).completionsSound_step
        (World.Inv.of_reach hreach).sound hread

/-! ### Sample runs -/

/-- A worker completes the run after it was paused and resumed, with an earlier time. A second worker
reads the completion before the pause. -/
def misreadActions : List Action :=
  startActions ++ executeActions 0 ++ [.pass 1] ++
    requestActions 1 (.pauseRun sampleRun) (.at sampleRun 200 1) ++
    requestActions 2 (.resumeRun sampleRun) (.at sampleRun 300 1) ++ appendActions 0 ++
    executeActions 1 ++ appendActions 1

/-- Two workers complete a run, because neither sees the completion of the other in its snapshot or
because the second one misreads the run. -/
theorem not_completionsSound : sampleDeployment.OneClock ∧
    (Reach (interleaving sampleDeployment) ReadInOrder
        (World.init.after sampleDeployment rivalActions) ∧
      ¬ CompletionsSound (payloads (stream (logAfterActions rivalActions) sampleRun))) ∧
    Reach (interleaving sampleDeployment) Unopposed
        (World.init.after sampleDeployment misreadActions) ∧
      ¬ CompletionsSound (payloads (stream (logAfterActions misreadActions) sampleRun)) := by
  have htwice : ∀ (ps : List EventPayload) (n k : Nat),
      ps = ps.take n ++ .runCompleted sampleRun "worker completed run after 1 items" ::
        ((ps.drop (n + 1)).take k ++
          [.runCompleted sampleRun "worker completed run after 1 items"]) ∧
        (∀ x ∈ (ps.drop (n + 1)).take k, x.statusChange? = none) → ¬ CompletionsSound ps := by
    rintro ps n k ⟨hps, hmid⟩ hsound
    obtain ⟨x, hx, hchange⟩ := hsound.unique _ _ _ _ [] hps rfl rfl
    exact hchange (hmid x hx)
  refine ⟨sampleDeployment_oneClock, ⟨World.reach_after (.init rfl) (by decide +kernel), ?_⟩,
    World.reach_after (.init rfl) (by decide +kernel), ?_⟩
  · exact htwice _ 5 3 (by decide +kernel)
  · exact htwice _ 7 0 (by decide +kernel)

end SamtaDashboard

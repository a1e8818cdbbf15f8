import SamtaDashboard.System.AtMostOnce

/-!
# Who executes an item

What a worker does with an item rests on its snapshot, so the question is what is appended to a run
between a worker's `load_all` and its append. A worker comes to each run once in a tick, so nothing of
its own is among it (`World.Step.alone`). With a single worker, or when the items are divided among
the workers, that leaves nobody else who could execute the item.

A single worker completes an item once if `load_all` gives the completion after the assignment
(`single_worker_completes_once`); the order is by the hosts' clocks, and with the API's clock ahead the
assignment comes last.
-/

namespace SamtaDashboard

open EventFold Transition

/-! ### The runs ahead of a worker -/

namespace WorkerPhase

/-- The runs of the tick that the worker has not appended to yet. -/
def pending : WorkerPhase → List Uuid
  | .idle => []
  | .ticking _ runs => runs
  | .appending _ runs r _ _ _ => r :: runs

def snapshot? : WorkerPhase → Option Snapshot
  | .idle => none
  | .ticking snapshot _ | .appending snapshot .. => some snapshot

/-- None of the executions recorded since the snapshot in the runs ahead has an actor that counts as the
worker's own. -/
structure Alone (own : Uuid → Prop) (log : EventLog) (phase : WorkerPhase) : Prop where
  nodup : phase.pending.Nodup
  unwritten : ∀ snapshot ∈ phase.snapshot?, ∀ rows, log = snapshot.log ++ rows →
    ∀ e ∈ rows, e.resourceId ∈ phase.pending → e.payload.isExecution → ¬ own e.actorId

end WorkerPhase

section alone

variable {d : Deployment} {s s' : World} {a : Action} {w : Nat} {own : Uuid → Prop}

theorem WorkerPhase.alone_idle (log : EventLog) : WorkerPhase.idle.Alone own log :=
  ⟨List.nodup_nil, fun _ hsnapshot => nomatch hsnapshot⟩

theorem WorkerPhase.Inv.of_snapshot {m : Moment} {phase : WorkerPhase} (h : phase.Inv d m w)
    {snapshot : Snapshot} (hsnapshot : snapshot ∈ phase.snapshot?) : snapshot.Inv d m := by
  cases phase with
  | idle => cases hsnapshot
  | ticking snapshot' runs =>
    obtain rfl := Option.some.inj hsnapshot
    exact h
  | appending snapshot' runs r batch latest retries =>
    obtain rfl := Option.some.inj hsnapshot
    exact h.1

theorem WorkerMove.continues {phase : WorkerPhase} (h : WorkerMove d s w a phase) :
    (phase.snapshot? = (s.workers w).snapshot? ∧
        phase.pending.Sublist (s.workers w).pending) ∨
      phase = .idle ∨
      ∃ events runs, a = .loadAll w ∧ runs.Nodup ∧ phase = .ticking ⟨s.moment, events⟩ runs := by
  cases h with
  | load _ _ horder => exact Or.inr (Or.inr ⟨_, _, rfl, horder.1, rfl⟩)
  | execute hphase =>
    rw [hphase]
    unfold afterIteration
    split
    · exact Or.inl ⟨rfl, List.sublist_cons_self ..⟩
    · exact Or.inl ⟨rfl, List.Sublist.refl _⟩
  | again hphase => rw [hphase]; exact Or.inl ⟨rfl, List.Sublist.refl _⟩
  | done hphase => rw [hphase]; exact Or.inl ⟨rfl, List.sublist_cons_self ..⟩
  | stop => exact Or.inr (Or.inl rfl)

/-- The step is the append of request `k`, and `e` comes from its batch. -/
structure SubmittedBy (s : World) (a : Action) (k : Nat) (request : Request) (draws : Draws)
    (ps : List EventPayload) (e : EventEnvelope) : Prop where
  action : a = .submit k
  pending : (request, draws, ps) ∈ (s.requests k).pending?
  new : request.New draws s.log
  event : e.payload ∈ ps

/-- The step is the append of worker `w`, and `e` comes from its batch. -/
structure AppendedBy (s s' : World) (a : Action) (w : Nat) (e : EventEnvelope) : Prop where
  action : a = .append w
  pending : (s.workers w).pending = e.resourceId :: (s'.workers w).pending
  batchOf : ∃ snapshot, s.batchOf a = some (snapshot, e.resourceId, (s.workers w).batch)
  event : ∃ b ∈ (s.workers w).batch,
    b.actorId = e.actorId ∧ b.occurredAt = e.occurredAt ∧ b.payload = e.payload

theorem World.Step.grows (h : s.Step d a s') :
    ∃ rows, s'.log = s.log ++ rows ∧ ∀ e ∈ rows,
      (∃ k request draws ps, SubmittedBy s a k request draws ps e) ∨ ∃ w, AppendedBy s s' a w e := by
  cases h with
  | @submit k request draws ps revision seen log' hphase hnew hstamped happ =>
    obtain ⟨rfl, -⟩ := append_eq_ok.mp happ
    refine ⟨_, rfl, fun e he => Or.inl ⟨k, request, draws, ps, rfl, by rw [hphase]; rfl, hnew, ?_⟩⟩
    rw [map_bindTo_newEvents] at he
    rw [← payloads_newEvents draws (request.resource draws) revision ps]
    exact List.mem_map_of_mem he
  | @append w snapshot runs r batch latest retries log' hphase happ =>
    obtain ⟨rfl, -⟩ := append_eq_ok.mp happ
    refine ⟨_, rfl, fun e he => Or.inr ⟨w, rfl, ?_, ?_, ?_⟩⟩ <;>
      obtain ⟨x, hx, rfl⟩ := List.mem_map.mp he
    · show _ = _ :: ((s.setWorker w _).workers w).pending
      rw [workers_setWorker, if_pos rfl, hphase]
      rfl
    · exact ⟨snapshot, by simp only [World.batchOf, hphase]; rfl⟩
    · rw [hphase]
      have hmem := List.mem_map_of_mem (f := fun b => (b.actorId, b.occurredAt, b.payload)) hx
      rw [map_withRebasedRevisions _ fun _ _ => rfl] at hmem
      obtain ⟨b, hb, heq⟩ := List.mem_map.mp hmem
      obtain ⟨hactor, htime, hpayload⟩ : b.actorId = x.actorId ∧ b.occurredAt = x.occurredAt ∧
          b.payload = x.payload := by simpa using heq
      exact ⟨b, hb, hactor, htime, hpayload⟩
  | _ => exact ⟨[], (List.append_nil _).symm, fun _ he => absurd he List.not_mem_nil⟩

theorem SubmittedBy.isExecution_eq_false {k : Nat} {request : Request} {draws : Draws}
    {ps : List EventPayload} {e : EventEnvelope} (h : SubmittedBy s a k request draws ps e)
    (hinv : s.Inv d) : e.payload.isExecution = false := by
  have hdecided : Decided s.log request draws ps := (hinv.requests k).decided h.pending
  exact EventPayload.isExecution_of_isOrchestrated (hdecided.orchestrated _ h.event)

theorem AppendedBy.isOrchestrated_eq_false {e : EventEnvelope} (h : AppendedBy s s' a w e)
    (hinv : s.Inv d) : e.payload.isOrchestrated = false := by
  obtain ⟨b, hb, -, -, hpayload⟩ := h.event
  have hworker := hinv.workers w
  cases hphase : s.workers w with
  | idle | ticking => rw [hphase] at hb; cases hb
  | appending snapshot runs r batch latest retries =>
    rw [hphase] at hb hworker
    exact hpayload ▸ hworker.2.not_orchestrated _ (List.mem_map_of_mem hb)

theorem World.Step.alone (h : s.Step d a s') (hinv : s.Inv d)
    (hforeign : ∀ w', a = .append w' → w' ≠ w → ∀ b ∈ (s.workers w').batch, ¬ own b.actorId)
    (halone : (s.workers w).Alone own s.log) : (s'.workers w).Alone own s'.log := by
  obtain ⟨rows, hlog, hrows⟩ := h.grows
  have hcontinues : (s'.workers w).snapshot? = (s.workers w).snapshot? →
      (s'.workers w).pending.Sublist (s.workers w).pending → (s'.workers w).Alone own s'.log := by
    intro hsnapshot hpending
    refine ⟨halone.nodup.sublist hpending, fun snapshot hsnap rows' hrows' e he hahead hexec => ?_⟩
    rw [hsnapshot] at hsnap
    obtain ⟨rows₀, hrows₀⟩ : snapshot.log <+: s.log :=
      ((hinv.workers w).of_snapshot hsnap).past.later.2
    have hsplit : rows' = rows₀ ++ rows := by
      rw [hlog, ← hrows₀, List.append_assoc] at hrows'
      exact (List.append_cancel_left hrows').symm
    rw [hsplit] at he
    rcases List.mem_append.mp he with he | he
    · exact halone.unwritten snapshot hsnap rows₀ hrows₀.symm e he (hpending.subset hahead) hexec
    · rcases hrows e he with ⟨k, request, draws, ps, hsubmitted⟩ | ⟨w', happended⟩
      · rw [hsubmitted.isExecution_eq_false hinv] at hexec
        cases hexec
      · by_cases hw : w' = w
        · subst hw
          have hnodup := halone.nodup
          rw [happended.pending, List.nodup_cons] at hnodup
          exact absurd hahead hnodup.1
        · obtain ⟨b, hb, hactor, -⟩ := happended.event
          rw [← hactor]
          exact hforeign w' happended.action hw b hb
  rcases h.worker w with hsame | hmove
  · exact hcontinues (by rw [hsame]) (by rw [hsame])
  · rcases hmove.continues with ⟨hsnapshot, hpending⟩ | hidle | ⟨events, runs, rfl, hnodup, hphase⟩
    · exact hcontinues hsnapshot hpending
    · rw [hidle]
      exact WorkerPhase.alone_idle _
    · rw [hphase]
      refine ⟨hnodup, fun snapshot hsnap rows' hrows' e he => ?_⟩
      obtain rfl := Option.some.inj hsnap
      cases h
      have hempty : rows' = [] := List.self_eq_append_right.mp hrows'
      rw [hempty] at he
      cases he

theorem World.batchOf_eq_some {x : Snapshot × Uuid × List EventEnvelope} (h : s.batchOf a = some x) :
    ∃ w runs latest retries, a = .append w ∧
      s.workers w = .appending x.1 runs x.2.1 x.2.2 (some latest) retries := by
  cases a with
  | append w =>
    simp only [batchOf] at h
    split at h
    · next snapshot runs r batch latest retries hphase =>
      obtain rfl := Option.some.inj h
      exact ⟨w, runs, latest, retries, rfl, hphase⟩
    · cases h
  | _ => cases h

/-- If all that complete an item count as the worker, the item has not been completed since the
worker's snapshot. -/
theorem WorkerPhase.Alone.completions_eq {snapshot : Snapshot} {runs : List Uuid} {r i : Uuid}
    {batch : List EventEnvelope} {latest : Option Int} {retries : Nat}
    (h : (WorkerPhase.appending snapshot runs r batch latest retries).Alone own s.log)
    (hread : snapshot.log <+: s.log)
    (hown : ∀ e ∈ s.log, e.payload.completes i → e.resourceId = r ∧ own e.actorId) :
    completions s.log i = completions snapshot.log i := by
  obtain ⟨rows, hrows⟩ := hread
  rw [← hrows, completions_append, Nat.add_eq_left, payloads, List.countP_map, List.countP_eq_zero]
  intro e he hcompletes
  obtain ⟨hres, hactor⟩ := hown e (hrows ▸ List.mem_append_right _ he) hcompletes
  exact h.unwritten snapshot rfl rows hrows.symm e he (hres ▸ List.mem_cons_self)
    (EventPayload.isExecution_of_completes hcompletes) hactor

end alone

/-! ### New items -/

theorem Request.fresh_of_new {request : Request} {draws : Draws} {events : List EventEnvelope}
    {ps : List EventPayload} {log : EventLog} (hrun : request.runId? = none)
    (hdecide : request.decide draws events = some ps) (hnew : request.New draws log)
    {p : EventPayload} (hp : p ∈ ps) {i : Uuid} (hi : p.itemId? = some i) :
    ∀ e ∈ log, e.payload.itemId? ≠ some i := by
  cases request with
  | pauseRun | resumeRun | cancelRun | retryRun => cases hrun
  | createWorkspace | createAgentProfile =>
    obtain rfl := Option.some.inj hdecide
    obtain rfl := List.mem_singleton.mp hp
    cases hi
  | startRun workspaceId objective targetItemCount agentCount =>
    obtain rfl := Option.some.inj hdecide
    rw [startRunPayloads_eq] at hp
    rcases List.mem_cons.mp hp with rfl | hp
    · cases hi
    · obtain ⟨x, hx, rfl⟩ := Assignments.mem_payloads hp
      obtain rfl := Option.some.inj hi
      obtain ⟨k, hk, rfl⟩ := List.mem_mapIdx.mp hx
      obtain ⟨n, hn⟩ := mem_plannedItems (List.getElem_mem hk)
      exact hn ▸ hnew.2 n

/-! ### A single worker -/

/-- Only worker `w₀` runs, and the API is asked for no control operation. -/
def SingleWorker (w₀ : Nat) : Action → Prop
  | .loadAll w => w = w₀
  | .decide _ request _ => request.runId? = none
  | _ => True

/-- A worker appends the completion of an item with a time that is not before the time of the item's
assignment. -/
def CompletesAfterAssignment (s : World) (a : Action) : Prop :=
  ∀ x ∈ s.batchOf a, ∀ b ∈ x.2.2, ∀ e ∈ s.log, ∀ i ∈ b.payload.itemId?, b.payload.completes i →
    e.payload.assigns i → e.occurredAt ≤ b.occurredAt

instance (w₀ : Nat) : (a : Action) → Decidable (SingleWorker w₀ a)
  | .loadAll w => inferInstanceAs (Decidable (w = w₀))
  | .decide _ request _ => inferInstanceAs (Decidable (request.runId? = none))
  | .pass _ | .number _ | .submit _ | .drop _ => isTrue trivial
  | .execute .. | .readRevision _ | .append _ | .fail _ | .stop _ => isTrue trivial

instance (s : World) (a : Action) : Decidable (CompletesAfterAssignment s a) :=
  inferInstanceAs (Decidable (∀ x ∈ s.batchOf a, _))

/-- What holds while a single worker runs. -/
structure SingleWorker.Inv (w₀ : Nat) (s : World) : Prop where
  others : ∀ w, w ≠ w₀ → s.workers w = .idle
  starts : ∀ k, ∀ x ∈ (s.requests k).pending?, x.1.runId? = none ∧
    ∃ events, x.1.decide x.2.1 events = some x.2.2
  alone : (s.workers w₀).Alone (fun _ => True) s.log
  ordered : ∀ i, ∀ e ∈ s.log, ∀ x ∈ s.log, e.payload.assigns i → x.payload.completes i → timeLe e x
  once : ∀ i, completions s.log i ≤ 1

section single

variable {d : Deployment} {s s' : World} {a : Action} {w₀ : Nat}

theorem SingleWorker.Inv.init : SingleWorker.Inv w₀ World.init where
  others := fun _ _ => rfl
  starts := fun _ _ hx => nomatch hx
  alone := WorkerPhase.alone_idle _
  ordered := fun _ _ he => nomatch he
  once := fun _ => Nat.zero_le 1

theorem SingleWorker.Inv.starts_step (h : SingleWorker.Inv w₀ s) (hstep : s.Step d a s')
    (hsingle : SingleWorker w₀ a) (k : Nat) : ∀ x ∈ (s'.requests k).pending?,
      x.1.runId? = none ∧ ∃ events, x.1.decide x.2.1 events = some x.2.2 := by
  intro x hx
  rcases hstep.pending_request k hx with hold | ⟨events, rfl, -, -, hdecide⟩
  · exact h.starts k x hold
  · exact ⟨hsingle, events, hdecide⟩

theorem SingleWorker.Inv.ordered_step (h : SingleWorker.Inv w₀ s) (hinv : s.Inv d)
    (hstep : s.Step d a s') (hafter : CompletesAfterAssignment s a) {i : Uuid}
    {e x : EventEnvelope} (he : e ∈ s'.log) (hx : x ∈ s'.log) (hassigns : e.payload.assigns i)
    (hcompletes : x.payload.completes i) : timeLe e x := by
  have hwf : WellFormed s'.log := (hstep.inv hinv).sound.wellFormed
  have hassign := itemId?_of_assigns hassigns
  have hcomplete := itemId?_of_completes hcompletes
  have hres := hwf.separate e he x hx i hassign hcomplete
  have hexec : x.payload.isExecution := EventPayload.isExecution_of_completes hcompletes
  obtain ⟨rows, hlog, hrows⟩ := hstep.grows
  rw [hlog] at he hx
  rcases List.mem_append.mp he with he | he
  · rcases List.mem_append.mp hx with hx | hx
    · exact h.ordered i e he x hx hassigns hcompletes
    · rcases hrows x hx with ⟨k, request, draws, ps, hsubmitted⟩ | ⟨w, happended⟩
      · rw [hsubmitted.isExecution_eq_false hinv] at hexec
        cases hexec
      · obtain ⟨snapshot, hbatch⟩ := happended.batchOf
        obtain ⟨b, hb, -, htime, hpayload⟩ := happended.event
        have hle := hafter _ hbatch b hb e he i (by rw [hpayload]; exact hcomplete)
          (by rw [hpayload]; exact hcompletes) hassigns
        refine timeLe_of_lt (htime ▸ hle) ?_
        -- in the stream the assignment comes first
        have hcons := (hwf.gapFree x.resourceId).pairwise
        rw [hlog, stream_append, List.pairwise_append] at hcons
        exact hcons.2.2 e (mem_stream.mpr ⟨he, hres⟩) x (mem_stream.mpr ⟨hx, rfl⟩)
  · exfalso
    rcases hrows e he with ⟨k, request, draws, ps, hsubmitted⟩ | ⟨w, happended⟩
    · rcases List.mem_append.mp hx with hx | hx
      · obtain ⟨hrun, events, hdecide⟩ := h.starts k _ hsubmitted.pending
        exact Request.fresh_of_new hrun hdecide hsubmitted.new hsubmitted.event hassign x hx hcomplete
      · rcases hrows x hx with ⟨k', request', draws', ps', hsubmitted'⟩ | ⟨w, happended⟩
        · rw [hsubmitted'.isExecution_eq_false hinv] at hexec
          cases hexec
        · exact absurd (hsubmitted.action.symm.trans happended.action) (by simp)
    · have horch := happended.isOrchestrated_eq_false hinv
      rw [EventPayload.isOrchestrated_of_assigns hassigns] at horch
      cases horch

theorem SingleWorker.Inv.once_step (h : SingleWorker.Inv w₀ s) (hinv : s.Inv d)
    (hstep : s.Step d a s') (i : Uuid) : completions s'.log i ≤ 1 := by
  cases hstep.commit hinv with
  | nothing _ hlog => rw [hlog]; exact h.once i
  | request _ hrequest =>
    rw [hrequest.appended.log_eq, completions_append, hrequest.completions_eq i]
    exact h.once i
  | @batch w snapshot r batch rows hbatch hcommit =>
    rw [hcommit.appended.log_eq, completions_append, hcommit.payloads]
    rcases hcommit.prepared.countP_completes i with hzero | ⟨hone, hassigned⟩
    · rw [hzero]
      exact h.once i
    · obtain ⟨t, ht, hassigns, hlatest⟩ := hcommit.read.exists_assignment hassigned
      have hread := hcommit.read.past.later.2
      obtain ⟨htlog, htres⟩ := mem_stream.mp ht
      have hnone : completions snapshot.log i = 0 := by
        refine List.countP_eq_zero.mpr fun x hx hcompletes => hlatest x hx hcompletes ?_
        exact h.ordered i t (hread.subset htlog) x (hread.subset hx) hassigns hcompletes
      obtain ⟨w', runs, latest, retries, -, hphase⟩ := World.batchOf_eq_some hbatch
      obtain rfl : w' = w₀ := by
        by_contra hw
        rw [h.others w' hw] at hphase
        cases hphase
      have halone := h.alone
      rw [hphase] at halone
      have hsame : completions s.log i = completions snapshot.log i := by
        refine halone.completions_eq hread fun e he hcompletes => ⟨?_, trivial⟩
        rw [← htres]
        exact hinv.sound.wellFormed.separate e he t (hread.subset htlog) i
          (itemId?_of_completes hcompletes) (itemId?_of_assigns hassigns)
      omega

end single

/-- While a single worker runs and the API is asked for no control operation, every item is completed at
most once if no completion is stamped before the item's assignment. -/
theorem single_worker_completes_once {d : Deployment} {w₀ : Nat} {s : World}
    (h : Reach (interleaving d) (fun s a => SingleWorker w₀ a ∧ CompletesAfterAssignment s a) s)
    (i : Uuid) : completions s.log i ≤ 1 := by
  have hinv : SingleWorker.Inv w₀ s := by
    refine h.invariant_of (K := World.Inv d) (fun _ => World.Inv.of_reach) ?_ ?_
    · rintro s rfl
      exact .init
    · rintro s a s' hinv hsingle hstep ⟨hone, hafter⟩
      have hstep : s.Step d a s' := hstep
      refine ⟨fun w hw => hstep.idle (hsingle.others w hw) ?_, hsingle.starts_step hstep hone, ?_,
        fun i e he x hx => hsingle.ordered_step hinv hstep hafter he hx,
        hsingle.once_step hinv hstep⟩
      · rintro rfl
        exact hw hone
      · refine hstep.alone hinv (fun w' _ hw b hb => ?_) hsingle.alone
        rw [hsingle.others w' hw] at hb
        cases hb
  exact hinv.once i

theorem single_worker_completes_once_prompt : completions (logAfterActions promptActions) ⟨10⟩ ≤ 1 := by
  have h : Reach (interleaving sampleDeployment)
      (fun s a => SingleWorker 0 a ∧ CompletesAfterAssignment s a)
      (World.init.after sampleDeployment promptActions) :=
    World.reach_after (.init rfl) (by decide +kernel)
  exact single_worker_completes_once h ⟨10⟩

def aheadDeployment : Deployment where
  clock
    | .request _, t => t + 100
    | .worker _, t => t
  worker := sampleDeployment.worker

def twoTicks : List Action :=
  requestActions 0 (.startRun sampleWorkspace "" (some 1) (some 1)) (.at sampleRun 100 100) ++
    executeActions 0 ++ appendActions 0 ++ [.stop 0] ++ executeActions 0 ++ appendActions 0

/-- The worker's events come before the start of the run in the second `load_all`, so that the item is
still assigned. -/
theorem single_worker_completes_twice :
    (∀ p, Monotone (aheadDeployment.clock p)) ∧
    (∀ k w t, aheadDeployment.clock (.request k) t = aheadDeployment.clock (.worker w) t + 100) ∧
    Reach (interleaving aheadDeployment) (fun _ a => SingleWorker 0 a)
      (World.init.after aheadDeployment twoTicks) ∧
    1 < completions (World.init.after aheadDeployment twoTicks).log ⟨10⟩ := by
  refine ⟨fun p t t' hle => ?_, fun _ _ _ => rfl, World.reach_after (.init rfl) (by decide +kernel),
    by decide +kernel⟩
  cases p with
  | request k => exact Int.add_le_add_right hle 100
  | worker w => exact hle

end SamtaDashboard

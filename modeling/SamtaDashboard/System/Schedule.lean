import SamtaDashboard.System.Commits
import SamtaDashboard.System.History

/-!
# Schedules: runs of an interleaving that can be computed

`World.play` carries out an action in one of its possible ways: maps are iterated in key order, rows
with equal keys come in commit order, and all events of a batch are stamped with the current time. A
list of actions that are all enabled is a run of the interleaving (`Reach.after`).
-/

namespace SamtaDashboard

open EventFold Transition

/-! ### Deciding what a request needs -/

instance {V : Type} (m : HashMap V) (order : List Uuid) : Decidable (m.IsOrder order) :=
  decidable_of_iff (order.Perm m.keys)
    ⟨fun h => ⟨h.nodup_iff.mpr m.keys_nodup, fun _ => h.mem_iff⟩,
      fun h => (List.perm_ext_iff_of_nodup h.1 m.keys_nodup).mpr h.2⟩

instance (events : List EventEnvelope) : (request : Request) → Decidable (request.Orders events)
  | .retryRun order _ => inferInstanceAs (Decidable (HashMap.IsOrder _ order))
  | .createWorkspace _ | .createAgentProfile .. | .startRun .. => isTrue trivial
  | .pauseRun _ | .resumeRun _ | .cancelRun _ => isTrue trivial

/-- The events that a request decides on, if it gets that far. -/
def Request.read? (request : Request) (log : EventLog) : Option (List EventEnvelope) :=
  match request.runId? with
  | none => some []
  | some runId =>
    match load log runId with
    | .ok events => if events = [] then none else some events
    | .error _ => none

/-- The ids of a request are new, for runs when no event names an item yet. -/
def Request.isNew (draws : Draws) (log : EventLog) : Request → Bool
  | createWorkspace _ | createAgentProfile .. => (stream log draws.resource).isEmpty
  | startRun .. => (stream log draws.resource).isEmpty && log.all (·.payload.itemId?.isNone)
  | _ => true

theorem Request.reads_of_read? {request : Request} {log : EventLog} {events : List EventEnvelope}
    (h : request.read? log = some events) : request.Reads log events := by
  unfold read? at h
  unfold Reads
  revert h
  cases request.runId? with
  | none => exact fun h => (Option.some.inj h).symm
  | some runId =>
    intro h
    dsimp only at h
    split at h
    · next loaded hload =>
      split at h
      · cases h
      · next hne =>
        obtain rfl := Option.some.inj h
        exact ⟨hload, hne⟩
    · cases h

theorem Request.new_of_isNew {request : Request} {draws : Draws} {log : EventLog}
    (h : request.isNew draws log) : request.New draws log := by
  cases request with
  | createWorkspace name | createAgentProfile name role => exact List.isEmpty_iff.mp h
  | startRun workspaceId objective targetItemCount agentCount =>
    simp only [isNew, Bool.and_eq_true, List.isEmpty_iff, List.all_eq_true] at h
    refine ⟨h.1, fun k e he heq => ?_⟩
    have hnone := h.2 e he
    rw [heq] at hnone
    cases hnone
  | _ => trivial

/-! ### One action -/

/-- The stamps of a worker's batch at one moment; the ids are not in use yet. -/
def playStamp (w : Nat) (log : EventLog) (now : Time) (k : Nat) : Stamp :=
  ⟨⟨BitVec.ofNat 128 (1000 * (w + 1) + 100 * log.length + k)⟩, now⟩

namespace World

/-- One outcome of an action; `none` if the action is not enabled. -/
def play (d : Deployment) (s : World) : Action → Option World
  | .pass now => if s.now ≤ now then some { s with now := now } else none
  | .decide k request draws =>
    match s.requests k, request.read? s.log with
    | .idle, some events =>
      if request.Orders events then
        (request.decide draws events).map fun ps => s.setRequest k (.decided request draws ps)
      else none
    | _, _ => none
  | .number k =>
    match s.requests k with
    | .decided request draws ps =>
      match nextRevision s.log (request.resource draws) with
      | .ok revision => some (s.setRequest k (.numbered request draws ps revision s.moment))
      | .error _ => none
    | _ => none
  | .submit k =>
    match s.requests k with
    | .numbered request draws ps revision seen =>
      let events := newEvents draws (request.resource draws) revision ps
      if request.isNew draws s.log ∧ seen.now ≤ s.now ∧
          ∀ e ∈ events, e.occurredAt = d.clock (.request k) s.now then
        match SamtaDashboard.append s.log (request.resource draws) events with
        | .ok log' => some { s.setRequest k .idle with log := log' }
        | .error _ => none
      else none
    | _ => none
  | .drop k => some (s.setRequest k .idle)
  | .loadAll w =>
    match s.workers w, SamtaDashboard.loadAll s.log with
    | .idle, .ok events =>
      some (s.setWorker w (.ticking ⟨s.moment, events⟩ (runStatesFromEvents events).keys))
    | _, _ => none
  | .execute w executor =>
    match s.workers w with
    | .ticking snapshot (r :: runs) =>
      match (runStatesFromEvents snapshot.events).lookup r with
      | some state =>
        if snapshot.now ≤ s.now then
          let batch := ((d.worker w).config executor).advanceRun
            (playStamp w s.log (d.clock (.worker w) s.now)) state.items.keys r state
          some (s.setWorker w (afterIteration (d.worker w) snapshot runs r batch.2))
        else none
      | none => none
    | _ => none
  | .readRevision w =>
    match s.workers w with
    | .appending snapshot runs r batch none retries =>
      match load s.log r with
      | .ok events =>
        some (s.setWorker w
          (.appending snapshot runs r batch (some (lastRevision events)) retries))
      | .error _ => none
    | _ => none
  | .append w =>
    match s.workers w with
    | .appending snapshot runs r batch (some latest) _ =>
      match SamtaDashboard.append s.log r (withRebasedRevisions batch latest) with
      | .ok log' => some { s.setWorker w (.ticking snapshot runs) with log := log' }
      | .error _ => none
    | _ => none
  | .fail w =>
    match s.workers w with
    | .appending snapshot runs r batch latest retries =>
      let failed := match latest with
        | none => (load s.log r).toOption.isNone
        | some latest =>
          (SamtaDashboard.append s.log r (withRebasedRevisions batch latest)).toOption.isNone
      if failed then some (s.setWorker w (afterFailure snapshot runs r batch retries)) else none
    | _ => none
  | .stop w => some (s.setWorker w .idle)

end World

theorem Deployment.stampedBetween_of_now {d : Deployment} {p : Process} {since now : Time}
    {events : List EventEnvelope} (hle : since ≤ now)
    (h : ∀ e ∈ events, e.occurredAt = d.clock p now) : d.StampedBetween p since now events := by
  refine ⟨List.replicate events.length now, List.pairwise_replicate.mpr (Or.inr (le_refl _)),
    fun t ht => ?_, ?_⟩
  · rw [List.eq_of_mem_replicate ht]
    exact ⟨hle, le_refl _⟩
  · rw [List.map_replicate]
    exact List.eq_replicate_iff.mpr ⟨by simp, fun t ht => by
      obtain ⟨e, he, rfl⟩ := List.mem_map.mp ht
      exact h e he⟩

instance : Std.Total timeLe where
  total a b := by
    rcases lt_trichotomy a.occurredAt b.occurredAt with hlt | heq | hgt
    · exact Or.inl (Or.inl hlt)
    · exact (le_total a.revision b.revision).imp (fun h => Or.inr ⟨heq, h⟩)
        fun h => Or.inr ⟨heq.symm, h⟩
    · exact Or.inr (Or.inl hgt)

instance : IsTrans EventEnvelope timeLe where
  trans a b c hab hbc := by
    rcases hab with hlt | ⟨heq, hle⟩ <;> rcases hbc with hlt' | ⟨heq', hle'⟩
    · exact Or.inl (lt_trans hlt hlt')
    · exact Or.inl (heq' ▸ hlt)
    · exact Or.inl (heq ▸ hlt')
    · exact Or.inr ⟨heq.trans heq', le_trans hle hle'⟩

theorem inTimeOrder_insertionSort (log : EventLog) : InTimeOrder log (log.insertionSort timeLe) :=
  ⟨List.perm_insertionSort timeLe log, List.pairwise_insertionSort timeLe log⟩

namespace World

variable {d : Deployment} {s s' : World}

theorem step_of_play_decide {k : Nat} {request : Request} {draws : Draws}
    (h : s.play d (.decide k request draws) = some s') : s.Step d (.decide k request draws) s' := by
  simp only [play] at h
  split at h
  · next events hphase hread =>
    simp only [Option.ite_none_right_eq_some, Option.map_eq_some_iff] at h
    obtain ⟨horders, ps, hps, rfl⟩ := h
    exact .decide hphase (Request.reads_of_read? hread) horders hps
  · cases h

theorem step_of_play_submit {k : Nat} (h : s.play d (.submit k) = some s') :
    s.Step d (.submit k) s' := by
  simp only [play] at h
  split at h
  · next request draws ps revision seen hphase =>
    split at h
    · next hready =>
      obtain ⟨hnew, hle, hnow⟩ := hready
      split at h
      · next log' happ =>
        obtain rfl := Option.some.inj h
        exact .submit hphase (Request.new_of_isNew hnew)
          (Deployment.stampedBetween_of_now hle hnow) happ
      · cases h
    · cases h
  · cases h

theorem step_of_play_execute {w : Nat} {executor : AgentExecutor} (h : s.play d (.execute w executor) = some s') :
    s.Step d (.execute w executor) s' := by
  simp only [play] at h
  split at h
  · next snapshot r runs hphase =>
    split at h
    · next state hlookup =>
      simp only [Option.ite_none_right_eq_some, Option.some.injEq] at h
      obtain ⟨hle, rfl⟩ := h
      refine .execute hphase hlookup (HashMap.isOrder_keys _) rfl
        (Deployment.stampedBetween_of_now hle fun e he => ?_)
      obtain ⟨⟨hi, hstamped⟩, -⟩ := ((d.worker w).config executor).advanceRun_stamped
        (playStamp w s.log (d.clock (.worker w) s.now)) state.items.keys r state
      obtain ⟨k, -, hk⟩ := hstamped.exists_stamp he
      exact hk
    · cases h
  · cases h

/-- A worker fails where its stream cannot be loaded, or where its append conflicts. -/
theorem step_of_play_fail {w : Nat} (h : s.play d (.fail w) = some s') :
    s.Step d (.fail w) s' := by
  simp only [play] at h
  split at h
  · next snapshot runs r batch latest retries hphase =>
    rw [Option.ite_none_right_eq_some] at h
    obtain ⟨hfailed, h⟩ := h
    obtain rfl := Option.some.inj h
    cases latest with
    | none =>
      cases hload : load s.log r with
      | ok events => simp [hload, Except.toOption] at hfailed
      | error error => exact .loadFailed hphase hload
    | some latest =>
      cases happ : SamtaDashboard.append s.log r (withRebasedRevisions batch latest) with
      | ok log' => simp [happ, Except.toOption] at hfailed
      | error error => exact .conflict hphase happ
  · cases h

end World

theorem World.step_of_play {d : Deployment} {s s' : World} {a : Action}
    (h : s.play d a = some s') : s.Step d a s' := by
  cases a with
  | pass now =>
    simp only [play, Option.ite_none_right_eq_some, Option.some.injEq] at h
    obtain ⟨hle, rfl⟩ := h
    exact .pass hle
  | decide k request draws => exact step_of_play_decide h
  | number k =>
    simp only [play] at h
    split at h
    · next request draws ps hphase =>
      split at h
      · next revision hrevision =>
        obtain rfl := Option.some.inj h
        exact .number hphase hrevision
      · cases h
    · cases h
  | submit k => exact step_of_play_submit h
  | drop k =>
    obtain rfl := Option.some.inj h
    exact .drop
  | loadAll w =>
    simp only [play] at h
    split at h
    · next events hphase hload =>
      obtain rfl := Option.some.inj h
      exact .loadAll hphase ⟨_, inTimeOrder_insertionSort s.log, hload.symm⟩
        (HashMap.isOrder_keys _)
    · cases h
  | execute w executor => exact step_of_play_execute h
  | readRevision w =>
    simp only [play] at h
    split at h
    · next snapshot runs r batch retries hphase =>
      split at h
      · next events hload =>
        obtain rfl := Option.some.inj h
        exact .readRevision hphase hload
      · cases h
    · cases h
  | append w =>
    simp only [play] at h
    split at h
    · next snapshot runs r batch latest retries hphase =>
      split at h
      · next log' happ =>
        obtain rfl := Option.some.inj h
        exact .append hphase happ
      · cases h
    · cases h
  | fail w => exact step_of_play_fail h
  | stop w =>
    obtain rfl := Option.some.inj h
    exact .stop

/-! ### Runs -/

namespace World

def next (d : Deployment) (s : World) (a : Action) : World := (s.play d a).getD s

def after (d : Deployment) (s : World) (actions : List Action) : World := actions.foldl (next d) s

def Enabled (d : Deployment) (guard : World → Action → Prop) : World → List Action → Prop
  | _, [] => True
  | s, a :: actions => (s.play d a).isSome ∧ guard s a ∧ (s.next d a).Enabled d guard actions

instance (d : Deployment) (guard : World → Action → Prop) [hguard : ∀ s a, Decidable (guard s a)] :
    (s : World) → (actions : List Action) → Decidable (s.Enabled d guard actions)
  | _, [] => isTrue trivial
  | s, a :: actions =>
    have := instDecidableEnabled d guard (s.next d a) actions
    inferInstanceAs (Decidable (_ ∧ _ ∧ _))

end World

theorem World.reach_after {d : Deployment} {guard : World → Action → Prop} {s : World}
    (h : Reach (interleaving d) guard s) {actions : List Action}
    (henabled : s.Enabled d guard actions) : Reach (interleaving d) guard (s.after d actions) := by
  induction actions generalizing s with
  | nil => exact h
  | cons a actions ih =>
    obtain ⟨hplay, hguard, hrest⟩ := henabled
    obtain ⟨s', hs'⟩ := Option.isSome_iff_exists.mp hplay
    have hnext : s.next d a = s' := by rw [next, hs', Option.getD_some]
    rw [hnext] at hrest
    rw [after, List.foldl_cons, hnext]
    exact ih (.step a h (World.step_of_play hs') hguard) hrest

theorem World.Enabled.guarded {d : Deployment} {guard : World → Action → Prop} {s : World}
    {actions : List Action} (h : s.Enabled d (fun _ _ => True) actions)
    (hguard : ∀ a ∈ actions, ∀ s, guard s a) : s.Enabled d guard actions := by
  induction actions generalizing s with
  | nil => trivial
  | cons a actions ih =>
    rw [List.forall_mem_cons] at hguard
    exact ⟨h.1, hguard.1 s, ih h.2.2 hguard.2⟩

/-! ### A sample deployment -/

/-- All processes share a clock; the workers have the ids 60, 61, … and advance up to two items. -/
def sampleDeployment : Deployment where
  clock _ t := t
  worker w := ⟨⟨⟨BitVec.ofNat 128 (60 + w)⟩⟩, 2, false, 4⟩

theorem sampleDeployment_oneClock : sampleDeployment.OneClock := fun _ _ _ _ hle => hle

/-- The draws of a request on run `r` at one time, with stamps whose ids count from `base`. -/
def Draws.at (r : Uuid) (base : Nat) (now : Time) : Draws :=
  { Draws.counting r base with stamp := fun k => ⟨⟨BitVec.ofNat 128 (base + k)⟩, now⟩ }

/-- A request that nothing comes between. -/
def requestActions (k : Nat) (request : Request) (draws : Draws) : List Action :=
  [.decide k request draws, .number k, .submit k]

def startActions : List Action :=
  requestActions 0 (.startRun sampleWorkspace "" (some 1) (some 1)) (.at sampleRun 100 0)

def executeActions (w : Nat) : List Action := [.loadAll w, .execute w (sampleExecutor [])]

def appendActions (w : Nat) : List Action := [.readRevision w, .append w]

/-- A worker that executes and appends an item with nothing in between. -/
def promptActions : List Action := startActions ++ executeActions 0 ++ appendActions 0

/-- The run is paused between the execution and the append. -/
def lateActions : List Action :=
  startActions ++ executeActions 0 ++
    [.pass 1] ++ requestActions 1 (.pauseRun sampleRun) (.at sampleRun 200 1) ++ appendActions 0

theorem lateActions_reachable :
    Reachable (interleaving sampleDeployment) (World.init.after sampleDeployment lateActions) :=
  World.reach_after (.init rfl) (by decide +kernel)

def logAfterActions (actions : List Action) : EventLog :=
  (World.init.after sampleDeployment actions).log

end SamtaDashboard

import SamtaDashboard.System.FreshReads
import SamtaDashboard.System.Window

/-!
# A worker finishes a run whatever the others do

In the interleaving other workers read, execute and append at any time, get stuck, stop, or execute the same
items. As long as no request appends to the run and only workers do that have read it since, one worker
without affinity finishes it alone: as soon as the bounds of its iterations that it has appended add up to
the number of the items that were assigned (`worker_finishes`). An append that conflicts, or that is given
up, does not count; no step of another worker can take back what counts.
-/

namespace SamtaDashboard

open EventFold Transition

/-! ### Where the batches come from -/

/-- The batch of a worker is that of an iteration over its snapshot, and no run comes twice in a tick. -/
def WorkerPhase.Executes (d : Deployment) (w : Nat) : WorkerPhase → Prop
  | .idle => True
  | .ticking _ runs => runs.Nodup
  | .appending snapshot runs r batch _ _ => (r :: runs).Nodup ∧ ∃ executor state order stamp,
      (runStatesFromEvents snapshot.events).lookup r = some state ∧ state.items.IsOrder order ∧
        (((d.worker w).config executor).advanceRun stamp order r state).2 = batch

/-- The snapshot of a worker that has still to append to the run in its tick. -/
def WorkerPhase.due (r : Uuid) : WorkerPhase → Option Snapshot
  | .idle => none
  | .ticking snapshot runs => if r ∈ runs then some snapshot else none
  | .appending snapshot runs r' .. => if r = r' ∨ r ∈ runs then some snapshot else none

section phases

variable {d : Deployment} {s s' : World} {a : Action} {w : Nat} {r : Uuid}

theorem World.executes_of_reach {guard : World → Action → Prop} (h : Reach (interleaving d) guard s)
    (w : Nat) : (s.workers w).Executes d w := by
  refine h.invariant (I := fun s : World => (s.workers w).Executes d w) ?_ ?_
  · rintro s rfl
    trivial
  · intro s a s' hs hstep _
    rcases hstep.worker w with hsame | hmove
    · rwa [hsame]
    · revert hmove
      generalize s'.workers w = phase
      intro hmove
      cases hmove with
      | load _ _ horder => exact horder.1
      | execute hphase hlookup horder =>
        rw [hphase] at hs
        unfold afterIteration
        split
        · exact (List.nodup_cons.mp hs).2
        · exact ⟨hs, _, _, _, _, hlookup, horder, rfl⟩
      | again hphase =>
        rw [hphase] at hs
        exact hs
      | done hphase =>
        rw [hphase] at hs
        exact (List.nodup_cons.mp hs.1).2
      | stop => trivial

theorem World.Inv.due (h : s.Inv d) {snapshot : Snapshot} (hdue : snapshot ∈ (s.workers w).due r) :
    snapshot.Inv d s.moment := by
  have hworker := h.workers w
  cases hphase : s.workers w with
  | idle =>
    rw [hphase] at hdue
    cases hdue
  | ticking read runs =>
    rw [hphase] at hdue hworker
    obtain ⟨-, hsame⟩ := Option.ite_none_right_eq_some.mp hdue
    exact Option.some.inj hsame ▸ hworker
  | appending read runs r' =>
    rw [hphase] at hdue hworker
    obtain ⟨-, hsame⟩ := Option.ite_none_right_eq_some.mp hdue
    exact Option.some.inj hsame ▸ hworker.1

theorem due_afterFailure {snapshot read : Snapshot} {runs : List Uuid} {r' : Uuid}
    {batch : List EventEnvelope} {retries : Nat}
    (hdue : snapshot ∈ (afterFailure read runs r' batch retries).due r) :
    snapshot = read ∧ (r = r' ∨ r ∈ runs) := by
  cases retries with
  | zero =>
    obtain ⟨hr, hsame⟩ := Option.ite_none_right_eq_some.mp hdue
    exact ⟨(Option.some.inj hsame).symm, Or.inr hr⟩
  | succ retries =>
    obtain ⟨hr, hsame⟩ := Option.ite_none_right_eq_some.mp hdue
    exact ⟨(Option.some.inj hsame).symm, hr⟩

theorem World.Step.due (h : s.Step d a s') (hexec : ∀ w, (s.workers w).Executes d w)
    {snapshot : Snapshot} (hdue : snapshot ∈ (s'.workers w).due r) :
    (a = .loadAll w ∧ snapshot.log = s.log) ∨
      (snapshot ∈ (s.workers w).due r ∧ (a = .append w → s.target a ≠ some r)) := by
  have hset : ∀ (w' : Nat) (phase : WorkerPhase), snapshot ∈ ((s.setWorker w' phase).workers w).due r →
      (w ≠ w' ∧ snapshot ∈ (s.workers w).due r) ∨ (w = w' ∧ snapshot ∈ phase.due r) := by
    intro w' phase hdue
    rw [workers_setWorker] at hdue
    split at hdue
    · next heq => exact Or.inr ⟨heq, hdue⟩
    · next hne => exact Or.inl ⟨hne, hdue⟩
  cases h with
  | pass | decide | number | submit | drop => exact Or.inr ⟨hdue, by rintro ⟨⟩⟩
  | loadAll =>
    rcases hset _ _ hdue with ⟨-, hold⟩ | ⟨rfl, hnew⟩
    · exact Or.inr ⟨hold, by rintro ⟨⟩⟩
    · obtain ⟨-, hsame⟩ := Option.ite_none_right_eq_some.mp hnew
      obtain rfl := Option.some.inj hsame
      exact Or.inl ⟨rfl, rfl⟩
  | @execute _ executor read r' runs state order stamp batch hphase =>
    rcases hset _ _ hdue with ⟨-, hold⟩ | ⟨rfl, hnew⟩
    · exact Or.inr ⟨hold, by rintro ⟨⟩⟩
    · refine Or.inr ⟨?_, by rintro ⟨⟩⟩
      rw [hphase]
      unfold afterIteration at hnew
      split at hnew <;>
        obtain ⟨hr, hsame⟩ := Option.ite_none_right_eq_some.mp hnew <;>
        exact Option.ite_none_right_eq_some.mpr ⟨by simp [hr], hsame⟩
  | readRevision hphase =>
    rcases hset _ _ hdue with ⟨-, hold⟩ | ⟨rfl, hnew⟩
    · exact Or.inr ⟨hold, by rintro ⟨⟩⟩
    · exact Or.inr ⟨by rw [hphase]; exact hnew, by rintro ⟨⟩⟩
  | @append w' read runs r' batch latest retries log' hphase =>
    rcases hset _ _ hdue with ⟨hne, hold⟩ | ⟨rfl, hnew⟩
    · exact Or.inr ⟨hold, fun ha => absurd (Action.append.inj ha).symm hne⟩
    · obtain ⟨hr, hsame⟩ := Option.ite_none_right_eq_some.mp hnew
      refine Or.inr ⟨?_, fun _ htarget => ?_⟩
      · rw [hphase]
        exact Option.ite_none_right_eq_some.mpr ⟨Or.inr hr, hsame⟩
      · have hnodup := hexec w
        simp only [target, hphase, Option.some.injEq] at hnodup htarget
        exact (List.nodup_cons.mp hnodup.1).1 (htarget ▸ hr)
  | loadFailed hphase | conflict hphase =>
    rcases hset _ _ hdue with ⟨-, hold⟩ | ⟨rfl, hnew⟩
    · exact Or.inr ⟨hold, by rintro ⟨⟩⟩
    · obtain ⟨rfl, hr⟩ := due_afterFailure hnew
      refine Or.inr ⟨?_, by rintro ⟨⟩⟩
      rw [hphase]
      exact if_pos hr
  | stop =>
    rcases hset _ _ hdue with ⟨-, hold⟩ | ⟨rfl, hnew⟩
    · exact Or.inr ⟨hold, by rintro ⟨⟩⟩
    · cases hnew

end phases

/-! ### The run since it was left to the workers -/

/-- The step leaves the run to workers that have read the log since it was `base`. -/
def World.LeavesRun (r : Uuid) (base : EventLog) (s : World) : Action → Prop
  | .submit k => s.target (.submit k) ≠ some r
  | .append w => ∀ x ∈ s.batchOf (.append w), x.2.1 = r → base.length ≤ x.1.log.length
  | _ => True

instance (r : Uuid) (base : EventLog) (s : World) : (a : Action) → Decidable (s.LeavesRun r base a)
  | .submit k => inferInstanceAs (Decidable (s.target (.submit k) ≠ some r))
  | .append w => inferInstanceAs (Decidable (∀ x ∈ s.batchOf (.append w), _))
  | .pass _ | .decide .. | .number _ | .drop _ => isTrue trivial
  | .loadAll _ | .execute .. | .readRevision _ | .fail _ | .stop _ => isTrue trivial

/-- What worker `w` gains with an append to the run: the bound of an iteration. -/
def World.gain (d : Deployment) (w : Nat) (r : Uuid) (s : World) : Action → Nat
  | .append w' =>
    if w' = w ∧ s.target (.append w') = some r then (d.worker w).maxItemsPerLoop else 0
  | _ => 0

/-- A run that waits in a reachable world, as its events are read there. -/
structure LeftToWorkers (d : Deployment) (base : World) (r : Uuid) (events : List EventEnvelope)
    (before : RunState) : Prop where
  reachable : Reachable (interleaving d) base
  read : InTimeOrder base.log events
  replay : replayRun (runEvents events r) = some before
  waits : Waits before

/-- What has been appended to the run since, in a log that goes on from `base`. -/
structure Window (base log : EventLog) (r : Uuid) (before : RunState) (rows : List EventEnvelope) :
    Prop where
  stream : stream log r = stream base r ++ rows
  workers : OfWorkers r rows
  later : ∀ e ∈ SamtaDashboard.stream base r, ∀ b ∈ rows, e.occurredAt ≤ b.occurredAt
  completed : (∃ p ∈ payloads rows, p.isRunCompleted) → leftOf before rows = ∅

/-- The run is stopped, or the gain has been paid out of the assigned items, some of which were left. -/
def Paid (before : RunState) (n : Nat) (rows : List EventEnvelope) : Prop :=
  Stops rows ∨ (leftOf before rows).card + n ≤ before.assignedItems.card ∧
    (0 < n → n < before.assignedItems.card)

section window

variable {d : Deployment} {base : World} {log : EventLog} {r : Uuid} {before : RunState}
  {events read : List EventEnvelope} {rows rows' : List EventEnvelope}

theorem Window.nil : Window base.log base.log r before [] where
  stream := (List.append_nil _).symm
  workers := .nil
  later := fun _ _ _ hb => absurd hb List.not_mem_nil
  completed := fun h => absurd h.choose_spec.1 List.not_mem_nil

theorem Window.unique (h : Window base.log log r before rows) (h' : Window base.log log r before rows') :
    rows = rows' := List.append_cancel_left (h.stream.symm.trans h'.stream)

theorem Window.of_stream {log' : EventLog} (h : Window base.log log r before rows)
    (hsame : SamtaDashboard.stream log' r = SamtaDashboard.stream log r) :
    Window base.log log' r before rows :=
  { h with stream := hsame.trans h.stream }

theorem Paid.mono {n : Nat} (h : Paid before n rows) (hrows : rows ⊆ rows') : Paid before n rows' :=
  h.imp (Stops.mono · hrows) fun h =>
    ⟨(Nat.add_le_add_right (Finset.card_le_card (leftOf_anti hrows)) n).trans h.1, h.2⟩

/-- Whoever reads the log reads the run as it was and then the rows, by their times. -/
theorem Window.runEvents_eq (h : Window base.log log r before rows)
    (hleft : LeftToWorkers d base r events before) (hwf : WellFormed log) (hread : InTimeOrder log read) :
    runEvents read r = runEvents events r ++ rows.insertionSort timeLe ∧
      ReadAs rows (rows.insertionSort timeLe) := by
  have hwf₀ : WellFormed base.log := (World.Inv.of_reach hleft.reachable).sound.wellFormed
  have hcons : Consecutive 0 (SamtaDashboard.stream base.log r ++ rows) := h.stream ▸ hwf.gapFree r
  have hsorted : ReadAs rows (rows.insertionSort timeLe) :=
    ⟨List.perm_insertionSort _ _, List.pairwise_insertionSort _ _,
      fun a ha b hb => hcons.eq_of_timeLe (List.mem_append_right _ ha) (List.mem_append_right _ hb)⟩
  refine ⟨?_, hsorted⟩
  -- the run was started, so all of its stream counts
  have hgrouped₀ : ∀ e ∈ SamtaDashboard.stream base.log r, e.payload.isGrouped := by
    obtain ⟨e, he, hstarted⟩ := exists_runStarted_of_workspaceId hleft.replay
      (LoopConfig.skips_eq_false.mp hleft.waits.processed).1
    obtain ⟨he, hrun⟩ := List.mem_filter.mp he
    have hmem := hleft.read.perm.subset he
    exact (World.Grouped.of_reach hleft.reachable).tails.stream hwf₀
      (mem_stream.mpr ⟨hmem, hwf₀.resourceId_eq hmem (of_decide_eq_true hrun)⟩) hstarted
  have hgrouped : ∀ e ∈ SamtaDashboard.stream log r, e.payload.isGrouped := by
    rw [h.stream]
    refine List.forall_mem_append.mpr ⟨hgrouped₀, fun e he => ?_⟩
    rw [EventPayload.isGrouped, (h.workers.kind _ (List.mem_map_of_mem he)).1]
    exact Bool.or_true _
  have hperm₀ := hleft.read.runEvents_perm hwf₀ hgrouped₀
  have hperm := hread.runEvents_perm hwf hgrouped
  rw [h.stream] at hperm
  have hperm' := hperm₀.append hsorted.perm
  refine (hperm.trans hperm'.symm).eq_of_pairwise ?_ (hread.sorted.sublist List.filter_sublist) ?_
  · exact fun a b ha hb => hcons.eq_of_timeLe (hperm.subset ha) (hperm'.subset hb)
  · refine List.pairwise_append.mpr ⟨hleft.read.sorted.sublist List.filter_sublist, hsorted.sorted,
      fun e he b hb => ?_⟩
    have he' := hperm₀.subset he
    have hb' := hsorted.perm.subset hb
    exact timeLe_of_lt (h.later e he' b hb') ((List.pairwise_append.mp hcons.pairwise).2.2 e he' b hb')

theorem Window.replayRun_eq (h : Window base.log log r before rows)
    (hleft : LeftToWorkers d base r events before) (hwf : WellFormed log) (hread : InTimeOrder log read) :
    replayRun (runEvents read r) = some ((rows.insertionSort timeLe).foldl RunState.apply before) := by
  rw [(h.runEvents_eq hleft hwf hread).1]
  exact replayRun_append hleft.replay _

end window

/-! ### A batch that is appended -/

section batch

variable {d : Deployment} {base s s' : World} {v : Nat} {r : Uuid} {before : RunState}
  {events batch seen rows more : List EventEnvelope} {snapshot : Snapshot}

theorem BatchCommit.readAs (h : BatchCommit d s s' v snapshot r batch more) (hclock : d.OneClock) :
    ReadAs more more where
  perm := .refl _
  sorted := ((h.stamped.sorted (hclock.monotone _)).and h.appended.consecutive.pairwise).imp
    fun hab => timeLe_of_lt hab.1 hab.2
  unique := fun _ ha _ hb => h.appended.consecutive.eq_of_timeLe ha hb

theorem BatchCommit.ofWorkers (h : BatchCommit d s s' v snapshot r batch more) (hclock : d.OneClock) :
    OfWorkers r more := by
  obtain ⟨executor, state, state', executed, summary, -, hadv⟩ := h.prepared.advanced
  exact .of_batch hadv h.payloads (h.readAs hclock).sorted

theorem BatchCommit.waited (h : BatchCommit d s s' v snapshot r batch more)
    (hleft : LeftToWorkers d base r events before)
    (hseen : Window base.log snapshot.log r before seen) :
    ∃ state, replayRun (runEvents snapshot.events r) = some state ∧ ¬ Stops seen ∧ Waits state ∧
      state.assignedItems = leftOf before seen := by
  obtain ⟨executor, state, state', executed, summary, hstate, hadv⟩ := h.prepared.advanced
  have hwf : WellFormed snapshot.log := h.read.past.sound.wellFormed
  have hread := (hseen.runEvents_eq hleft hwf h.read.order).2
  have hreplay := hseen.replayRun_eq hleft hwf h.read.order
  obtain rfl := Option.some.inj (hstate.symm.trans hreplay)
  have hopen : ¬ Stops seen := by
    intro hstops
    have hrunning := hadv.status_before
    rcases hseen.workers.stopped hread hstops with ⟨hstatus, -⟩ | ⟨hstatus, -⟩ <;>
      exact absurd (hstatus.symm.trans hrunning) (by decide)
  exact ⟨_, hstate, hopen, hseen.workers.waits hread hleft.waits hopen,
    hseen.workers.assignedItems hread⟩

/-- What has been seen is still there, so nothing else is left. -/
theorem Window.leftOf_subset (hseen : Window base.log snapshot.log r before seen)
    (h : Window base.log s.log r before rows) (hread : snapshot.log <+: s.log) :
    leftOf before (rows ++ more) ⊆ leftOf before (seen ++ more) := by
  have hgrown := stream_mono hread r
  rw [hseen.stream, h.stream, List.prefix_append_right_inj] at hgrown
  refine leftOf_anti fun e he => ?_
  rcases List.mem_append.mp he with he | he
  · exact List.mem_append_left _ (hgrown.subset he)
  · exact List.mem_append_right _ he

theorem BatchCommit.window (h : BatchCommit d s s' v snapshot r batch more) (hclock : d.OneClock)
    (hleft : LeftToWorkers d base r events before) (hgrown : base.log <+: snapshot.log)
    (hseen : Window base.log snapshot.log r before seen) (hrows : Window base.log s.log r before rows) :
    Window base.log s'.log r before (rows ++ more) where
  stream := by rw [h.appended.stream_eq, if_pos rfl, hrows.stream, List.append_assoc]
  workers := hrows.workers.append (h.ofWorkers hclock)
  later := fun e he b hb => by
    rcases List.mem_append.mp hb with hb | hb
    · exact hrows.later e he b hb
    · exact hclock.le_of_stamps (h.read.past.sound.stamped e (hgrown.subset (mem_stream.mp he).1))
        h.stamped hb
  completed := by
    rintro ⟨p, hp, hcompletes⟩
    rw [payloads_append] at hp
    refine Finset.subset_empty.mp ?_
    rcases List.mem_append.mp hp with hp | hp
    · rw [← hrows.completed ⟨p, hp, hcompletes⟩]
      exact leftOf_anti (List.subset_append_left _ _)
    · obtain ⟨executor, state, state', executed, summary, hstate, hadv⟩ := h.prepared.advanced
      obtain ⟨_, hreplay, -, -, hassigned⟩ := h.waited hleft hseen
      obtain rfl := Option.some.inj (hstate.symm.trans hreplay)
      have hnone : leftOf before (seen ++ more) = ∅ := by
        rw [leftOf_append hassigned, leftOf_of_completed hadv h.payloads ⟨p, hp, hcompletes⟩]
      rw [← hnone]
      exact hseen.leftOf_subset hrows h.read.past.later.2

end batch

/-! ### One step -/

/-- What worker `w` has gained is paid for in the log, and in what it has read and not yet appended to. -/
structure Progress (base : World) (r : Uuid) (before : RunState) (w n : Nat) (s : World) : Prop where
  grown : base.log <+: s.log
  rows : ∃ rows, Window base.log s.log r before rows ∧ Paid before n rows
  due : ∀ v, ∀ snapshot ∈ (s.workers v).due r, base.log.length ≤ snapshot.log.length →
    ∃ seen, Window base.log snapshot.log r before seen ∧ (v = w → Paid before n seen)

section progress

variable {d : Deployment} {base s s' : World} {a : Action} {r : Uuid} {before : RunState} {w n : Nat}
  {events : List EventEnvelope}

theorem Progress.init (hbase : base.Inv d) : Progress base r before w 0 base := by
  have hpaid : Paid before 0 [] :=
    Or.inr ⟨by rw [leftOf_nil]; exact Nat.le_refl _, fun h => absurd h (Nat.lt_irrefl 0)⟩
  refine ⟨List.prefix_rfl, ⟨[], .nil, hpaid⟩, fun v snapshot hdue hlength => ⟨[], ?_, fun _ => hpaid⟩⟩
  rw [(hbase.due hdue).past.later.2.eq_of_length_le hlength]
  exact .nil

theorem Progress.append (h : Progress base r before w n s) (hclock : d.OneClock)
    (hleft : LeftToWorkers d base r events before) (haffinity : (d.worker w).itemAffinity = false)
    (hexec : ∀ w, (s.workers w).Executes d w) {v v' : Nat} {snapshot : Snapshot}
    {runs : List Uuid} {batch more : List EventEnvelope} {latest : Int} {retries : Nat}
    (hphase : s.workers v = .appending snapshot runs r batch (some latest) retries)
    (hcommit : BatchCommit d s s' v' snapshot r batch more)
    (hlength : base.log.length ≤ snapshot.log.length) :
    ∃ rows, Window base.log s'.log r before rows ∧
      Paid before (n + if v = w then (d.worker w).maxItemsPerLoop else 0) rows := by
  have hdue : snapshot ∈ (s.workers v).due r := by
    rw [hphase]
    exact if_pos (Or.inl rfl)
  obtain ⟨rows, hrows, hpaid⟩ := h.rows
  obtain ⟨seen, hseen, hown⟩ := h.due v snapshot hdue hlength
  have hlater : snapshot.log <+: s.log := hcommit.read.past.later.2
  have hgrown : base.log <+: snapshot.log := List.prefix_of_prefix_length_le h.grown hlater hlength
  refine ⟨rows ++ more, hcommit.window hclock hleft hgrown hseen hrows, ?_⟩
  split
  · next heq =>
    subst heq
    obtain ⟨state, hstate, hopen, hwaits, hassigned⟩ := hcommit.waited hleft hseen
    have hbatch := hexec v
    rw [hphase] at hbatch
    obtain ⟨-, executor, state', order, stamp, hlookup, horder, hbatch⟩ := hbatch
    rw [lookup_runStatesFromEvents, hstate] at hlookup
    obtain rfl := Option.some.inj hlookup
    rcases (hcommit.ofWorkers hclock).stops_or_left (hcommit.readAs hclock) hwaits horder haffinity
      (hcommit.payloads.trans (congrArg payloads hbatch.symm)) with hstops | ⟨hpos, hcard⟩
    · exact Or.inl (hstops.mono (List.subset_append_right _ _))
    · obtain ⟨hspent, -⟩ := (hown rfl).resolve_left hopen
      rw [← leftOf_append hassigned] at hpos hcard
      have hfewer : (leftOf before (rows ++ more)).card ≤ (leftOf before (seen ++ more)).card :=
        Finset.card_le_card (hseen.leftOf_subset hrows hlater)
      rw [hassigned] at hcard
      change _ + (d.worker v).maxItemsPerLoop = _ at hcard
      refine Or.inr ⟨?_, fun _ => ?_⟩ <;> omega
  · exact hpaid.mono (List.subset_append_left _ _)

theorem World.gain_eq_zero (h : a = .append w → s.target a ≠ some r) : s.gain d w r a = 0 := by
  cases a with
  | append v =>
    refine if_neg fun hgain => ?_
    obtain ⟨rfl, htarget⟩ := hgain
    exact h rfl htarget
  | _ => rfl

theorem Progress.rows_step (h : Progress base r before w n s) (hclock : d.OneClock)
    (hleft : LeftToWorkers d base r events before) (haffinity : (d.worker w).itemAffinity = false)
    (hinv : s.Inv d) (hexec : ∀ w, (s.workers w).Executes d w) (hstep : s.Step d a s')
    (hleaves : s.LeavesRun r base.log a) :
    ∃ rows, Window base.log s'.log r before rows ∧ Paid before (n + s.gain d w r a) rows := by
  obtain ⟨rows, hrows, hpaid⟩ := h.rows
  cases a with
  | submit k =>
    obtain ⟨request, draws, ps, revision, seen, hphase, -, -, happ⟩ := hstep.requestAppended hinv
    have hne : r ≠ request.resource draws := by
      rintro rfl
      exact hleaves (by simp only [World.target, hphase])
    exact ⟨rows, hrows.of_stream (by rw [happ.stream_eq, if_neg hne, List.append_nil]), hpaid⟩
  | append v =>
    obtain ⟨snapshot, runs, r', batch, latest, retries, v', more, hphase, hcommit⟩ :=
      hstep.batchCommitted hinv
    have htarget : s.target (.append v) = some r' := by simp only [World.target, hphase]
    have hbatchOf : s.batchOf (.append v) = some (snapshot, r', batch) := by
      simp only [World.batchOf, hphase]
    by_cases hr : r' = r
    · subst hr
      have hgain : s.gain d w r' (.append v) = if v = w then (d.worker w).maxItemsPerLoop else 0 := by
        simp only [World.gain, htarget, and_true]
      rw [hgain]
      exact h.append hclock hleft haffinity hexec hphase hcommit (hleaves _ hbatchOf rfl)
    · have hgain : s.gain d w r (.append v) = 0 :=
        World.gain_eq_zero fun _ hsame => hr (Option.some.inj (htarget.symm.trans hsame))
      rw [hgain]
      refine ⟨rows, hrows.of_stream ?_, hpaid⟩
      rw [hcommit.appended.stream_eq, if_neg (Ne.symm hr), List.append_nil]
  | _ =>
    refine ⟨rows, hrows.of_stream ?_, hpaid⟩
    cases hstep <;> rfl

theorem Progress.step (h : Progress base r before w n s) (hclock : d.OneClock)
    (hleft : LeftToWorkers d base r events before) (haffinity : (d.worker w).itemAffinity = false)
    (hinv : s.Inv d) (hexec : ∀ w, (s.workers w).Executes d w) (hstep : s.Step d a s')
    (hleaves : s.LeavesRun r base.log a) : Progress base r before w (n + s.gain d w r a) s' := by
  refine ⟨h.grown.trans (hstep.log_mono hinv),
    h.rows_step hclock hleft haffinity hinv hexec hstep hleaves, fun v snapshot hdue hlength => ?_⟩
  rcases hstep.due hexec hdue with ⟨rfl, hlog⟩ | ⟨hold, hopen⟩
  · -- what a worker reads now has paid for what has been gained by now
    obtain ⟨rows, hrows, hpaid⟩ := h.rows
    exact ⟨rows, hlog ▸ hrows, fun _ => hpaid⟩
  · obtain ⟨seen, hseen, hpaid⟩ := h.due v snapshot hold hlength
    refine ⟨seen, hseen, fun heq => ?_⟩
    subst heq
    rw [World.gain_eq_zero hopen]
    exact hpaid rfl

theorem Progress.of_drains (hclock : d.OneClock) (hleft : LeftToWorkers d base r events before)
    (haffinity : (d.worker w).itemAffinity = false)
    (hrun : Drains (interleaving d) (World.LeavesRun r base.log) (World.gain d w r) base n s) :
    Reachable (interleaving d) s ∧ Progress base r before w n s := by
  refine hrun.counted (I := fun n s => Reachable (interleaving d) s ∧ Progress base r before w n s)
    ⟨hleft.reachable, .init (World.Inv.of_reach hleft.reachable)⟩ fun n s a s' hs hstep hleaves => ?_
  exact ⟨.step a hs.1 hstep trivial, hs.2.step hclock hleft haffinity (World.Inv.of_reach hs.1)
    (World.executes_of_reach hs.1) hstep hleaves⟩

/-- In an interleaving on one clock a run waits, with its items assigned or completed. As long as no request
appends to it and only workers do that have read the log since, a worker without affinity finishes it with
the appends of as many iterations as their bounds need to add up to the number of the assigned items,
whatever the other workers do: it is completed and no item is assigned, or it is blocked by a failed one. -/
theorem worker_finishes {events' : List EventEnvelope} (hclock : d.OneClock)
    (h : Reachable (interleaving d) base) (hload : LoadAll base.log (.ok events))
    (hbefore : (runStatesFromEvents events).lookup r = some before) (hwaits : Waits before)
    (haffinity : (d.worker w).itemAffinity = false)
    (hrun : Drains (interleaving d) (World.LeavesRun r base.log) (World.gain d w r) base n s)
    (hn : max 1 before.assignedItems.card ≤ n) (hload' : LoadAll s.log (.ok events')) :
    ∃ rows after, stream s.log r = stream base.log r ++ rows ∧
      (runStatesFromEvents events').lookup r = some after ∧
      (after.status = "completed" ∧ after.assignedItems = ∅ ∧ (∃ p ∈ payloads rows, p.isRunCompleted) ∨
        after.status = "blocked" ∧ ∃ p ∈ payloads rows, p.failsItem) := by
  rw [lookup_runStatesFromEvents] at hbefore
  have hleft : LeftToWorkers d base r events before := ⟨h, (loadAll_eq_ok.mp hload).1, hbefore, hwaits⟩
  obtain ⟨hreach, hprogress⟩ := Progress.of_drains hclock hleft haffinity hrun
  obtain ⟨rows, hrows, hpaid⟩ := hprogress.rows
  have hwf : WellFormed s.log := (World.Inv.of_reach hreach).sound.wellFormed
  have horder := (loadAll_eq_ok.mp hload').1
  have hread := (hrows.runEvents_eq hleft hwf horder).2
  have hstops : Stops rows := hpaid.resolve_right fun hopen => by
    have hfewer := hopen.2 (by omega)
    omega
  refine ⟨rows, (rows.insertionSort timeLe).foldl RunState.apply before, hrows.stream, ?_, ?_⟩
  · rw [lookup_runStatesFromEvents]
    exact hrows.replayRun_eq hleft hwf horder
  · refine (hrows.workers.stopped hread hstops).imp_left fun hcompleted =>
      ⟨hcompleted.1, ?_, hcompleted.2⟩
    rw [hrows.workers.assignedItems hread]
    exact hrows.completed hcompleted.2

end progress

/-! ### Two workers over a run with three items -/

/-- What some actions gain, one after the other. -/
def World.gained (d : Deployment) (w : Nat) (r : Uuid) : World → List Action → Nat
  | _, [] => 0
  | s, a :: actions => s.gain d w r a + (s.next d a).gained d w r actions

theorem World.drains_after {d : Deployment} {guard : World → Action → Prop} {base s : World} {w n : Nat}
    {r : Uuid} (h : Drains (interleaving d) guard (World.gain d w r) base n s) {actions : List Action}
    (henabled : s.Enabled d guard actions) :
    Drains (interleaving d) guard (World.gain d w r) base (n + s.gained d w r actions)
      (s.after d actions) := by
  induction actions generalizing n s with
  | nil => exact h
  | cons a actions ih =>
    obtain ⟨hplay, hguard, hrest⟩ := henabled
    obtain ⟨s', hs'⟩ := Option.isSome_iff_exists.mp hplay
    have hnext : s.next d a = s' := by rw [next, hs', Option.getD_some]
    rw [hnext] at hrest
    rw [after, List.foldl_cons, gained, hnext, ← Nat.add_assoc]
    exact ih (.step a h (World.step_of_play hs') hguard) hrest

def threeItemWorld : World :=
  World.init.after sampleDeployment
    (requestActions 0 (.startRun sampleWorkspace "" (some 3) (some 1)) (.at sampleRun 100 0))

/-- Two workers execute the same two items, the second one appends them first, and the first one goes on
alone. -/
def twoWorkerActions : List Action :=
  executeActions 0 ++ executeActions 1 ++ appendActions 1 ++ appendActions 0 ++ [.stop 0] ++
    executeActions 0 ++ appendActions 0

theorem worker_finishes_twoWorkers :
    ∃ rows after, stream (threeItemWorld.after sampleDeployment twoWorkerActions).log sampleRun =
        stream threeItemWorld.log sampleRun ++ rows ∧
      (runStatesFromEvents ((threeItemWorld.after sampleDeployment
        twoWorkerActions).log.insertionSort timeLe)).lookup sampleRun = some after ∧
      (after.status = "completed" ∧ after.assignedItems = ∅ ∧ (∃ p ∈ payloads rows, p.isRunCompleted) ∨
        after.status = "blocked" ∧ ∃ p ∈ payloads rows, p.failsItem) := by
  have hreach : Reachable (interleaving sampleDeployment) threeItemWorld :=
    World.reach_after (.init rfl) (by decide +kernel)
  have hload : LoadAll threeItemWorld.log (.ok (threeItemWorld.log.insertionSort timeLe)) :=
    loadAll_eq_ok.mpr ⟨inTimeOrder_insertionSort _, by decide +kernel⟩
  obtain ⟨before, hbefore⟩ : ∃ before, (runStatesFromEvents
      (threeItemWorld.log.insertionSort timeLe)).lookup sampleRun = some before :=
    Option.isSome_iff_exists.mp (by decide +kernel)
  have hvalues : ∀ state ∈ (runStatesFromEvents
      (threeItemWorld.log.insertionSort timeLe)).lookup sampleRun,
      LoopConfig.skips state = false ∧ state.assignedItems.card = 3 ∧
        ∀ item ∈ state.items.values, item.status = .assigned := by decide +kernel
  obtain ⟨hskips, hcard, hitems⟩ := hvalues before hbefore
  have hwaits : Waits before := by
    refine ⟨hskips, fun i status hi => Or.inl ?_⟩
    obtain ⟨item, hitem, rfl⟩ := Option.map_eq_some_iff.mp hi
    exact hitems item (HashMap.mem_values.mpr ⟨i, hitem⟩)
  have henabled : threeItemWorld.Enabled sampleDeployment
      (World.LeavesRun sampleRun threeItemWorld.log) twoWorkerActions := by decide +kernel
  have hgained : threeItemWorld.gained sampleDeployment 0 sampleRun twoWorkerActions = 4 := by
    decide +kernel
  have hrun := World.drains_after (w := 0) (r := sampleRun) .refl henabled
  rw [hgained] at hrun
  exact worker_finishes sampleDeployment_oneClock hreach hload hbefore hwaits rfl hrun
    (by rw [hcard]; decide) (loadAll_eq_ok.mpr ⟨inTimeOrder_insertionSort _, by decide +kernel⟩)

end SamtaDashboard

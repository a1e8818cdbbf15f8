import SamtaDashboard.System.Interleaving

/-!
# What is committed in an interleaving

`World.Inv` says what every process knows of the past: what it read is the log of an earlier moment,
and what it is going to append is admissible. From it, `World.Step.commit` says what a step does to
the log: nothing, or it appends the batch of a request to the stream that the request has numbered, or
the batch that a worker executed on its snapshot.
-/

namespace SamtaDashboard

open EventFold Transition

/-! ### The past -/

def Moment.Later (m m' : Moment) : Prop := m.now ≤ m'.now ∧ m.log <+: m'.log

theorem Moment.Later.refl (m : Moment) : m.Later m := ⟨le_refl _, List.prefix_rfl⟩

theorem Moment.Later.trans {m m' m'' : Moment} (h : m.Later m') (h' : m'.Later m'') :
    m.Later m'' := ⟨le_trans h.1 h'.1, h.2.trans h'.2⟩

/-- The process is of a kind that writes such events. -/
def Process.writes : Process → EventPayload → Bool
  | .request _, p => p.isOrchestrated
  | .worker _, p => !p.isOrchestrated

/-- The event was stamped, at a time that has passed, by a process that writes such events. -/
def Deployment.Stamps (d : Deployment) (now : Time) (e : EventEnvelope) : Prop :=
  ∃ p : Process, p.writes e.payload ∧ ∃ t ≤ now, e.occurredAt = d.clock p t

theorem Deployment.Stamps.mono {d : Deployment} {now now' : Time} {e : EventEnvelope}
    (h : d.Stamps now e) (hle : now ≤ now') : d.Stamps now' e := by
  obtain ⟨p, hp, t, ht, heq⟩ := h
  exact ⟨p, hp, t, le_trans ht hle, heq⟩

/-- What holds of the log at every moment. -/
structure Deployment.Sound (d : Deployment) (m : Moment) : Prop where
  wellFormed : WellFormed m.log
  stamped : ∀ e ∈ m.log, d.Stamps m.now e

/-- `seen` is an earlier moment. -/
structure Past (d : Deployment) (m seen : Moment) : Prop where
  later : seen.Later m
  sound : d.Sound seen

section past

variable {d : Deployment} {m m' seen : Moment} {log log' : EventLog}

theorem Past.mono (h : Past d m seen) (hlater : m.Later m') : Past d m' seen :=
  ⟨h.later.trans hlater, h.sound⟩

theorem AssignedIn.mono {r i : Uuid} (h : AssignedIn log r i) (hread : log <+: log') :
    AssignedIn log' r i := by
  obtain ⟨rows, rfl⟩ := hread
  exact h.append rows

theorem stream_mono (h : log <+: log') (r : Uuid) : stream log r <+: stream log' r := by
  obtain ⟨rows, rfl⟩ := h
  rw [stream_append]
  exact List.prefix_append _ _

end past

namespace Deployment.StampedBetween

variable {d : Deployment} {p : Process} {since upTo upTo' : Time} {events : List EventEnvelope}

theorem mono (h : d.StampedBetween p since upTo events) (hle : upTo ≤ upTo') :
    d.StampedBetween p since upTo' events := by
  obtain ⟨moments, hsorted, hrange, heq⟩ := h
  exact ⟨moments, hsorted, fun t ht => ⟨(hrange t ht).1, le_trans (hrange t ht).2 hle⟩, heq⟩

theorem exists_time (h : d.StampedBetween p since upTo events) {e : EventEnvelope}
    (he : e ∈ events) : ∃ t, since ≤ t ∧ t ≤ upTo ∧ e.occurredAt = d.clock p t := by
  obtain ⟨moments, -, hrange, heq⟩ := h
  have hmem : e.occurredAt ∈ moments.map (d.clock p) :=
    heq ▸ List.mem_map_of_mem (f := EventEnvelope.occurredAt) he
  obtain ⟨t, ht, hclock⟩ := List.mem_map.mp hmem
  exact ⟨t, (hrange t ht).1, (hrange t ht).2, hclock.symm⟩

theorem sorted (h : d.StampedBetween p since upTo events) (hclock : Monotone (d.clock p)) :
    events.Pairwise (·.occurredAt ≤ ·.occurredAt) := by
  obtain ⟨moments, hsorted, -, heq⟩ := h
  have htimes : (moments.map (d.clock p)).Pairwise (· ≤ ·) :=
    List.pairwise_map.mpr (hsorted.imp fun hle => hclock hle)
  rw [← heq, List.pairwise_map] at htimes
  exact htimes

theorem stamps (h : d.StampedBetween p since upTo events)
    (hwrites : ∀ q ∈ payloads events, p.writes q) : ∀ e ∈ events, d.Stamps upTo e := by
  intro e he
  obtain ⟨t, -, ht, heq⟩ := h.exists_time he
  exact ⟨p, hwrites _ (List.mem_map_of_mem he), t, ht, heq⟩

end Deployment.StampedBetween

/-! ### One clock -/

section clock

variable {d : Deployment}

theorem Deployment.OneClock.monotone (h : d.OneClock) (p : Process) : Monotone (d.clock p) :=
  fun t t' => h p p t t'

theorem Deployment.OneClock.le_of_stamps (h : d.OneClock) {since upTo : Time} {p : Process}
    {e b : EventEnvelope} {events : List EventEnvelope} (he : d.Stamps since e)
    (hevents : d.StampedBetween p since upTo events) (hb : b ∈ events) :
    e.occurredAt ≤ b.occurredAt := by
  obtain ⟨q, -, t, ht, heq⟩ := he
  obtain ⟨t', ht', -, heq'⟩ := hevents.exists_time hb
  rw [heq, heq']
  exact h q p t t' (le_trans ht ht')

end clock

/-! ### What a process is going to append -/

/-- What a request has decided to append can be appended to every later log. -/
structure Decided (log : EventLog) (request : Request) (draws : Draws) (ps : List EventPayload) :
    Prop where
  nonempty : ps ≠ []
  orchestrated : ∀ p ∈ ps, p.isOrchestrated
  finite : ∀ p ∈ ps, p.costIsFinite
  admissible : ∀ log', log <+: log' → request.New draws log' →
    Admissible log' (request.resource draws) ps

theorem Decided.mono {log log' : EventLog} {request : Request} {draws : Draws}
    {ps : List EventPayload} (h : Decided log request draws ps) (hread : log <+: log') :
    Decided log' request draws ps :=
  ⟨h.nonempty, h.orchestrated, h.finite, fun log'' hread' => h.admissible log'' (hread.trans hread')⟩

theorem orchestrated_of_mem_payloads {r : Uuid} {assigned : Assignments} {p : EventPayload}
    (h : p ∈ assigned.payloads r) : p.isOrchestrated ∧ p.costIsFinite := by
  obtain ⟨x, -, rfl⟩ := Assignments.mem_payloads h
  exact ⟨rfl, rfl⟩

theorem Request.decided_of_decide {request : Request} {draws : Draws} {log : EventLog}
    {events : List EventEnvelope} {ps : List EventPayload} (hwf : WellFormed log)
    (hreads : request.Reads log events) (h : request.decide draws events = some ps) :
    Decided log request draws ps := by
  have hstatus : ∀ (r : Uuid) (status : String) (reason : Option String),
      status ∈ EventPayload.controlStatuses →
      statusChange r status reason events = some ps → ps ≠ [] ∧ (∀ p ∈ ps, p.isOrchestrated) ∧
        (∀ p ∈ ps, p.costIsFinite) ∧ ∀ log', Admissible log' r ps := by
    intro r status reason hstatus hchange
    unfold statusChange at hchange
    split at hchange
    · cases hchange
    · obtain rfl := Option.some.inj hchange
      exact ⟨List.cons_ne_nil _ _, List.forall_mem_singleton.mpr rfl,
        List.forall_mem_singleton.mpr rfl, fun log' => admissible_statusChange hstatus reason⟩
  cases request with
  | createWorkspace name | createAgentProfile name role =>
    obtain rfl := Option.some.inj h
    exact ⟨List.cons_ne_nil _ _, List.forall_mem_singleton.mpr rfl,
      List.forall_mem_singleton.mpr rfl, fun _ _ _ =>
        admissible_single (fun _ hr => nomatch hr) rfl rfl rfl⟩
  | startRun workspaceId objective targetItemCount agentCount =>
    obtain rfl := Option.some.inj h
    refine ⟨List.cons_ne_nil _ _, ?_, ?_, fun log' _ hnew =>
      admissible_startRun hnew.1 hnew.2 _ _ _ _⟩ <;>
    rw [startRunPayloads_eq, List.forall_mem_cons]
    · exact ⟨rfl, fun p hp => (orchestrated_of_mem_payloads hp).1⟩
    · exact ⟨rfl, fun p hp => (orchestrated_of_mem_payloads hp).2⟩
  | pauseRun r | resumeRun r | cancelRun r =>
    obtain ⟨hne, horch, hfinite, hadm⟩ := hstatus r _ _ (by decide) h
    exact ⟨hne, horch, hfinite, fun log' _ _ => hadm log'⟩
  | retryRun order r =>
    have hevents : events = stream log r := (hwf.gapFree.load_eq_ok.mp hreads.1).1
    obtain ⟨-, -, -, rfl⟩ := retryPayloads_eq_some.mp h
    refine ⟨List.cons_ne_nil _ _,
      List.forall_mem_cons.mpr ⟨rfl, fun p hp => (orchestrated_of_mem_payloads hp).1⟩,
      List.forall_mem_cons.mpr ⟨rfl, fun p hp => (orchestrated_of_mem_payloads hp).2⟩,
      fun log' hread _ => ?_⟩
    refine admissible_cons_assignments (admissible_statusChange (by decide) _) fun x hx => ?_
    have hfirst := List.mem_map_of_mem (f := Prod.fst) hx
    rw [map_fst_retryAssignments] at hfirst
    exact Or.inl ((assignedIn_of_retried hwf (fun e he => hevents ▸ he) hfirst).mono hread)

/-- The batch comes from an iteration of worker `w` on a run as it stands in the snapshot, stamped
since the snapshot. -/
structure Prepared (d : Deployment) (m : Moment) (w : Nat) (snapshot : Snapshot) (r : Uuid)
    (batch : List EventEnvelope) : Prop where
  advanced : ∃ executor state state' executed summary,
    replayRun (runEvents snapshot.events r) = some state ∧
      Advanced ((d.worker w).config executor) r state state' batch executed summary
  stamped : d.StampedBetween (.worker w) snapshot.now m.now batch

/-- The snapshot is the log of an earlier moment in the order of the times. -/
structure Snapshot.Inv (d : Deployment) (m : Moment) (snapshot : Snapshot) : Prop where
  past : Past d m snapshot.toMoment
  order : InTimeOrder snapshot.log snapshot.events

section prepared

variable {d : Deployment} {m m' : Moment} {w : Nat} {snapshot : Snapshot} {r : Uuid}
  {batch : List EventEnvelope}

theorem Prepared.mono (h : Prepared d m w snapshot r batch) (hlater : m.Later m') :
    Prepared d m' w snapshot r batch :=
  ⟨h.advanced, h.stamped.mono hlater.1⟩

theorem Snapshot.Inv.mono (h : snapshot.Inv d m) (hlater : m.Later m') : snapshot.Inv d m' :=
  ⟨h.past.mono hlater, h.order⟩

theorem Snapshot.Inv.mem (h : snapshot.Inv d m) {e : EventEnvelope} (he : e ∈ snapshot.events) :
    e ∈ snapshot.log := h.order.perm.subset he

theorem Snapshot.Inv.assignedIn (h : snapshot.Inv d m) {config : LoopConfig}
    {state state' : RunState} {executed : List (Uuid × Outcome)} {summary : Option String}
    (hstate : replayRun (runEvents snapshot.events r) = some state)
    (hadv : Advanced config r state state' batch executed summary) {x : Uuid × Outcome}
    (hx : x ∈ executed) : AssignedIn snapshot.log r x.1 :=
  hadv.assignedIn h.past.sound.wellFormed (fun _ => h.mem) hstate x hx

/-- What a worker has read last is, of all events of the run that write it, the last in the order of
the times. -/
theorem Snapshot.Inv.exists_lastWrite (h : snapshot.Inv d m) {V : Type}
    {w : EventPayload → Option V} {v : V}
    (hlast : lastWrite w (payloads (runEvents snapshot.events r)) = some v) :
    ∃ e ∈ stream snapshot.log r, w e.payload = some v ∧
      ∀ x ∈ stream snapshot.log r, runIdForEvent x ≠ none → w x.payload ≠ none → timeLe x e := by
  have hwf := h.past.sound.wellFormed
  rw [← lastWrite_payloads] at hlast
  obtain ⟨pre, e, post, hread, he, hpost⟩ := lastWrite_eq_some.mp hlast
  have hmem : e ∈ runEvents snapshot.events r := by simp [hread]
  obtain ⟨hmem, hrun⟩ := List.mem_filter.mp hmem
  refine ⟨e, mem_stream.mpr ⟨h.mem hmem, hwf.resourceId_eq (h.mem hmem) (by simpa using hrun)⟩, he,
    fun x hx hgrouped hwrites => ?_⟩
  have hxread : x ∈ runEvents snapshot.events r :=
    List.mem_filter.mpr ⟨h.order.perm.mem_iff.mpr (mem_stream.mp hx).1,
      decide_eq_true (hwf.runIdForEvent_eq hx hgrouped)⟩
  have hsorted : (runEvents snapshot.events r).Pairwise timeLe :=
    h.order.sorted.sublist List.filter_sublist
  rw [hread] at hxread hsorted
  rcases List.mem_append.mp hxread with hbefore | hrest
  · exact (List.pairwise_append.mp hsorted).2.2 x hbefore e List.mem_cons_self
  · rcases List.mem_cons.mp hrest with rfl | hafter
    · exact Or.inr ⟨rfl, le_refl _⟩
    · exact absurd (hpost x hafter) hwrites

theorem Prepared.admissible (h : Prepared d m w snapshot r batch) (hsnapshot : snapshot.Inv d m) :
    Admissible m.log r (payloads batch) := by
  obtain ⟨executor, state, state', executed, summary, hstate, hadv⟩ := h.advanced
  exact admissible_batch hadv fun x hx =>
    (hsnapshot.assignedIn hstate hadv hx).mono hsnapshot.past.later.2

theorem Prepared.not_orchestrated (h : Prepared d m w snapshot r batch) :
    ∀ p ∈ payloads batch, p.isOrchestrated = false := by
  obtain ⟨executor, state, state', executed, summary, -, hadv⟩ := h.advanced
  intro p hp
  rw [hadv.payloads] at hp
  rcases List.mem_append.mp hp with hp | hp
  · obtain ⟨x, -, hp⟩ := mem_executedPayloads hp
    exact EventPayload.isOrchestrated_of_isExecution (mem_outcome_payloads _ _ _ _ hp).2.2
  · obtain ⟨text, -, rfl⟩ := List.mem_map.mp hp
    rfl

end prepared

/-! ### The invariant -/

def RequestPhase.Inv (d : Deployment) (m : Moment) : RequestPhase → Prop
  | .idle => True
  | .decided request draws ps => Decided m.log request draws ps
  | .numbered request draws ps revision seen => Decided m.log request draws ps ∧ Past d m seen ∧
      revision = (stream seen.log (request.resource draws)).length + 1

def WorkerPhase.Inv (d : Deployment) (m : Moment) (w : Nat) : WorkerPhase → Prop
  | .idle => True
  | .ticking snapshot _ => snapshot.Inv d m
  | .appending snapshot _ r batch _ _ => snapshot.Inv d m ∧ Prepared d m w snapshot r batch

structure World.Inv (d : Deployment) (s : World) : Prop where
  sound : d.Sound s.moment
  requests : ∀ k, (s.requests k).Inv d s.moment
  workers : ∀ w, (s.workers w).Inv d s.moment w

section invariant

variable {d : Deployment} {m m' : Moment} {s s' : World} {a : Action}

theorem RequestPhase.Inv.mono {phase : RequestPhase} (h : phase.Inv d m) (hlater : m.Later m') :
    phase.Inv d m' := by
  cases phase with
  | idle => trivial
  | decided request draws ps => exact Decided.mono h hlater.2
  | numbered request draws ps revision seen =>
    exact ⟨h.1.mono hlater.2, h.2.1.mono hlater, h.2.2⟩

theorem RequestPhase.Inv.decided {phase : RequestPhase} (h : phase.Inv d m)
    {x : Request × Draws × List EventPayload} (hx : x ∈ phase.pending?) :
    Decided m.log x.1 x.2.1 x.2.2 := by
  cases phase with
  | idle => cases hx
  | decided request draws ps =>
    obtain rfl := Option.some.inj hx
    exact h
  | numbered request draws ps revision seen =>
    obtain rfl := Option.some.inj hx
    exact h.1

theorem WorkerPhase.Inv.mono {w : Nat} {phase : WorkerPhase} (h : phase.Inv d m w)
    (hlater : m.Later m') : phase.Inv d m' w := by
  cases phase with
  | idle => trivial
  | ticking snapshot runs => exact Snapshot.Inv.mono h hlater
  | appending snapshot runs r batch latest retries => exact ⟨h.1.mono hlater, h.2.mono hlater⟩

theorem World.Inv.init (d : Deployment) : World.init.Inv d :=
  ⟨⟨WellFormed.empty, by simp [World.init, World.moment]⟩, fun _ => trivial, fun _ => trivial⟩

theorem World.Inv.setRequest (h : s.Inv d) (k : Nat) {phase : RequestPhase}
    (hphase : phase.Inv d s.moment) : (s.setRequest k phase).Inv d := by
  refine ⟨h.sound, fun k' => ?_, h.workers⟩
  by_cases hk : k' = k
  · subst hk
    simpa [World.setRequest, World.moment] using hphase
  · simpa [World.setRequest, World.moment, hk] using h.requests k'

theorem World.Inv.setWorker (h : s.Inv d) (w : Nat) {phase : WorkerPhase}
    (hphase : phase.Inv d s.moment w) : (s.setWorker w phase).Inv d := by
  refine ⟨h.sound, h.requests, fun w' => ?_⟩
  by_cases hw : w' = w
  · subst hw
    simpa [World.setWorker, World.moment] using hphase
  · simpa [World.setWorker, World.moment, hw] using h.workers w'

theorem World.Inv.advance (h : s.Inv d) {now : Time} {log : EventLog}
    (hlater : s.moment.Later ⟨now, log⟩) (hsound : d.Sound ⟨now, log⟩) :
    World.Inv d { s with now := now, log := log } :=
  ⟨hsound, fun k => (h.requests k).mono hlater, fun w => (h.workers w).mono hlater⟩

end invariant

/-! ### What a step commits -/

/-- A request commits its batch: the stream is still the one that it read its revision from. -/
structure RequestCommit (d : Deployment) (s s' : World) (k : Nat) (request : Request)
    (draws : Draws) (seen : Moment) (rows : List EventEnvelope) : Prop where
  decided : Decided s.log request draws (payloads rows)
  past : Past d s.moment seen
  unchanged : stream s.log (request.resource draws) = stream seen.log (request.resource draws)
  appended : Appended s.log s'.log (request.resource draws) rows
  stamped : d.StampedBetween (.request k) seen.now s.now rows

/-- A worker commits a batch: the stream may be longer than in its snapshot. -/
structure BatchCommit (d : Deployment) (s s' : World) (w : Nat) (snapshot : Snapshot) (r : Uuid)
    (batch rows : List EventEnvelope) : Prop where
  read : snapshot.Inv d s.moment
  prepared : Prepared d s.moment w snapshot r batch
  appended : Appended s.log s'.log r rows
  payloads : payloads rows = payloads batch
  times : rows.map (·.occurredAt) = batch.map (·.occurredAt)
  stamped : d.StampedBetween (.worker w) snapshot.now s.now rows

/-- What a step does to the log. -/
inductive Commit (d : Deployment) (s : World) (a : Action) (s' : World) : Prop
  | nothing : s.batchOf a = none → s'.log = s.log → Commit d s a s'
  | request {k : Nat} {request : Request} {draws : Draws} {seen : Moment}
      {rows : List EventEnvelope} : a = .submit k →
      RequestCommit d s s' k request draws seen rows → Commit d s a s'
  | batch {w : Nat} {snapshot : Snapshot} {r : Uuid} {batch rows : List EventEnvelope} :
      s.batchOf a = some (snapshot, r, batch) →
      BatchCommit d s s' w snapshot r batch rows → Commit d s a s'

theorem Appended.of_append {log log' : EventLog} {r : Uuid} {events : List EventEnvelope}
    (hgap : GapFree log) (hadm : Admissible log r (payloads events))
    (happ : append log r events = .ok log') : Appended log log' r (events.map (bindTo r)) := by
  obtain ⟨hlog, hcons, -, -⟩ := append_eq_ok.mp happ
  refine ⟨hlog, ?_, fun e he => ?_, ?_⟩
  · rwa [payloads, List.map_map]
  · obtain ⟨x, -, rfl⟩ := List.mem_map.mp he
    rfl
  · rw [consecutive_bindTo, ← hgap.latestRevision_eq]
    exact hcons

theorem revision_of_append_newEvents {log log' : EventLog} {draws : Draws} {r : Uuid}
    {revision : Int} {ps : List EventPayload} (hgap : GapFree log) (hps : ps ≠ [])
    (happ : append log r (newEvents draws r revision ps) = .ok log') :
    revision = (stream log r).length + 1 := by
  obtain ⟨p, rest, rfl⟩ := List.exists_cons_of_ne_nil hps
  obtain ⟨-, hcons, -, -⟩ := append_eq_ok.mp happ
  rw [hgap.latestRevision_eq, newEvents, List.mapIdx_cons] at hcons
  simpa [newEvent, newEnvelope] using hcons.1

section commit

variable {d : Deployment} {s s' : World} {a : Action}

/-- The append of a request succeeds only on the stream that it read its revision from. -/
theorem RequestPhase.Inv.stream_eq {m : Moment} {request : Request} {draws : Draws}
    {ps : List EventPayload} {revision : Int} {seen : Moment} {log' : EventLog}
    (h : (RequestPhase.numbered request draws ps revision seen).Inv d m) (hgap : GapFree m.log)
    (happ : append m.log (request.resource draws)
      (newEvents draws (request.resource draws) revision ps) = .ok log') :
    stream m.log (request.resource draws) = stream seen.log (request.resource draws) := by
  obtain ⟨hdecided, hpast, hrevision⟩ := h
  have hlength := revision_of_append_newEvents hgap hdecided.nonempty happ
  refine ((stream_mono hpast.later.2 _).eq_of_length ?_).symm
  omega

theorem World.Step.commit (h : s.Step d a s') (hinv : s.Inv d) : Commit d s a s' := by
  have hgap := hinv.sound.wellFormed.gapFree
  cases h with
  | @submit k request draws ps revision seen log' hphase hnew hstamped happ =>
    have hnumbered := hinv.requests k
    rw [hphase] at hnumbered
    have hdecided := hnumbered.1
    have happended : Appended s.log log' (request.resource draws)
        ((newEvents draws (request.resource draws) revision ps).map
          (bindTo (request.resource draws))) := by
      refine .of_append hgap ?_ happ
      rw [payloads_newEvents]
      exact hdecided.admissible _ List.prefix_rfl hnew
    rw [map_bindTo_newEvents] at happended
    refine .request rfl ⟨?_, hnumbered.2.1, RequestPhase.Inv.stream_eq hnumbered hgap happ,
      happended, hstamped⟩
    rwa [payloads_newEvents]
  | @append w snapshot runs r batch latest retries log' hphase happ =>
    have hknown := hinv.workers w
    rw [hphase] at hknown
    obtain ⟨hsnapshot, hprepared⟩ := hknown
    have hpayloads : payloads (withRebasedRevisions batch latest) = payloads batch :=
      map_withRebasedRevisions _ fun _ _ => rfl
    have happended : Appended s.log log' r ((withRebasedRevisions batch latest).map (bindTo r)) :=
      .of_append hgap (hpayloads ▸ hprepared.admissible hsnapshot) happ
    have hrows : ∀ {α : Type} (f : EventEnvelope → α),
        (∀ (e : EventEnvelope) (revision : Int), f { e with revision := revision } = f e) →
        (∀ e, f (bindTo r e) = f e) →
        ((withRebasedRevisions batch latest).map (bindTo r)).map f = batch.map f := by
      intro α f hrevision hbind
      rw [List.map_map, show f ∘ bindTo r = f from funext hbind]
      exact map_withRebasedRevisions f hrevision
    have htimes := hrows (·.occurredAt) (fun _ _ => rfl) fun _ => rfl
    refine .batch (by simp only [World.batchOf, hphase]) ⟨hsnapshot, hprepared, happended,
      hrows (·.payload) (fun _ _ => rfl) fun _ => rfl, htimes, ?_⟩
    obtain ⟨moments, hsorted, hrange, heq⟩ := hprepared.stamped
    exact ⟨moments, hsorted, hrange, htimes.trans heq⟩
  | _ => exact .nothing rfl rfl

theorem RequestCommit.sound {k : Nat} {request : Request} {draws : Draws} {seen : Moment}
    {rows : List EventEnvelope} (h : RequestCommit d s s' k request draws seen rows)
    (hsound : d.Sound s.moment) : d.Sound ⟨s.now, s'.log⟩ := by
  refine ⟨h.appended.wellFormed hsound.wellFormed, fun e he => ?_⟩
  rw [h.appended.log_eq] at he
  rcases List.mem_append.mp he with he | he
  · exact hsound.stamped e he
  · exact h.stamped.stamps h.decided.orchestrated e he

theorem BatchCommit.sound {w : Nat} {snapshot : Snapshot} {r : Uuid}
    {batch rows : List EventEnvelope} (h : BatchCommit d s s' w snapshot r batch rows)
    (hsound : d.Sound s.moment) : d.Sound ⟨s.now, s'.log⟩ := by
  refine ⟨h.appended.wellFormed hsound.wellFormed, fun e he => ?_⟩
  rw [h.appended.log_eq] at he
  rcases List.mem_append.mp he with he | he
  · exact hsound.stamped e he
  · refine h.stamped.stamps (fun p hp => ?_) e he
    rw [h.payloads] at hp
    rw [Process.writes, h.prepared.not_orchestrated p hp]
    rfl

theorem Commit.sound (h : Commit d s a s') (hsound : d.Sound s.moment) :
    d.Sound ⟨s.now, s'.log⟩ ∧ s.log <+: s'.log := by
  cases h with
  | nothing _ hlog =>
    rw [hlog]
    exact ⟨hsound, List.prefix_rfl⟩
  | request _ h => exact ⟨h.sound hsound, h.appended.log_eq ▸ List.prefix_append _ _⟩
  | batch _ h => exact ⟨h.sound hsound, h.appended.log_eq ▸ List.prefix_append _ _⟩

end commit

/-! ### The invariant holds in every run -/

section run

variable {d : Deployment} {s s' : World} {a : Action} {guard : World → Action → Prop}

theorem World.Inv.afterIteration (h : s.Inv d) {w : Nat} {snapshot : Snapshot} {r : Uuid}
    {runs : List Uuid} {executor : AgentExecutor} {state : RunState} {order : List Uuid}
    {stamp : Nat → Stamp} {batch : List EventEnvelope}
    (hphase : s.workers w = .ticking snapshot (r :: runs))
    (hlookup : (runStatesFromEvents snapshot.events).lookup r = some state)
    (hbatch : (((d.worker w).config executor).advanceRun stamp order r state).2 = batch)
    (hstamped : d.StampedBetween (.worker w) snapshot.now s.now batch) :
    (afterIteration (d.worker w) snapshot runs r batch).Inv d s.moment w := by
  have hsnapshot := h.workers w
  rw [hphase] at hsnapshot
  unfold SamtaDashboard.afterIteration
  split
  · exact hsnapshot
  · next hne =>
    rw [lookup_runStatesFromEvents] at hlookup
    cases hskips : LoopConfig.skips state with
    | true =>
      rw [LoopConfig.advanceRun_of_skips hskips] at hbatch
      exact absurd (hbatch ▸ rfl) hne
    | false =>
      obtain ⟨summary, hadv⟩ :=
        ((d.worker w).config executor).advanceRun_spec stamp order r hskips
      rw [hbatch] at hadv
      exact ⟨hsnapshot, ⟨executor, state, _, _, summary, hlookup, hadv⟩, hstamped⟩

theorem World.Inv.afterFailure {m : Moment} {w : Nat} {snapshot : Snapshot} {runs : List Uuid}
    {r : Uuid} {batch : List EventEnvelope} {latest : Option Int} {retries : Nat}
    (h : (WorkerPhase.appending snapshot runs r batch latest retries).Inv d m w) :
    (afterFailure snapshot runs r batch retries).Inv d m w := by
  cases retries with
  | zero => exact h.1
  | succ retries => exact h

theorem World.Step.inv (h : s.Step d a s') (hinv : s.Inv d) : s'.Inv d := by
  obtain ⟨hsound, hread⟩ := (h.commit hinv).sound hinv.sound
  cases h with
  | pass hle =>
    refine hinv.advance ⟨hle, List.prefix_rfl⟩ ⟨hinv.sound.wellFormed, fun e he => ?_⟩
    exact (hinv.sound.stamped e he).mono hle
  | @decide k request draws events ps hphase hreads _ hdecide =>
    exact hinv.setRequest k (request.decided_of_decide hinv.sound.wellFormed hreads hdecide)
  | @number k request draws ps revision hphase hrevision =>
    have hdecided := hinv.requests k
    rw [hphase] at hdecided
    exact hinv.setRequest k ⟨hdecided, ⟨.refl _, hinv.sound⟩,
      (hinv.sound.wellFormed.gapFree.nextRevision_eq_ok.mp hrevision).1⟩
  | @submit k =>
    have hidle : RequestPhase.Inv d s.moment .idle := trivial
    exact (hinv.setRequest k hidle).advance ⟨le_refl _, hread⟩ hsound
  | @drop k => exact hinv.setRequest k trivial
  | @loadAll w events runs hphase hload =>
    exact hinv.setWorker w ⟨⟨.refl _, hinv.sound⟩, (loadAll_eq_ok.mp hload).1⟩
  | @execute w executor snapshot r runs state order stamp batch hphase hlookup _ hbatch hstamped =>
    exact hinv.setWorker w (hinv.afterIteration hphase hlookup hbatch hstamped)
  | @readRevision w snapshot runs r batch events retries hphase =>
    have hknown := hinv.workers w
    rw [hphase] at hknown
    exact hinv.setWorker w hknown
  | @append w snapshot runs r batch latest retries log' hphase =>
    have hknown := hinv.workers w
    rw [hphase] at hknown
    have hticking : WorkerPhase.Inv d s.moment w (.ticking snapshot runs) := hknown.1
    exact (hinv.setWorker w hticking).advance ⟨le_refl _, hread⟩ hsound
  | @loadFailed w snapshot runs r batch retries error hphase =>
    have hknown := hinv.workers w
    rw [hphase] at hknown
    exact hinv.setWorker w (World.Inv.afterFailure hknown)
  | @conflict w snapshot runs r batch latest retries error hphase =>
    have hknown := hinv.workers w
    rw [hphase] at hknown
    exact hinv.setWorker w (World.Inv.afterFailure hknown)
  | @stop w => exact hinv.setWorker w trivial

theorem World.Inv.of_reach (h : Reach (interleaving d) guard s) : s.Inv d :=
  h.invariant (by rintro s rfl; exact .init d) fun _ _ _ hinv hstep _ => hstep.inv hinv

theorem World.Step.log_mono (h : s.Step d a s') (hinv : s.Inv d) : s.log <+: s'.log :=
  ((h.commit hinv).sound hinv.sound).2

theorem log_invariant {I : EventLog → Prop}
    (h : Reach (interleaving d) guard s) (hempty : I [])
    (hcommit : ∀ s a s', s.Inv d → I s.log → guard s a → Commit d s a s' → I s'.log) : I s.log := by
  refine h.invariant_of (K := World.Inv d) (I := fun s => I s.log)
    (fun _ => World.Inv.of_reach) ?_ ?_
  · rintro s rfl
    exact hempty
  · exact fun s a s' hinv hI hstep hguard => hcommit s a s' hinv hI hguard (hstep.commit hinv)

end run

end SamtaDashboard

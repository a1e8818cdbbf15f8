import SamtaDashboard.System.Ownership

/-!
# Affinity divides the items among the workers

With `item_affinity` a worker executes only items whose replayed agent it is, and signs all events of
its batches itself. Its `WorkItemStarted` names the agent again, and a retry assigns an item to the
agent that it finds, so all events of an item name the agent of its first assignment
(`AgentsAgree`). Hence only one worker ever executes an item, and no completion is overtaken by
another one (`affinity_exclusive`).
-/

namespace SamtaDashboard

open EventFold Transition

/-! ### The agents of an item -/

/-- Some event of the log names `agentId` as the agent of item `i`. -/
def AgentOf (log : EventLog) (i agentId : Uuid) : Prop :=
  ∃ e ∈ log, e.payload.itemAgent? i = some agentId

/-- All events that name an agent of an item name the same one. -/
def AgentsAgree (log : EventLog) : Prop :=
  ∀ i agentId agentId', AgentOf log i agentId → AgentOf log i agentId' → agentId = agentId'

/-- The agent of the item's first assignment. -/
def originalAgent (log : EventLog) (i : Uuid) : Option Uuid :=
  log.findSome? fun e => e.payload.assignee? i

section agents

variable {log rows : EventLog} {i agentId : Uuid}

theorem AgentOf.mono {log' : EventLog} (h : AgentOf log i agentId) (hread : log <+: log') :
    AgentOf log' i agentId := by
  obtain ⟨e, he, hagent⟩ := h
  exact ⟨e, hread.subset he, hagent⟩

theorem AgentOf.of_stream {r : Uuid} (h : AgentOf (stream log r) i agentId) : AgentOf log i agentId := by
  obtain ⟨e, he, hagent⟩ := h
  exact ⟨e, (mem_stream.mp he).1, hagent⟩

theorem agentOf_append :
    AgentOf (log ++ rows) i agentId ↔ AgentOf log i agentId ∨ AgentOf rows i agentId := by
  simp [AgentOf, or_and_right, exists_or]

theorem AgentsAgree.append (h : AgentsAgree log)
    (hrows : ∀ i agentId, AgentOf rows i agentId → AgentOf log i agentId ∨
      (∀ e ∈ log, e.payload.itemId? ≠ some i) ∧ ∀ agentId', AgentOf rows i agentId' →
        agentId' = agentId) : AgentsAgree (log ++ rows) := by
  have hnew : ∀ {i agentId}, (∀ e ∈ log, e.payload.itemId? ≠ some i) → ¬ AgentOf log i agentId := by
    rintro i agentId hfresh ⟨e, he, hagent⟩
    exact hfresh e he (EventPayload.itemId?_of_itemAgent? (by rw [hagent]; simp))
  intro i a b ha hb
  rw [agentOf_append] at ha hb
  have hold : ∀ {c}, AgentOf log i c ∨ AgentOf rows i c → AgentOf log i c ∨
      (∀ e ∈ log, e.payload.itemId? ≠ some i) ∧ ∀ c', AgentOf rows i c' → c' = c :=
    fun hc => hc.elim Or.inl (hrows i _)
  rcases hold ha with ha' | ⟨hfresh, hunique⟩
  · rcases hold hb with hb' | ⟨hfresh, -⟩
    · exact h i a b ha' hb'
    · exact absurd ha' (hnew hfresh)
  · exact (hunique b (hb.resolve_left (hnew hfresh))).symm

theorem AgentsAgree.originalAgent_eq (h : AgentsAgree log) (hwf : WellFormed log)
    (hagent : AgentOf log i agentId) : originalAgent log i = some agentId := by
  obtain ⟨e, he, hwrite⟩ := hagent
  obtain ⟨t, ht, hassigns⟩ := hwf.assigned e he i
    (EventPayload.itemId?_of_itemAgent? (by rw [hwrite]; simp))
  have hsome : originalAgent log i ≠ none := by
    intro hnone
    have := List.findSome?_eq_none_iff.mp hnone t (mem_stream.mp ht).1
    cases hpayload : t.payload <;> simp_all [EventPayload.assigns, EventPayload.assignee?]
  obtain ⟨original, horiginal⟩ := Option.ne_none_iff_exists'.mp hsome
  obtain ⟨x, hx, hassignee⟩ := List.exists_of_findSome?_eq_some horiginal
  have hfirst : AgentOf log i original := by
    refine ⟨x, hx, ?_⟩
    cases hpayload : x.payload <;> simp_all [EventPayload.assignee?, EventPayload.itemAgent?]
  rw [horiginal, h i original agentId hfirst ⟨e, he, hwrite⟩]

end agents

/-! ### What requests and workers write -/

/-- The workers are those below `n`, and the ids that a `start_run` draws for its items are pairwise
distinct. -/
def Fleet (n : Nat) : Action → Prop
  | .loadAll w => w < n
  | .decide _ (.startRun _ objective targetItemCount agentCount) draws =>
    ((plannedAssignments draws objective targetItemCount agentCount).map (·.1)).Nodup
  | _ => True

instance (n : Nat) : (a : Action) → Decidable (Fleet n a)
  | .loadAll w => inferInstanceAs (Decidable (w < n))
  | .decide _ (.startRun _ objective targetItemCount agentCount) draws =>
    inferInstanceAs (Decidable
      ((plannedAssignments draws objective targetItemCount agentCount).map (·.1)).Nodup)
  | .decide _ (.createWorkspace _) _ | .decide _ (.createAgentProfile ..) _ => isTrue trivial
  | .decide _ (.pauseRun _) _ | .decide _ (.resumeRun _) _ => isTrue trivial
  | .decide _ (.cancelRun _) _ | .decide _ (.retryRun ..) _ => isTrue trivial
  | .pass _ | .number _ | .submit _ | .drop _ => isTrue trivial
  | .execute .. | .readRevision _ | .append _ | .fail _ | .stop _ => isTrue trivial

/-- Every assignment of a request names a known agent, or the only agent of a new item. -/
def NamesAgents (log : EventLog) (request : Request) (draws : Draws) (ps : List EventPayload) : Prop :=
  ∀ r i agentId, .workItemAssigned r i agentId ∈ ps → AgentOf log i agentId ∨
    (∀ log', request.New draws log' → ∀ e ∈ log', e.payload.itemId? ≠ some i) ∧
      ∀ r' agentId', .workItemAssigned r' i agentId' ∈ ps → agentId' = agentId

section writers

variable {d : Deployment} {s s' : World} {a : Action} {n w : Nat}

theorem NamesAgents.mono {log log' : EventLog} {request : Request} {draws : Draws}
    {ps : List EventPayload} (h : NamesAgents log request draws ps) (hread : log <+: log') :
    NamesAgents log' request draws ps :=
  fun r i agentId hp => (h r i agentId hp).imp (·.mono hread) id

theorem agentOf_retryAssignments {log : EventLog} (hwf : WellFormed log) {r : Uuid} {draws : Draws}
    {order : List Uuid} {x : Uuid × Uuid} (hx : x ∈ retryAssignments draws order (stream log r)) :
    AgentOf (stream log r) x.1 x.2 := by
  have hfirst := List.mem_map_of_mem (f := Prod.fst) hx
  rw [map_fst_retryAssignments] at hfirst
  obtain ⟨t, ht, hassigns⟩ := assignedIn_of_retried hwf (fun _ he => he) hfirst
  have hsome := hwf.lastWrite_ne_none (w := EventPayload.itemAgent? x.1) ht
    (itemId?_of_assigns hassigns) (by simp [EventPayload.itemAgent?])
  obtain ⟨agentId, hlast⟩ := Option.ne_none_iff_exists'.mp hsome
  have hagent : x.2 = agentId :=
    mem_retryAssignments hx ((RunReplayState.itemAgent_fromEvents _ _).trans hlast)
  obtain ⟨p, hp, hwrite⟩ := lastWrite_mem hlast
  obtain ⟨e, he, rfl⟩ := List.mem_map.mp hp
  exact ⟨e, he, hagent ▸ hwrite⟩

theorem Request.namesAgents_of_decide {log : EventLog} (hwf : WellFormed log) {k : Nat}
    {request : Request} {draws : Draws} {events : List EventEnvelope} {ps : List EventPayload}
    (hfleet : Fleet n (.decide k request draws)) (hreads : request.Reads log events)
    (hdecide : request.decide draws events = some ps) : NamesAgents log request draws ps := by
  intro r i agentId hp
  have hchange : ∀ (r' : Uuid) (status : String) (reason : Option String),
      statusChange r' status reason events ≠ some ps := by
    intro r' status reason hchange
    obtain ⟨-, rfl⟩ := statusChange_eq_some.mp hchange
    simp at hp
  cases request with
  | createWorkspace name | createAgentProfile name role =>
    obtain rfl := Option.some.inj hdecide
    simp at hp
  | pauseRun r' | resumeRun r' | cancelRun r' => exact (hchange _ _ _ hdecide).elim
  | startRun workspaceId objective targetItemCount agentCount =>
    refine Or.inr ⟨fun log' hnew => ?_, fun r' agentId' hp' => ?_⟩
    · have hrun : (Request.startRun workspaceId objective targetItemCount agentCount).runId? = none :=
        rfl
      exact Request.fresh_of_new hrun hdecide hnew hp rfl
    · obtain rfl := Option.some.inj hdecide
      have hmem : ∀ {r b}, .workItemAssigned r i b ∈ startRunPayloads draws workspaceId objective
          targetItemCount agentCount →
          (i, b) ∈ plannedAssignments draws objective targetItemCount agentCount := by
        intro r b hp
        rw [startRunPayloads_eq] at hp
        rcases List.mem_cons.mp hp with heq | hp
        · cases heq
        · obtain ⟨x, hx, heq⟩ := Assignments.mem_payloads hp
          obtain ⟨-, rfl, rfl⟩ := EventPayload.workItemAssigned.inj heq
          exact hx
      have hinj := List.inj_on_of_nodup_map hfleet (hmem hp') (hmem hp) rfl
      exact (Prod.mk.inj hinj).2
  | retryRun order r' =>
    obtain rfl := (hwf.gapFree.load_eq_ok.mp hreads.1).1
    obtain ⟨-, -, -, rfl⟩ := retryPayloads_eq_some.mp hdecide
    rcases List.mem_cons.mp hp with heq | hp
    · cases heq
    · obtain ⟨x, hx, heq⟩ := Assignments.mem_payloads hp
      obtain ⟨-, rfl, rfl⟩ := EventPayload.workItemAssigned.inj heq
      exact Or.inl (agentOf_retryAssignments hwf hx).of_stream

theorem Prepared.agentOf {m : Moment} {snapshot : Snapshot} {r : Uuid} {batch : List EventEnvelope}
    (h : Prepared d m w snapshot r batch) (hsnapshot : snapshot.Inv d m)
    (haffinity : (d.worker w).itemAffinity) {p : EventPayload} (hp : p ∈ payloads batch) :
    (∀ i, p.itemId? = some i → AgentOf (stream m.log r) i (d.worker w).worker.agentId) ∧
      ∀ i agentId, p.itemAgent? i = some agentId → agentId = (d.worker w).worker.agentId := by
  obtain ⟨executor, state, state', executed, summary, hstate, hadv⟩ := h.advanced
  rw [hadv.payloads] at hp
  rcases List.mem_append.mp hp with hp | hp
  · obtain ⟨x, hx, hp⟩ := mem_executedPayloads hp
    obtain ⟨-, hitem, -⟩ := mem_outcome_payloads _ _ _ _ hp
    constructor
    · intro i hi
      obtain rfl := Option.some.inj (hitem.symm.trans hi)
      obtain ⟨item, hlookup, heligible⟩ := hadv.eligible x hx
      have hagent := (LoopConfig.eligible_iff.mp heligible).2 haffinity
      rw [lookup_items_replayRun hstate] at hlookup
      obtain ⟨status, -, rfl⟩ := Option.map_eq_some_iff.mp hlookup
      obtain ⟨e, he, hwrite, -⟩ := hsnapshot.exists_lastWrite hagent
      exact ⟨e, (stream_mono hsnapshot.past.later.2 r).subset he, hwrite⟩
    · intro i agentId hwrite
      unfold Outcome.payloads at hp
      split at hp
      · obtain rfl := List.mem_singleton.mp hp
        cases hwrite
      · split at hp <;> simp only [List.mem_cons, List.not_mem_nil, or_false] at hp
        · rcases hp with rfl | rfl | rfl <;> simp_all [EventPayload.itemAgent?, WorkerSettings.config]
        · rcases hp with rfl | rfl <;> simp_all [EventPayload.itemAgent?, WorkerSettings.config]
  · obtain ⟨text, -, rfl⟩ := List.mem_map.mp hp
    constructor
    · intro i hi
      cases hi
    · intro i agentId hwrite
      cases hwrite

end writers

/-! ### The invariant -/

/-- What holds while a fleet of workers with affinity runs. -/
structure Fleet.Inv (d : Deployment) (n : Nat) (s : World) : Prop where
  resting : ∀ w, n ≤ w → s.workers w = .idle
  signed : ∀ w, ∀ b ∈ (s.workers w).batch, b.actorId = (d.worker w).worker.agentId
  alone : ∀ w, (s.workers w).Alone (· = (d.worker w).worker.agentId) s.log
  names : ∀ k, ∀ x ∈ (s.requests k).pending?, NamesAgents s.log x.1 x.2.1 x.2.2
  agree : AgentsAgree s.log
  owned : ∀ e ∈ s.log, ∀ i, e.payload.isExecution → e.payload.itemId? = some i →
    AgentOf s.log i e.actorId

section fleet

variable {d : Deployment} {n : Nat} (haffinity : ∀ w < n, (d.worker w).itemAffinity)
  (hids : ∀ w < n, ∀ w' < n, (d.worker w).worker.agentId = (d.worker w').worker.agentId → w = w')
  {s s' : World} {a : Action}

theorem Fleet.Inv.init : Fleet.Inv d n World.init where
  resting := fun _ _ => rfl
  signed := fun _ _ hb => nomatch hb
  alone := fun _ => WorkerPhase.alone_idle _
  names := fun _ _ hx => nomatch hx
  agree := fun _ _ _ ⟨_, he, _⟩ => nomatch he
  owned := fun _ he => nomatch he

theorem Fleet.Inv.lt_of_mem_batch (h : Fleet.Inv d n s) {w : Nat} {b : EventEnvelope}
    (hb : b ∈ (s.workers w).batch) : w < n := by
  by_contra hw
  rw [h.resting w (Nat.not_lt.mp hw)] at hb
  cases hb

include haffinity

theorem Fleet.Inv.signed_step (h : Fleet.Inv d n s) (hstep : s.Step d a s') (w : Nat) :
    ∀ b ∈ (s'.workers w).batch, b.actorId = (d.worker w).worker.agentId := by
  rcases hstep.worker w with hsame | hmove
  · rw [hsame]
    exact h.signed w
  · revert hmove
    generalize s'.workers w = phase
    intro hmove
    cases hmove with
    | load | done | stop => exact fun _ hb => nomatch hb
    | again hphase =>
      have hsigned := h.signed w
      rw [hphase] at hsigned
      exact hsigned
    | @execute executor snapshot r runs state order stamp hphase =>
      have hw : w < n := by
        by_contra hw
        rw [h.resting w (Nat.not_lt.mp hw)] at hphase
        cases hphase
      have hactor : ∀ b ∈ (((d.worker w).config executor).advanceRun stamp order r state).2,
          b.actorId = ((d.worker w).config executor).worker.agentId :=
        LoopConfig.advanceRun_actor (haffinity w hw) state
      unfold afterIteration
      split
      · exact fun _ hb => nomatch hb
      · exact hactor

theorem Fleet.Inv.agree_step (h : Fleet.Inv d n s) (hinv : s.Inv d) (hstep : s.Step d a s') :
    AgentsAgree s'.log ∧ ∀ e ∈ s'.log, ∀ i, e.payload.isExecution → e.payload.itemId? = some i →
      AgentOf s'.log i e.actorId := by
  obtain ⟨rows, hlog, hrows⟩ := hstep.grows
  have hworker : ∀ {w : Nat} {e : EventEnvelope}, AppendedBy s s' a w e →
      e.actorId = (d.worker w).worker.agentId ∧
      (∀ i, e.payload.itemId? = some i → AgentOf s.log i (d.worker w).worker.agentId) ∧
      ∀ i agentId, e.payload.itemAgent? i = some agentId → agentId = (d.worker w).worker.agentId := by
    intro w e happended
    obtain ⟨b, hb, hactor, -, hpayload⟩ := happended.event
    rw [← hactor, ← hpayload]
    refine ⟨h.signed w b hb, ?_⟩
    have hw := h.lt_of_mem_batch hb
    have hphase := hinv.workers w
    cases hphase' : s.workers w with
    | idle | ticking => rw [hphase'] at hb; cases hb
    | appending snapshot runs r batch latest retries =>
      rw [hphase'] at hb hphase
      obtain ⟨hknown, hself⟩ := hphase.2.agentOf hphase.1 (haffinity w hw) (List.mem_map_of_mem hb)
      exact ⟨fun i hi => (hknown i hi).of_stream, hself⟩
  -- a request names an agent of an item by an assignment
  have hassigned : ∀ {k request draws ps} {e : EventEnvelope},
      SubmittedBy s a k request draws ps e → ∀ i agentId, e.payload.itemAgent? i = some agentId →
        ∃ r, .workItemAssigned r i agentId ∈ ps := by
    intro k request draws ps e hsubmitted i agentId hagent
    have hnot := hsubmitted.isExecution_eq_false hinv
    have hevent := hsubmitted.event
    cases hpayload : e.payload <;> simp_all [EventPayload.itemAgent?, EventPayload.isExecution]
    exact ⟨_, hevent⟩
  rw [hlog]
  refine ⟨h.agree.append fun i agentId hnamed => ?_, fun e he i hexec hi => ?_⟩
  · obtain ⟨e, he, hagent⟩ := hnamed
    rcases hrows e he with ⟨k, request, draws, ps, hsubmitted⟩ | ⟨w, happended⟩
    · obtain ⟨r, hp⟩ := hassigned hsubmitted i agentId hagent
      refine (h.names k _ hsubmitted.pending r i agentId hp).imp id fun hnew =>
        ⟨hnew.1 s.log hsubmitted.new, fun agentId' hnamed' => ?_⟩
      obtain ⟨e', he', hagent'⟩ := hnamed'
      rcases hrows e' he' with ⟨k', request', draws', ps', hsubmitted'⟩ | ⟨w, happended⟩
      · obtain rfl : k = k' := Action.submit.inj (hsubmitted.action.symm.trans hsubmitted'.action)
        obtain ⟨rfl, rfl, rfl⟩ : request = request' ∧ draws = draws' ∧ ps = ps' := by
          simpa using Option.some.inj (hsubmitted.pending.symm.trans hsubmitted'.pending)
        obtain ⟨r', hp'⟩ := hassigned hsubmitted' i agentId' hagent'
        exact hnew.2 r' agentId' hp'
      · exact absurd (hsubmitted.action.symm.trans happended.action) (by simp)
    · obtain ⟨-, hknown, hself⟩ := hworker happended
      rw [hself i agentId hagent]
      exact Or.inl (hknown i (EventPayload.itemId?_of_itemAgent? (by rw [hagent]; simp)))
  · rcases List.mem_append.mp he with he | he
    · exact (h.owned e he i hexec hi).mono (List.prefix_append _ _)
    · rcases hrows e he with ⟨k, request, draws, ps, hsubmitted⟩ | ⟨w, happended⟩
      · rw [hsubmitted.isExecution_eq_false hinv] at hexec
        cases hexec
      · obtain ⟨hactor, hknown, -⟩ := hworker happended
        rw [hactor]
        exact (hknown i hi).mono (List.prefix_append _ _)

include hids

theorem Fleet.Inv.step (h : Fleet.Inv d n s) (hinv : s.Inv d) (hstep : s.Step d a s')
    (hfleet : Fleet n a) : Fleet.Inv d n s' := by
  obtain ⟨hagree, howned⟩ := h.agree_step haffinity hinv hstep
  have hresting : ∀ w, n ≤ w → s'.workers w = .idle := by
    intro w hw
    refine hstep.idle (h.resting w hw) ?_
    rintro rfl
    exact absurd hfleet (Nat.not_lt.mpr hw)
  refine ⟨hresting, h.signed_step haffinity hstep, fun w => ?_, fun k x hx => ?_, hagree, howned⟩
  · by_cases hw : w < n
    · refine hstep.alone hinv (fun w' _ hne b hb hself => hne ?_) (h.alone w)
      rw [h.signed w' b hb] at hself
      exact hids w' (h.lt_of_mem_batch hb) w hw hself
    · rw [hresting w (Nat.not_lt.mp hw)]
      exact WorkerPhase.alone_idle _
  · rcases hstep.pending_request k hx with hold | ⟨events, rfl, hreads, -, hdecide⟩
    · exact (h.names k x hold).mono (hstep.log_mono hinv)
    · exact (Request.namesAgents_of_decide hinv.sound.wellFormed hfleet hreads hdecide).mono
        (hstep.log_mono hinv)

theorem Fleet.Inv.of_reach (h : Reach (interleaving d) (fun _ a => Fleet n a) s) :
    Fleet.Inv d n s := by
  refine h.invariant_of (K := World.Inv d) (fun _ => World.Inv.of_reach) ?_ ?_
  · rintro s rfl
    exact .init
  · exact fun s a s' hinv h hstep hfleet => h.step haffinity hids hinv hstep hfleet

omit hids in
/-- All that complete an item do so in the name of one worker, so a worker that completes it is the
first to do so since its snapshot. -/
theorem Fleet.Inv.firstToComplete (h : Fleet.Inv d n s) (hinv : s.Inv d) : FirstToComplete s a := by
  intro x hx p hp i hi hcompletes
  obtain ⟨w, runs, latest, retries, -, hphase⟩ := World.batchOf_eq_some hx
  have hw : w < n := by
    by_contra hw
    rw [h.resting w (Nat.not_lt.mp hw)] at hphase
    cases hphase
  have halone := h.alone w
  have hworker := hinv.workers w
  rw [hphase] at halone hworker
  obtain ⟨hsnapshot, hprepared⟩ := hworker
  have hagent := ((hprepared.agentOf hsnapshot (haffinity w hw) hp).1 i hi).of_stream
  have hassigned : AssignedIn s.log x.2.1 i := by
    rcases (hprepared.admissible hsnapshot).item p hp i hi with hassigned | ⟨hassigns, -⟩
    · exact hassigned
    · rw [EventPayload.completes_of_assigns hassigns] at hcompletes
      cases hcompletes
  obtain ⟨t, ht, hassigns⟩ := hassigned
  obtain ⟨htlog, htres⟩ := mem_stream.mp ht
  refine halone.completions_eq hsnapshot.past.later.2 fun e he hdone => ⟨?_, ?_⟩
  · rw [← htres]
    exact hinv.sound.wellFormed.separate e he t htlog i (itemId?_of_completes hdone)
      (itemId?_of_assigns hassigns)
  · exact h.agree i _ _ (h.owned e he i (EventPayload.isExecution_of_completes hdone)
      (itemId?_of_completes hdone)) hagent

/-- With affinity and distinct agent ids the executions of an item carry, as their actor, the agent of
its first assignment, and only the worker with this id appends any; with one clock no item is completed
more often than it is assigned. -/
theorem affinity_exclusive (hclock : d.OneClock)
    (h : Reach (interleaving d) (fun _ a => Fleet n a) s) :
    (∀ e ∈ s.log, ∀ i, e.payload.isExecution → e.payload.itemId? = some i →
      originalAgent s.log i = some e.actorId) ∧
    (∀ a s', s.Step d a s' → ∀ e ∈ s'.log, e ∉ s.log → e.payload.isExecution →
      ∃ w < n, a = .append w ∧ e.actorId = (d.worker w).worker.agentId) ∧
    ∀ i, completions s.log i ≤ assignments s.log i := by
  have hknown := Fleet.Inv.of_reach haffinity hids h
  have hinv := World.Inv.of_reach h
  refine ⟨fun e he i hexec hi => ?_, fun a s' hstep e he hnew hexec => ?_, fun i => ?_⟩
  · exact hknown.agree.originalAgent_eq hinv.sound.wellFormed (hknown.owned e he i hexec hi)
  · obtain ⟨rows, hlog, hrows⟩ := hstep.grows
    rw [hlog] at he
    have he := (List.mem_append.mp he).resolve_left hnew
    rcases hrows e he with ⟨k, request, draws, ps, hsubmitted⟩ | ⟨w, happended⟩
    · rw [hsubmitted.isExecution_eq_false hinv] at hexec
      cases hexec
    · obtain ⟨b, hb, hactor, -⟩ := happended.event
      refine ⟨w, hknown.lt_of_mem_batch hb, happended.action, ?_⟩
      rw [← hactor]
      exact hknown.signed w b hb
  · have hfirst : Reach (interleaving d) FirstToComplete s := h.imp fun s a s' hreach _ _ =>
      (Fleet.Inv.of_reach haffinity hids hreach).firstToComplete haffinity (World.Inv.of_reach hreach)
    obtain ⟨spent, haccount⟩ := accounted_of_reach hclock hfirst i
    exact haccount.countP_le

end fleet

/-- Two workers with affinity; the first one has the id that `Draws.at` gives to a run's agent. -/
def affinityDeployment : Deployment where
  clock _ t := t
  worker w := ⟨⟨⟨BitVec.ofNat 128 (20 + w)⟩⟩, 2, true, 4⟩

theorem affinity_exclusive_prompt :
    completions (World.init.after affinityDeployment promptActions).log ⟨10⟩ ≤
      assignments (World.init.after affinityDeployment promptActions).log ⟨10⟩ :=
  (affinity_exclusive (d := affinityDeployment) (n := 2) (fun _ _ => rfl) (by decide)
    (fun _ _ _ _ hle => hle) (World.reach_after (.init rfl) (by decide +kernel))).2.2 ⟨10⟩

example : completions (World.init.after affinityDeployment promptActions).log ⟨10⟩ = 1 := by
  decide +kernel

end SamtaDashboard

import SamtaDashboard.System.Affinity
import SamtaDashboard.System.TickReplay

/-!
# Affinity orphans the runs

The items of a run go to the agents that `default_agents` draws when the run is created, and a retry
leaves each item with its agent. Workers whose ids were there before are none of these agents. So with
`item_affinity` the selection filter of no worker ever lets an item of the run through, from the
creation of the run on, where all items are assigned (`affinity_orphans`).
-/

namespace SamtaDashboard

open EventFold Transition

/-! ### The agents of a run -/

/-- None of the agents that the events name is a worker of the pool. -/
def Deployment.Foreign (d : Deployment) (n : Nat) (ps : List EventPayload) : Prop :=
  ∀ p ∈ ps, ∀ i agentId, p.itemAgent? i = some agentId → ∀ w < n, agentId ≠ (d.worker w).worker.agentId

/-- The pool are the workers below `n`, and the agents that are drawn for run `r` have new ids. -/
def NewAgents (d : Deployment) (n : Nat) (r : Uuid) : Action → Prop
  | .loadAll w => w < n
  | .decide _ (.startRun _ _ _ agentCount) draws => draws.resource = r →
    ∀ agent ∈ defaultAgents draws (Planner.new.resolveAgentCount agentCount),
      ∀ w < n, agent.id ≠ (d.worker w).worker.agentId
  | _ => True

instance (d : Deployment) (n : Nat) (r : Uuid) : (a : Action) → Decidable (NewAgents d n r a)
  | .loadAll w => inferInstanceAs (Decidable (w < n))
  | .decide _ (.startRun ..) draws => inferInstanceAs (Decidable (draws.resource = r → _))
  | .decide _ (.createWorkspace _) _ | .decide _ (.createAgentProfile ..) _ => isTrue trivial
  | .decide _ (.pauseRun _) _ | .decide _ (.resumeRun _) _ => isTrue trivial
  | .decide _ (.cancelRun _) _ | .decide _ (.retryRun ..) _ => isTrue trivial
  | .pass _ | .number _ | .submit _ | .drop _ => isTrue trivial
  | .execute .. | .readRevision _ | .append _ | .fail _ | .stop _ => isTrue trivial

/-- Each assigned item of run `r`, if the replay shows the run running, passes the selection filter of a
worker of the pool. -/
def Deployment.Serves (d : Deployment) (n : Nat) (events : List EventEnvelope) (r : Uuid) : Prop :=
  ∀ state, (runStatesFromEvents events).lookup r = some state → state.status = "running" →
    ∀ i item, state.items.lookup i = some item → item.status = .assigned →
      ∃ w < n, ∃ executor, ((d.worker w).config executor).eligible item

/-- What holds of run `r` while a pool of workers with affinity runs. -/
structure Orphaned (d : Deployment) (n : Nat) (r : Uuid) (s : World) : Prop where
  resting : ∀ w, n ≤ w → s.workers w = .idle
  decided : ∀ k, ∀ x ∈ (s.requests k).pending?, ∃ events, x.1.decide x.2.1 events = some x.2.2
  requested : ∀ k, ∀ x ∈ (s.requests k).pending?, x.1.resource x.2.1 = r → d.Foreign n x.2.2
  recorded : d.Foreign n (payloads (stream s.log r))

section agents

variable {d : Deployment} {n w : Nat} {r : Uuid} {ps : List EventPayload}

theorem Deployment.Foreign.append (h : d.Foreign n ps) {qs : List EventPayload} (h' : d.Foreign n qs) :
    d.Foreign n (ps ++ qs) := fun p hp => (List.mem_append.mp hp).elim (h p) (h' p)

theorem Deployment.foreign_of_none (h : ∀ p ∈ ps, ∀ i, p.itemAgent? i = none) : d.Foreign n ps := by
  intro p hp i agentId hagent
  rw [h p hp i] at hagent
  cases hagent

theorem Deployment.foreign_cons {p : EventPayload} (hp : ∀ i, p.itemAgent? i = none)
    (h : d.Foreign n ps) : d.Foreign n (p :: ps) :=
  (foreign_of_none (List.forall_mem_singleton.mpr hp)).append h

theorem Deployment.foreign_assignments {assigned : Assignments}
    (h : ∀ x ∈ assigned, ∀ w < n, x.2 ≠ (d.worker w).worker.agentId) :
    d.Foreign n (assigned.payloads r) := by
  intro p hp i agentId hagent
  obtain ⟨x, hx, rfl⟩ := Assignments.mem_payloads hp
  simp only [EventPayload.itemAgent?, Option.ite_none_right_eq_some, Option.some.injEq] at hagent
  exact hagent.2 ▸ h x hx

theorem Deployment.foreign_statusChange {r' : Uuid} {status : String} {reason : Option String}
    {events : List EventEnvelope} (h : statusChange r' status reason events = some ps) :
    d.Foreign n ps := by
  obtain ⟨-, rfl⟩ := statusChange_eq_some.mp h
  exact foreign_of_none (List.forall_mem_singleton.mpr fun _ => rfl)

theorem Deployment.Foreign.not_agentOf {log : EventLog} (h : d.Foreign n (payloads (stream log r)))
    (hw : w < n) (i : Uuid) : ¬ AgentOf (stream log r) i (d.worker w).worker.agentId := by
  rintro ⟨e, he, hagent⟩
  exact h _ (List.mem_map_of_mem he) i _ hagent w hw rfl

theorem Request.foreign_of_decide {log : EventLog} (hwf : WellFormed log) {k : Nat}
    {request : Request} {draws : Draws} {events : List EventEnvelope}
    (hnew : NewAgents d n r (.decide k request draws)) (hreads : request.Reads log events)
    (hdecide : request.decide draws events = some ps) (hresource : request.resource draws = r)
    (hlog : d.Foreign n (payloads (stream log r))) : d.Foreign n ps := by
  cases request with
  | createWorkspace name | createAgentProfile name role =>
    obtain rfl := Option.some.inj hdecide
    exact Deployment.foreign_of_none (List.forall_mem_singleton.mpr fun _ => rfl)
  | pauseRun r' | resumeRun r' | cancelRun r' => exact Deployment.foreign_statusChange hdecide
  | startRun workspaceId objective targetItemCount agentCount =>
    obtain rfl := Option.some.inj hdecide
    rw [startRunPayloads_eq]
    refine Deployment.foreign_cons (fun _ => rfl) (Deployment.foreign_assignments fun x hx => ?_)
    obtain ⟨agent, hagent, heq⟩ := mem_plannedAssignments hx
    exact heq ▸ hnew hresource agent hagent
  | retryRun order r' =>
    obtain rfl : r' = r := hresource
    obtain rfl := (hwf.gapFree.load_eq_ok.mp hreads.1).1
    obtain ⟨-, -, -, rfl⟩ := retryPayloads_eq_some.mp hdecide
    refine Deployment.foreign_cons (fun _ => rfl)
      (Deployment.foreign_assignments fun x hx w hw heq => ?_)
    exact hlog.not_agentOf hw x.1 (heq ▸ agentOf_retryAssignments hwf hx)

/-- What a worker of the pool appends to the run names no item. -/
theorem Prepared.foreign {m : Moment} {snapshot : Snapshot} {batch : List EventEnvelope}
    (h : Prepared d m w snapshot r batch) (hsnapshot : snapshot.Inv d m) (hw : w < n)
    (haffinity : (d.worker w).itemAffinity) (hlog : d.Foreign n (payloads (stream m.log r))) :
    d.Foreign n (payloads batch) := by
  refine Deployment.foreign_of_none fun p hp i => ?_
  by_contra hagent
  have hitem := EventPayload.itemId?_of_itemAgent? hagent
  exact hlog.not_agentOf hw i ((h.agentOf hsnapshot haffinity hp).1 i hitem)

end agents

/-! ### No worker finds an item -/

section pool

variable {d : Deployment} {n : Nat} (haffinity : ∀ w < n, (d.worker w).itemAffinity)
  {s s' : World} {a : Action} {r : Uuid}

theorem Orphaned.init : Orphaned d n r World.init where
  resting := fun _ _ => rfl
  decided := fun _ _ hx => nomatch hx
  requested := fun _ _ hx => nomatch hx
  recorded := Deployment.foreign_of_none fun _ hp => absurd hp List.not_mem_nil

include haffinity

theorem Orphaned.recorded_step (h : Orphaned d n r s) (hinv : s.Inv d) (hstep : s.Step d a s') :
    d.Foreign n (payloads (stream s'.log r)) := by
  have happended : ∀ {log' : EventLog} {r' : Uuid} {events : List EventEnvelope},
      append s.log r' events = .ok log' → (r' = r → d.Foreign n (payloads events)) →
        d.Foreign n (payloads (stream log' r)) := by
    intro log' r' events happ hforeign
    rw [(append_eq_ok.mp happ).1, stream_append, stream_map_bindTo, payloads, List.map_append]
    refine h.recorded.append ?_
    split
    · next heq =>
      rw [List.map_map]
      exact hforeign heq.symm
    · exact Deployment.foreign_of_none fun _ hp => absurd hp List.not_mem_nil
  cases hstep with
  | @submit k request draws ps revision seen log' hphase _ _ happ =>
    refine happended happ fun heq => ?_
    rw [payloads_newEvents]
    exact h.requested k (request, draws, ps) (by rw [hphase]; rfl) heq
  | @append w snapshot runs r' batch latest retries log' hphase happ =>
    refine happended happ ?_
    rintro rfl
    have hw : w < n := by
      by_contra hw
      rw [h.resting w (Nat.not_lt.mp hw)] at hphase
      cases hphase
    have hworker := hinv.workers w
    rw [hphase] at hworker
    rw [payloads, map_withRebasedRevisions _ fun _ _ => rfl]
    exact hworker.2.foreign hworker.1 hw (haffinity w hw) h.recorded
  | _ => exact h.recorded

theorem Orphaned.step (h : Orphaned d n r s) (hinv : s.Inv d) (hstep : s.Step d a s')
    (hnew : NewAgents d n r a) : Orphaned d n r s' := by
  refine ⟨fun w hw => ?_, fun k x hx => ?_, fun k x hx => ?_, h.recorded_step haffinity hinv hstep⟩
  · refine hstep.idle (h.resting w hw) ?_
    rintro rfl
    exact absurd hnew (Nat.not_lt.mpr hw)
  · rcases hstep.pending_request k hx with hold | ⟨events, -, -, -, hdecide⟩
    · exact h.decided k x hold
    · exact ⟨events, hdecide⟩
  · rcases hstep.pending_request k hx with hold | ⟨events, rfl, hreads, -, hdecide⟩
    · exact h.requested k x hold
    · exact fun heq => Request.foreign_of_decide hinv.sound.wellFormed hnew hreads hdecide heq
        h.recorded

theorem Orphaned.of_reach (h : Reach (interleaving d) (fun _ a => NewAgents d n r a) s) :
    Orphaned d n r s := by
  refine h.invariant_of (K := World.Inv d) (fun _ => World.Inv.of_reach) ?_ ?_
  · rintro s rfl
    exact .init
  · exact fun s a s' hinv h hstep hnew => h.step haffinity hinv hstep hnew

theorem Orphaned.not_eligible (h : Orphaned d n r s) (hwf : WellFormed s.log)
    {events : List EventEnvelope} (hread : InTimeOrder s.log events) {state : RunState}
    (hstate : (runStatesFromEvents events).lookup r = some state) {i : Uuid} {item : ItemState}
    (hitem : state.items.lookup i = some item) {w : Nat} (hw : w < n) (executor : AgentExecutor) :
    ¬ ((d.worker w).config executor).eligible item := by
  intro heligible
  have hagent := (LoopConfig.eligible_iff.mp heligible).2 (haffinity w hw)
  rw [lookup_runStatesFromEvents] at hstate
  rw [lookup_items_replayRun hstate] at hitem
  obtain ⟨status, -, rfl⟩ := Option.map_eq_some_iff.mp hitem
  obtain ⟨p, hp, hwrite⟩ := lastWrite_mem hagent
  obtain ⟨e, he, rfl⟩ := List.mem_map.mp hp
  obtain ⟨he, hrun⟩ := List.mem_filter.mp he
  have hlog : e ∈ s.log := hread.perm.subset he
  have hres : e.resourceId = r := hwf.resourceId_eq hlog (by simpa using hrun)
  exact h.recorded.not_agentOf hw i ⟨e, mem_stream.mpr ⟨hlog, hres⟩, hwrite⟩

end pool

/-! ### A run that has just been created -/

section created

variable {d : Deployment} {n : Nat} {r : Uuid}

theorem replay_of_startRunPayloads {log : EventLog} {events : List EventEnvelope} (hwf : WellFormed log)
    (hread : InTimeOrder log events) {draws : Draws} {workspaceId : Uuid} {objective : String}
    {targetItemCount agentCount : Option UInt16}
    (hstream : payloads (stream log r) =
      startRunPayloads draws workspaceId objective targetItemCount agentCount) :
    ∃ state, (runStatesFromEvents events).lookup r = some state ∧ state.status = "running" ∧
      ∃ i item, state.items.lookup i = some item ∧ item.status = .assigned := by
  rw [startRunPayloads_eq] at hstream
  obtain ⟨x, hx⟩ := List.exists_mem_of_ne_nil _
    (plannedAssignments_ne_nil draws objective targetItemCount agentCount)
  generalize plannedAssignments draws objective targetItemCount agentCount = assigned at hstream hx
  have hcases : ∀ p ∈ payloads (stream log r), p = .runStarted workspaceId objective ∨
      ∃ x ∈ assigned, p = .workItemAssigned draws.resource x.1 x.2 := by
    intro p hp
    rw [hstream] at hp
    exact (List.mem_cons.mp hp).imp_right fun hp => by
      obtain ⟨x, hx, rfl⟩ := Assignments.mem_payloads hp
      exact ⟨x, hx, rfl⟩
  have hperm : (payloads (runEvents events r)).Perm (payloads (stream log r)) := by
    refine (hread.runEvents_perm hwf fun e he => ?_).map _
    rcases hcases _ (List.mem_map_of_mem he) with heq | ⟨x, -, heq⟩ <;> rw [heq] <;> rfl
  have hmem : ∀ {p}, p ∈ payloads (runEvents events r) ↔ p ∈ payloads (stream log r) := hperm.mem_iff
  have hstarted : .runStarted workspaceId objective ∈ payloads (runEvents events r) := by
    rw [hmem, hstream]
    exact List.mem_cons_self
  have hassigned : .workItemAssigned draws.resource x.1 x.2 ∈ payloads (runEvents events r) := by
    rw [hmem, hstream]
    exact List.mem_cons_of_mem _ (List.mem_map_of_mem hx)
  obtain ⟨state, hstate⟩ : ∃ state, replayRun (runEvents events r) = some state :=
    Option.isSome_iff_exists.mp (replayRun_isSome.mpr fun hnil => by
      rw [hnil] at hstarted
      cases hstarted)
  have hstatus : lastWrite EventPayload.workerStatus? (payloads (runEvents events r)) =
      some "running" := by
    refine lastWrite_eq_of_forall ⟨_, hstarted, Option.some_ne_none _⟩ fun p hp v hv => ?_
    rcases hcases p (hmem.mp hp) with rfl | ⟨x, -, rfl⟩
    · exact (Option.some.inj hv).symm
    · cases hv
  have hitem : lastWrite (EventPayload.itemStatus? x.1) (payloads (runEvents events r)) =
      some .assigned := by
    refine lastWrite_eq_of_forall ⟨_, hassigned, by simp [EventPayload.itemStatus?]⟩ fun p hp v hv => ?_
    rcases hcases p (hmem.mp hp) with rfl | ⟨x', -, rfl⟩
    · cases hv
    · simp only [EventPayload.itemStatus?, Option.ite_none_right_eq_some, Option.some.injEq] at hv
      exact hv.2.symm
  refine ⟨state, by rw [lookup_runStatesFromEvents, hstate], ?_, x.1, _,
    by rw [lookup_items_replayRun hstate, hitem]; rfl, rfl⟩
  rw [status_replayRun hstate, hstatus, Option.getD_some]

theorem Orphaned.created {s s' : World} (h : Orphaned d n r s) {k : Nat}
    (hstep : s.Step d (.submit k) s') {workspaceId : Uuid} {objective : String}
    {targetItemCount agentCount : Option UInt16} {draws : Draws} {ps : List EventPayload}
    (hpending : (.startRun workspaceId objective targetItemCount agentCount, draws, ps) ∈
      (s.requests k).pending?) :
    payloads (stream s'.log draws.resource) =
      startRunPayloads draws workspaceId objective targetItemCount agentCount := by
  obtain ⟨events, hdecide⟩ := h.decided k _ hpending
  cases hstep with
  | @submit _ request draws' ps' revision seen log' hphase hnew _ happ =>
    rw [hphase] at hpending
    obtain ⟨rfl, rfl, rfl⟩ := Prod.mk.inj (Option.some.inj hpending) |>.imp_right Prod.mk.inj
    obtain rfl : startRunPayloads draws' workspaceId objective targetItemCount agentCount = ps' :=
      Option.some.inj hdecide
    have happ : append s.log draws'.resource (newEvents draws' draws'.resource revision _) = .ok log' :=
      happ
    rw [(append_eq_ok.mp happ).1, stream_append, stream_map_bindTo, if_pos rfl, hnew.1,
      List.nil_append, map_bindTo_newEvents, payloads_newEvents]

end created

/-! ### The pool never serves a run -/

/-- A pool of workers with affinity serves a run whose agents were drawn later only while the run is
not running or has no assigned item, and so not when the run has just been created. -/
theorem affinity_orphans {d : Deployment} {n : Nat} (haffinity : ∀ w < n, (d.worker w).itemAffinity)
    {s : World} {r : Uuid} (h : Reach (interleaving d) (fun _ a => NewAgents d n r a) s) :
    (∀ events, InTimeOrder s.log events → (d.Serves n events r ↔
      ∀ state, (runStatesFromEvents events).lookup r = some state → state.status = "running" →
        ∀ i item, state.items.lookup i = some item → item.status ≠ .assigned)) ∧
    ∀ k s' workspaceId objective targetItemCount agentCount draws ps,
      (.startRun workspaceId objective targetItemCount agentCount, draws, ps) ∈
        (s.requests k).pending? → draws.resource = r → s.Step d (.submit k) s' →
          ∀ events, InTimeOrder s'.log events → ¬ d.Serves n events r := by
  have horphaned := Orphaned.of_reach haffinity h
  have hinv := World.Inv.of_reach h
  refine ⟨fun events hread => ⟨fun hserves state hstate hrunning i item hitem hassigned => ?_,
    fun hnone state hstate hrunning i item hitem hassigned =>
      absurd hassigned (hnone state hstate hrunning i item hitem)⟩, ?_⟩
  · obtain ⟨w, hw, executor, heligible⟩ := hserves state hstate hrunning i item hitem hassigned
    exact horphaned.not_eligible haffinity hinv.sound.wellFormed hread hstate hitem hw executor heligible
  · rintro k s' workspaceId objective targetItemCount agentCount draws ps hpending rfl hstep events hread
      hserves
    have hwf : WellFormed s'.log := (hstep.inv hinv).sound.wellFormed
    obtain ⟨state, hstate, hrunning, i, item, hitem, hassigned⟩ :=
      replay_of_startRunPayloads hwf hread (horphaned.created hstep hpending)
    obtain ⟨w, hw, executor, heligible⟩ := hserves state hstate hrunning i item hitem hassigned
    exact (horphaned.step haffinity hinv hstep trivial).not_eligible haffinity hwf hread hstate hitem hw
      executor heligible

/-- Two workers with affinity, whose ids are not those that `Draws.at` gives to a run's agents. -/
def poolDeployment : Deployment where
  clock _ t := t
  worker w := ⟨⟨⟨BitVec.ofNat 128 (60 + w)⟩⟩, 2, true, 4⟩

def numberedWorld : World := World.init.after poolDeployment (startActions.take 2)

theorem numberedWorld_reach :
    Reach (interleaving poolDeployment) (fun _ a => NewAgents poolDeployment 2 sampleRun a)
      numberedWorld := World.reach_after (.init rfl) (by decide +kernel)

def orphanedWorld : World := numberedWorld.next poolDeployment (.submit 0)

theorem orphanedWorld_step : numberedWorld.Step poolDeployment (.submit 0) orphanedWorld := by
  have hplay : (numberedWorld.play poolDeployment (.submit 0)).isSome := by decide +kernel
  obtain ⟨s', hs'⟩ := Option.isSome_iff_exists.mp hplay
  rw [orphanedWorld, World.next, hs', Option.getD_some]
  exact World.step_of_play hs'

theorem affinity_orphans_started : ¬ poolDeployment.Serves 2 orphanedWorld.log sampleRun :=
  (affinity_orphans (fun _ _ => rfl) numberedWorld_reach).2 0 orphanedWorld sampleWorkspace "" (some 1)
    (some 1) (.at sampleRun 100 0) _ rfl rfl orphanedWorld_step _ ⟨.refl _, by decide +kernel⟩

/-- The run is running and its item is assigned, but to neither of the two workers. -/
theorem orphaned_assigned :
    Reach (interleaving poolDeployment) (fun _ a => NewAgents poolDeployment 2 sampleRun a)
      orphanedWorld ∧
    LoadAll orphanedWorld.log (.ok orphanedWorld.log) ∧
    ¬ poolDeployment.Serves 2 orphanedWorld.log sampleRun := by
  refine ⟨.step (.submit 0) numberedWorld_reach orphanedWorld_step trivial,
    loadAll_eq_ok.mpr ⟨⟨.refl _, by decide +kernel⟩, by decide +kernel⟩, fun hserves => ?_⟩
  have hitems : ∀ state ∈ (runStatesFromEvents orphanedWorld.log).lookup sampleRun,
      state.status = "running" ∧ ∃ i ∈ state.items.keys, ∃ item ∈ state.items.lookup i,
        item.status = .assigned ∧ item.assignedAgentId = some ⟨20⟩ := by decide +kernel
  obtain ⟨state, hstate⟩ :
      ∃ state, (runStatesFromEvents orphanedWorld.log).lookup sampleRun = some state :=
    Option.isSome_iff_exists.mp (by decide +kernel)
  obtain ⟨hrunning, i, -, item, hitem, hassigned, hagent⟩ := hitems state hstate
  obtain ⟨w, hw, executor, heligible⟩ := hserves state hstate hrunning i item hitem hassigned
  have howner : item.assignedAgentId = some (poolDeployment.worker w).worker.agentId :=
    (LoopConfig.eligible_iff.mp heligible).2 rfl
  rw [hagent] at howner
  interval_cases w <;> exact absurd howner (by decide)

end SamtaDashboard

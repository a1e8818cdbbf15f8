import SamtaDashboard.System.History
import Mathlib.Data.Int.CardIntervalMod

/-!
# The plan of a new run

`start_run` composes the planner, the dispatcher and the numbering of events. What it appends is the
whole plan, in one batch on a new stream (`startRun_lays_plan`): one event for the run and one for
each item of the planner. The dispatcher gives item `k` to agent `k % n`, so over `m` items every
agent gets `m / n` or `m / n + 1` of them (`count_dealt`).
-/

namespace SamtaDashboard

open EventFold

/-! ### Dealing items out in turn -/

/-- Agent `j` of `n` gets one item of every full round, and one of the rest if its turn comes. -/
theorem count_dealt {α : Type} [DecidableEq α] {agent : Nat → α} {n j : Nat} (hj : j < n)
    (hagent : ∀ j < n, ∀ k < n, agent j = agent k → j = k) (m : Nat) :
    ((List.range m).map fun k => agent (k % n)).count (agent j) =
      m / n + if j < m % n then 1 else 0 := by
  have hn : 0 < n := Nat.zero_lt_of_lt hj
  have hturn : ∀ k, agent (k % n) = agent j ↔ k ≡ j [MOD n] := by
    intro k
    rw [Nat.ModEq, Nat.mod_eq_of_lt hj]
    exact ⟨hagent _ (Nat.mod_lt k hn) j hj, fun h => congrArg agent h⟩
  have hcount := Nat.count_modEq_card m hn j
  rw [Nat.mod_eq_of_lt hj] at hcount
  rw [← hcount, List.count_eq_countP, List.countP_map, Nat.count]
  refine List.countP_congr fun k _ => ?_
  simp [hturn]

/-! ### The items of the plan -/

theorem length_decompose_le (itemId : Nat → Uuid) (runId : Uuid) (objective : String)
    (requestedItemCount : Nat) :
    (Planner.new.decomposeObjectiveWithTarget itemId runId objective
      requestedItemCount).length ≤ 12 := by
  simp only [Planner.decomposeObjectiveWithTarget, Planner.new]
  split
  · rw [List.length_mapIdx, List.length_take]
    omega
  · rw [List.length_take]
    omega

theorem resolveAgentCount_eq (agentCount : Option UInt16) :
    Planner.new.resolveAgentCount agentCount =
      min 16 (max 1 ((agentCount.map (·.toNat)).getD 1)) := by
  simp only [Planner.resolveAgentCount, Planner.new]
  omega

theorem map_id_defaultAgents (draws : Draws) {n : Nat} (hn : 0 < n) :
    (defaultAgents draws n).map (·.id) = (List.range n).map draws.agent := by
  rw [defaultAgents, List.map_map, Nat.max_eq_left hn]
  rfl

theorem plannedAssignments_eq (draws : Draws) (objective : String)
    (targetItemCount agentCount : Option UInt16) :
    plannedAssignments draws objective targetItemCount agentCount =
      (Planner.new.decomposeObjectiveWithTarget draws.item draws.resource objective
        (Planner.new.resolveTargetItemCount targetItemCount)).mapIdx fun k item =>
          (item.id, draws.agent (k % Planner.new.resolveAgentCount agentCount)) := by
  have hn : 0 < Planner.new.resolveAgentCount agentCount := by
    rw [resolveAgentCount_eq]
    omega
  unfold plannedAssignments plannedItems assignItems
  generalize Planner.new.resolveAgentCount agentCount = n at hn
  apply List.ext_getElem
  · simp
  · intro k _ _
    simp [defaultAgents, Nat.max_eq_left (show 1 ≤ n from hn), Nat.mod_lt k hn]

/-- The ids that `start_run` draws are new: no event has the run's id as its resource, and no two
items and no two agents of the run have the same id. -/
structure Draws.NewIds (draws : Draws) (log : EventLog) : Prop where
  resource : stream log draws.resource = []
  item : ∀ j < 12, ∀ k < 12, draws.item j = draws.item k → j = k
  agent : ∀ j < 16, ∀ k < 16, draws.agent j = draws.agent k → j = k

/-- `batch` records the plan: the run is started with the first revision, then each of the items is
assigned to one of the agents, and no agent gets two items more than another. -/
structure RecordsPlan (runId workspaceId : Uuid) (objective : String) (items : List WorkItem)
    (agents : List Uuid) (batch : List EventEnvelope) (assigned : Assignments) : Prop where
  revisions : batch.map (·.revision) =
    (List.range (items.length + 1)).map fun k : Nat => (k : Int) + 1
  written : payloads batch = .runStarted workspaceId objective :: assigned.payloads runId
  planned : assigned.map (·.1) = items.map (·.id)
  distinct : (items.map (·.id)).Nodup
  minted : ∀ x ∈ assigned, x.2 ∈ agents
  balanced : ∀ a ∈ agents, ∀ b ∈ agents,
    (assigned.map (·.2)).count a ≤ (assigned.map (·.2)).count b + 1

section plan

variable {draws : Draws} {log log' : EventLog} {workspaceId runId : Uuid} {objective : String}
  {targetItemCount agentCount : Option UInt16}

theorem Draws.NewIds.nodup_items (h : draws.NewIds log) (runId : Uuid) (objective : String)
    (requestedItemCount : Nat) :
    ((Planner.new.decomposeObjectiveWithTarget draws.item runId objective
      requestedItemCount).map (·.id)).Nodup := by
  have hle := length_decompose_le draws.item runId objective requestedItemCount
  obtain ⟨n, hids⟩ := map_id_decompose Planner.new draws.item runId objective requestedItemCount
  have hn := congrArg List.length hids
  rw [List.length_map, List.length_map, List.length_range] at hn
  rw [hids, List.nodup_map_iff_inj_on List.nodup_range]
  intro j hj k hk heq
  rw [List.mem_range] at hj hk
  exact h.item j (by omega) k (by omega) heq

theorem Draws.NewIds.nodup_agents (h : draws.NewIds log) {n : Nat} (hn : n ≤ 16) :
    ((List.range n).map draws.agent).Nodup := by
  rw [List.nodup_map_iff_inj_on List.nodup_range]
  intro j hj k hk heq
  rw [List.mem_range] at hj hk
  exact h.agent j (by omega) k (by omega) heq

theorem count_dealt_le (h : draws.NewIds log) {n m : Nat} (hn : n ≤ 16) {a b : Uuid}
    (ha : a ∈ (List.range n).map draws.agent) (hb : b ∈ (List.range n).map draws.agent) :
    ((List.range m).map fun k => draws.agent (k % n)).count a ≤
      ((List.range m).map fun k => draws.agent (k % n)).count b + 1 := by
  obtain ⟨i, hi, rfl⟩ := List.mem_map.mp ha
  obtain ⟨j, hj, rfl⟩ := List.mem_map.mp hb
  rw [List.mem_range] at hi hj
  have hinj : ∀ j < n, ∀ k < n, draws.agent j = draws.agent k → j = k :=
    fun j hj k hk => h.agent j (by omega) k (by omega)
  rw [count_dealt hi hinj, count_dealt hj hinj]
  split <;> omega

theorem nextRevision_of_nil {r : Uuid} (h : stream log r = []) : nextRevision log r = .ok 1 := by
  rw [nextRevision, load, h]
  rfl

theorem startRun_appends (hnew : stream log draws.resource = [])
    (hok : startRun draws log workspaceId objective targetItemCount agentCount =
      .ok (runId, log')) :
    runId = draws.resource ∧ log' = log ++ newEvents draws draws.resource 1
      (startRunPayloads draws workspaceId objective targetItemCount agentCount) := by
  obtain ⟨hid, happ⟩ := startRun_eq_ok.mp hok
  rw [appendNext, nextRevision_of_nil hnew] at happ
  simp only [bind, Except.bind] at happ
  obtain ⟨hlog, -⟩ := append_eq_ok.mp happ
  rw [map_bindTo_newEvents] at hlog
  exact ⟨hid, hlog⟩

namespace RecordsPlan

variable {items : List WorkItem} {agents : List Uuid} {batch : List EventEnvelope}
  {assigned : Assignments}

theorem ne_nil (h : RecordsPlan runId workspaceId objective items agents batch assigned) :
    batch ≠ [] := by
  intro hnil
  have hwritten := h.written
  rw [hnil] at hwritten
  exact List.cons_ne_nil _ _ hwritten.symm

theorem runEvents_eq (h : RecordsPlan runId workspaceId objective items agents batch assigned)
    (hresource : ∀ e ∈ batch, e.resourceId = runId) : runEvents batch runId = batch := by
  rw [runEvents, List.filter_eq_self]
  intro e he
  have hp : e.payload ∈ payloads batch := List.mem_map_of_mem he
  rw [h.written] at hp
  rw [decide_eq_true_eq, runIdForEvent]
  rcases List.mem_cons.mp hp with heq | hp
  · rw [heq, ← hresource e he]
  · obtain ⟨x, -, heq⟩ := Assignments.mem_payloads hp
    rw [heq]
    rfl

theorem lastWrite_itemStatus
    (h : RecordsPlan runId workspaceId objective items agents batch assigned) (i : Uuid) :
    lastWrite (EventPayload.itemStatus? i) (payloads batch) =
      if i ∈ assigned.map (·.1) then some .assigned else none := by
  rw [h.written, lastWrite_cons, Assignments.lastWrite_itemStatus]
  exact Option.or_none

theorem lastWrite_itemAgent
    (h : RecordsPlan runId workspaceId objective items agents batch assigned) {i a : Uuid}
    (hx : (i, a) ∈ assigned) :
    lastWrite (EventPayload.itemAgent? i) (payloads batch) = some a := by
  have hnodup : (assigned.map (·.1)).Nodup := h.planned ▸ h.distinct
  rw [h.written, lastWrite_cons, Assignments.lastWrite_itemAgent hx hnodup]
  rfl

theorem replay (h : RecordsPlan runId workspaceId objective items agents batch assigned)
    (hresource : ∀ e ∈ batch, e.resourceId = runId) :
    ∃ state, (runStatesFromEvents batch).lookup runId = some state ∧ state.status = "running" ∧
      ∀ i item, state.items.lookup i = some item ↔
        ∃ a, (i, a) ∈ assigned ∧ item = ⟨.assigned, some a⟩ := by
  obtain ⟨state, hstate⟩ := Option.isSome_iff_exists.mp (replayRun_isSome.mpr h.ne_nil)
  refine ⟨state, by rw [lookup_runStatesFromEvents, h.runEvents_eq hresource, hstate], ?_,
    fun i item => ?_⟩
  · rw [status_replayRun hstate, h.written, lastWrite_cons,
      Assignments.lastWrite_eq_none fun _ _ => rfl]
    rfl
  · rw [lookup_items_replayRun hstate, h.lastWrite_itemStatus]
    constructor
    · intro hitem
      split at hitem
      · next hmem =>
        obtain ⟨⟨j, a⟩, hx, rfl⟩ := List.mem_map.mp hmem
        obtain rfl := Option.some.inj hitem
        rw [h.lastWrite_itemAgent hx]
        exact ⟨a, hx, rfl⟩
      · cases hitem
    · rintro ⟨a, hx, rfl⟩
      rw [if_pos (List.mem_map.mpr ⟨_, hx, rfl⟩), h.lastWrite_itemAgent hx]
      rfl

end RecordsPlan

theorem load_started (hnew : stream log draws.resource = []) :
    load (log ++ newEvents draws draws.resource 1
      (startRunPayloads draws workspaceId objective targetItemCount agentCount)) draws.resource =
        .ok (newEvents draws draws.resource 1
          (startRunPayloads draws workspaceId objective targetItemCount agentCount)) := by
  generalize hps : startRunPayloads draws workspaceId objective targetItemCount agentCount = ps
  have hstream : stream (log ++ newEvents draws draws.resource 1 ps) draws.resource =
      newEvents draws draws.resource 1 ps := by
    rw [stream_append, hnew, List.nil_append, ← map_bindTo_newEvents, stream_map_bindTo, if_pos rfl]
  have hcons : Consecutive 0 (newEvents draws draws.resource 1 ps) :=
    consecutive_newEvents draws draws.resource 0 ps
  rw [← hstream] at hcons
  refine (hcons.load_eq_ok.mpr ⟨rfl, fun e he => ?_⟩).trans (by rw [hstream])
  have hp : e.payload ∈ payloads (newEvents draws draws.resource 1 ps) :=
    List.mem_map_of_mem (hstream ▸ he)
  rw [payloads_newEvents, ← hps, startRunPayloads_eq] at hp
  rcases List.mem_cons.mp hp with heq | hp
  · rw [heq]
    rfl
  · obtain ⟨x, -, heq⟩ := Assignments.mem_payloads hp
    rw [heq]
    rfl

theorem map_snd_plannedAssignments (draws : Draws) (objective : String)
    (targetItemCount agentCount : Option UInt16) :
    (plannedAssignments draws objective targetItemCount agentCount).map (·.2) =
      (List.range (Planner.new.decomposeObjectiveWithTarget draws.item draws.resource objective
        (Planner.new.resolveTargetItemCount targetItemCount)).length).map fun k =>
          draws.agent (k % Planner.new.resolveAgentCount agentCount) := by
  rw [plannedAssignments_eq]
  apply List.ext_getElem <;> simp

theorem map_revision_started (draws : Draws) (workspaceId : Uuid) (objective : String)
    (targetItemCount agentCount : Option UInt16) :
    (newEvents draws draws.resource 1
      (startRunPayloads draws workspaceId objective targetItemCount agentCount)).map (·.revision) =
        (List.range ((Planner.new.decomposeObjectiveWithTarget draws.item draws.resource objective
          (Planner.new.resolveTargetItemCount targetItemCount)).length + 1)).map
            fun k : Nat => (k : Int) + 1 := by
  have hcons := consecutive_newEvents draws draws.resource 0
    (startRunPayloads draws workspaceId objective targetItemCount agentCount)
  rw [zero_add] at hcons
  rw [hcons.map_revision, newEvents, List.length_mapIdx, startRunPayloads_eq, plannedAssignments_eq]
  simp [Assignments.payloads]

theorem recordsPlan_startRun (hnew : draws.NewIds log) (workspaceId : Uuid) (objective : String)
    (targetItemCount agentCount : Option UInt16) :
    RecordsPlan draws.resource workspaceId objective
      (Planner.new.decomposeObjectiveWithTarget draws.item draws.resource objective
        (Planner.new.resolveTargetItemCount targetItemCount))
      ((List.range (Planner.new.resolveAgentCount agentCount)).map draws.agent)
      (newEvents draws draws.resource 1
        (startRunPayloads draws workspaceId objective targetItemCount agentCount))
      (plannedAssignments draws objective targetItemCount agentCount) where
  revisions := map_revision_started draws workspaceId objective targetItemCount agentCount
  written := by rw [payloads_newEvents, startRunPayloads_eq]
  planned := by
    rw [plannedAssignments_eq]
    apply List.ext_getElem <;> simp
  distinct := hnew.nodup_items _ _ _
  minted := by
    intro x hx
    have hn := resolveAgentCount_eq agentCount
    have hmem : x.2 ∈ (plannedAssignments draws objective targetItemCount agentCount).map (·.2) :=
      List.mem_map_of_mem hx
    rw [map_snd_plannedAssignments] at hmem
    obtain ⟨k, -, heq⟩ := List.mem_map.mp hmem
    rw [← heq]
    exact List.mem_map.mpr ⟨_, List.mem_range.mpr (Nat.mod_lt k (by omega)), rfl⟩
  balanced := by
    have hn := resolveAgentCount_eq agentCount
    rw [map_snd_plannedAssignments]
    exact fun a ha b hb => count_dealt_le hnew (by omega) ha hb

/-- A successful `start_run` lays down the whole plan of the run, in one batch on a new stream. -/
theorem startRun_lays_plan (hnew : draws.NewIds log)
    (hok : startRun draws log workspaceId objective targetItemCount agentCount =
      .ok (runId, log')) :
    let items := Planner.new.decomposeObjectiveWithTarget draws.item runId objective
      (Planner.new.resolveTargetItemCount targetItemCount)
    let agents := (defaultAgents draws (Planner.new.resolveAgentCount agentCount)).map (·.id)
    1 ≤ items.length ∧ items.length ≤ 12 ∧
      agents.length = min 16 (max 1 ((agentCount.map (·.toNat)).getD 1)) ∧ agents.Nodup ∧
      ∃ batch assigned,
        RecordsPlan runId workspaceId objective items agents batch assigned ∧
          stream log runId = [] ∧ log' = log ++ batch ∧ load log' runId = .ok batch ∧
          ∃ state, (runStatesFromEvents batch).lookup runId = some state ∧
            state.status = "running" ∧
            ∀ i item, state.items.lookup i = some item ↔
              ∃ a, (i, a) ∈ assigned ∧ item = ⟨.assigned, some a⟩ := by
  obtain ⟨rfl, hlog⟩ := startRun_appends hnew.resource hok
  intro items agents
  have hn := resolveAgentCount_eq agentCount
  have hagents : agents = (List.range (Planner.new.resolveAgentCount agentCount)).map draws.agent :=
    map_id_defaultAgents draws (by omega)
  have hplan := recordsPlan_startRun hnew workspaceId objective targetItemCount agentCount
  rw [← hagents] at hplan
  refine ⟨length_decompose_pos _ _ _ _, length_decompose_le _ _ _ _, ?_, ?_, _, _, hplan,
    hnew.resource, hlog, ?_, hplan.replay fun e he => resourceId_newEvents he⟩
  · rw [hagents, List.length_map, List.length_range, hn]
  · rw [hagents]
    exact hnew.nodup_agents (by omega)
  · rw [hlog]
    exact load_started hnew.resource

end plan

def dealtLog : EventLog :=
  logAfter (startRun (.counting sampleRun 100) [] sampleWorkspace "a b c d e" (some 3) (some 2))

theorem counting_newIds : (Draws.counting sampleRun 100).NewIds [] :=
  ⟨rfl, by decide +kernel, by decide +kernel⟩

/-- The run is laid down with three items for two agents. -/
theorem startRun_lays_plan_sample :
    ∃ assigned : Assignments, assigned.length = 3 ∧ (∀ x ∈ assigned, x.2 = ⟨20⟩ ∨ x.2 = ⟨21⟩) ∧
      ∃ state, (runStatesFromEvents dealtLog).lookup sampleRun = some state ∧
        state.status = "running" ∧ ∀ i item, state.items.lookup i = some item ↔
          ∃ a, (i, a) ∈ assigned ∧ item = ⟨.assigned, some a⟩ := by
  have hok : startRun (.counting sampleRun 100) [] sampleWorkspace "a b c d e" (some 3) (some 2) =
      .ok (sampleRun, dealtLog) := rfl
  obtain ⟨-, -, -, -, batch, assigned, hplan, -, hlog, -, hstate⟩ :=
    startRun_lays_plan counting_newIds hok
  obtain rfl : dealtLog = batch := hlog
  refine ⟨assigned, ?_, fun x hx => ?_, hstate⟩
  · have hlength := congrArg List.length hplan.planned
    rw [List.length_map] at hlength
    exact hlength.trans (by decide +kernel)
  · have hmem := hplan.minted x hx
    rwa [show (defaultAgents (.counting sampleRun 100) _).map (·.id) = [⟨20⟩, ⟨21⟩] from rfl,
      List.mem_cons, List.mem_singleton] at hmem

end SamtaDashboard

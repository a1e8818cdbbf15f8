import SamtaDashboard.Api.ReadRoutes
import SamtaDashboard.Lib.Watch
import SamtaDashboard.System.Backing
import SamtaDashboard.System.CostHistory
import SamtaDashboard.System.RowWriters

/-!
# `run_status` while the processes go on

The five statements of `run_status` see the database at five times, between which requests, workers and
rebuilds take any steps. The answer is not a state that the database was in, but it fits together
(`CutOf`): no part of it knows of an event of the run that a later part does not know of.
-/

namespace SamtaDashboard

open EventFold Transition

/-! ### What a scan sees -/

section views

variable {log : EventLog} {store : ProjectionStore} {view : DbView}

theorem DbView.Shows.find?_runs (h : view.Shows log store) (hkeyed : store.Keyed) (runId : Uuid) :
    view.runs.find? (·.runId = runId) = store.runs runId := by
  cases hfind : view.runs.find? (·.runId = runId) with
  | none =>
    cases hrow : store.runs runId with
    | none => rfl
    | some row =>
      obtain rfl := hkeyed runId row hrow
      have hmem := (h.runs row).mpr hrow
      have hnot := List.find?_eq_none.mp hfind row hmem
      simp at hnot
  | some row =>
    have hid : row.runId = runId := by simpa using List.find?_some hfind
    rw [← hid, (h.runs row).mp (List.mem_of_find?_eq_some hfind)]

/-- A scan by the ids that the log names. -/
def DbView.of (log : EventLog) (store : ProjectionStore) : DbView where
  log := log
  runs := (log.map (·.resourceId)).dedup.filterMap store.runs
  items := (log.filterMap (·.payload.itemId?)).dedup.filterMap store.items

theorem nodup_map_filterMap {V : Type} {f : Uuid → Option V} {key : V → Uuid}
    (hkey : ∀ k v, f k = some v → key v = k) {ids : List Uuid} (hids : ids.Nodup) :
    ((ids.filterMap f).map key).Nodup := by
  have hsub : ((ids.filterMap f).map key).Sublist ids := by
    induction ids with
    | nil => exact List.Sublist.refl []
    | cons k ids ih =>
      rw [List.nodup_cons] at hids
      cases h : f k with
      | none =>
        rw [List.filterMap_cons_none h]
        exact (ih hids.2).cons k
      | some v =>
        rw [List.filterMap_cons_some h, List.map_cons, hkey k v h]
        exact (ih hids.2).cons_cons k
  exact hids.sublist hsub

theorem ProjectionStore.Backed.shows (h : store.Backed log) (hkeyed : store.Keyed) :
    (DbView.of log store).Shows log store where
  log := rfl
  runIds := nodup_map_filterMap hkeyed (List.nodup_dedup _)
  runs := fun row => by
    refine ⟨fun hrow => ?_, fun hrow => ?_⟩
    · obtain ⟨r, -, hrow⟩ := List.mem_filterMap.mp hrow
      rwa [hkeyed r row hrow]
    · obtain ⟨e, he⟩ := List.exists_mem_of_ne_nil _ (h.runs row.runId (by simp [hrow]))
      obtain ⟨he, hres⟩ := mem_stream.mp he
      exact List.mem_filterMap.mpr ⟨row.runId, List.mem_dedup.mpr (hres ▸ List.mem_map_of_mem he), hrow⟩
  itemIds := nodup_map_filterMap (fun i row hrow => (h.items i row hrow).1) (List.nodup_dedup _)
  items := fun row => by
    refine ⟨fun hrow => ?_, fun hrow => ?_⟩
    · obtain ⟨i, -, hrow⟩ := List.mem_filterMap.mp hrow
      rwa [(h.items i row hrow).1]
    · obtain ⟨-, e, he, hitem⟩ := h.items _ row hrow
      exact List.mem_filterMap.mpr ⟨row.itemId, List.mem_dedup.mpr
        (List.mem_filterMap.mpr ⟨e, (mem_stream.mp he).1, hitem⟩), hrow⟩

end views

/-! ### The parts of an answer fit together -/

/-- What an answer has to do with the database at the times of the five statements. The row is the one
at the first; no event that its values are computed from is missing in the count of the second, nor an
event of the count under the revision of the third, nor one under that revision in the timeline of the
fifth. Every item of the fourth is named in the timeline, and the history of the timeline ends. -/
structure CutOf (boards : Nat → Board) (r : Uuid) (response : RunStatusResponse) : Prop where
  row : ∃ row, (boards 0).store.runs r = some row ∧ response.runId = r ∧
    response.workspaceId = row.workspaceId ∧ response.status = row.status ∧
    response.totalCost = row.totalCost ∧ response.effortPoints = row.effortPoints ∧
    response.updatedAt = row.updatedAt
  basis : ∀ e ∈ ((boards 0).basis r).status ++ ((boards 0).basis r).totals,
    e.revision ≤ response.streamEventCount
  count : 1 ≤ response.streamEventCount ∧ (response.streamEventCount : Int) ≤ response.streamRevision
  revision : response.streamRevision ≤ response.timeline.length
  latest : ∃ entry ∈ response.timeline, entry.revision = response.streamRevision ∧
    response.latestEventType = some entry.eventType ∧ response.latestEventAt = some entry.occurredAt
  items : ∀ item, item ∈ response.workItems ↔
    item.runId = r ∧ (boards 3).store.items item.itemId = some item
  named : ∀ item ∈ response.workItems, ∃ e ∈ stream (boards 4).world.log r,
    e.payload.itemId? = some item.itemId
  timeline : response.timeline =
    (stream (boards 4).world.log r).map fun e => .ofRow (EventRow.ofEnvelope e)
  revisions : response.timeline.map (·.revision) =
    (List.range response.timeline.length).map fun k : Nat => (k : Int) + 1
  ends : response.costEffortHistory.isSome
  history : (∀ e ∈ stream (boards 4).world.log r, e.payload.costIsFinite) →
    response.costEffortHistory = some (runningSums (stream (boards 4).world.log r))

theorem GapFree.getLast?_stream {log : EventLog} (h : GapFree log) {r : Uuid}
    (hne : stream log r ≠ []) :
    ∃ e, (stream log r).getLast? = some e ∧ e.revision = (stream log r).length := by
  have hcons := h r
  obtain ⟨front, e, hfront⟩ := List.eq_nil_or_concat' (stream log r) |>.resolve_left hne
  refine ⟨e, by simp [hfront], ?_⟩
  rw [hfront, consecutive_append] at hcons
  have hlast := hcons.2.1
  rw [hfront, List.length_append]
  simpa using hlast

section cut

variable {d : Deployment} {boards : Nat → Board} {views : Nat → DbView} {seen : Statements} {r : Uuid}

theorem stream_watched (hwatch : Watches (projecting d) boards) (r : Uuid) {j k : Nat} (hle : j ≤ k) :
    stream (boards j).world.log r <+: stream (boards k).world.log r := by
  have hlog := hwatch.mono (R := fun s s' => s.world.log <+: s'.world.log)
    (fun _ => List.prefix_rfl) (fun _ _ _ => List.IsPrefix.trans)
    (fun _ _ _ hs hstep => hstep.log_mono (Board.Inv.of_reach hs)) hle
  exact stream_mono hlog r

theorem stream_ne_nil_watched (hwatch : Watches (projecting d) boards) {row : AgentRunProjection}
    (hrow : (boards 0).store.runs r = some row) (k : Nat) : stream (boards k).world.log r ≠ [] := by
  have hfirst := (Board.Backed.of_reach (hwatch.reachable 0)).store.runs r (by simp [hrow])
  exact List.IsPrefix.ne_nil (stream_watched hwatch r (Nat.zero_le k)) hfirst

/-- The row is computed from events that the later statements count. -/
theorem basis_watched (hwatch : Watches (projecting d) boards) (k : Nat) :
    ∀ e ∈ ((boards 0).basis r).status ++ ((boards 0).basis r).totals,
      e.revision ≤ (stream (boards k).world.log r).length := by
  have hinv := Board.Inv.of_reach (hwatch.reachable 0)
  have hwf : WellFormed (boards 0).world.log := hinv.world.sound.wellFormed
  intro e he
  have hlog : e ∈ (boards 0).world.log ∧ runIdForEvent e = some r :=
    (List.mem_append.mp he).elim ((hinv.basis r).status e) ((hinv.basis r).totals e)
  have hmem : e ∈ stream (boards 0).world.log r :=
    mem_stream.mpr ⟨hlog.1, hwf.resourceId_eq hlog.1 hlog.2⟩
  have hrevision := ((hwf.gapFree r).revision_mem hmem).2
  have hlength := (stream_watched hwatch r (Nat.zero_le k)).length_le
  omega

/-- While requests, workers and rebuilds go on, `run_status` answers 404 if the run has no row at the
first statement, and else with parts that fit together. -/
theorem runStatus_cut (hwatch : Watches (projecting d) boards)
    (hseen : ∀ k < 5, seen k = .ok (views k))
    (hviews : ∀ k < 5, (views k).Shows (boards k).world.log (boards k).store) (fuel : Nat) (r : Uuid) :
    ((boards 0).store.runs r = none ∧
        runStatus (fuel + 1) seen r = .error (.notFound, "run not found")) ∨
      ∃ response, runStatus (fuel + 1) seen r = .ok response ∧ CutOf boards r response := by
  have hinv := fun k => Board.Inv.of_reach (hwatch.reachable k)
  have hbacked := fun k => Board.Backed.of_reach (hwatch.reachable k)
  have hgap : ∀ k, GapFree (boards k).world.log := fun k => (hinv k).world.sound.wellFormed.gapFree
  have hlog := fun k hk => (hviews k hk).log
  rw [runStatus_eq hseen, (hviews 0 (by omega)).find?_runs (hinv 0).keyed, hlog 1 (by omega),
    hlog 2 (by omega), hlog 4 (by omega)]
  cases hrow : (boards 0).store.runs r with
  | none => exact Or.inl ⟨rfl, rfl⟩
  | some row =>
    refine Or.inr ⟨_, rfl, ?_⟩
    obtain rfl := (hinv 0).keyed r row hrow
    have hne := stream_ne_nil_watched hwatch hrow
    obtain ⟨last, hlast, hrevision⟩ := (hgap 2).getLast?_stream (hne 2)
    have hlatest := (hgap 2 row.runId).latestRow_eq
    rw [hlast, Option.map_some] at hlatest
    have htimeline := (hgap 4 row.runId).timelineRows_eq
    have hcount := (stream_watched hwatch row.runId (show 1 ≤ 2 by omega)).length_le
    have hlength := (stream_watched hwatch row.runId (show 2 ≤ 4 by omega)).length_le
    rw [hlatest, htimeline]
    constructor
    · exact ⟨row, hrow, rfl, rfl, rfl, rfl, rfl, rfl⟩
    · exact basis_watched hwatch 1
    · refine ⟨List.length_pos_of_ne_nil (hne 1), ?_⟩
      show ((stream (boards 1).world.log row.runId).length : Int) ≤ last.revision
      omega
    · show last.revision ≤ _
      rw [RunStatusResponse.of, List.length_map, List.length_map]
      omega
    · refine ⟨.ofRow (.ofEnvelope last), ?_, rfl, rfl, rfl⟩
      have hmem := (stream_watched hwatch row.runId (show 2 ≤ 4 by omega)).subset
        (List.mem_of_getLast? hlast)
      exact List.mem_map_of_mem (List.mem_map_of_mem hmem)
    · intro item
      show item ∈ (views 3).items.filter _ ↔ _
      rw [List.mem_filter, decide_eq_true_eq, (hviews 3 (by omega)).items, and_comm]
    · intro item hitem
      obtain ⟨hmem, hrun⟩ := List.mem_filter.mp hitem
      obtain ⟨-, e, he, hnamed⟩ := (hbacked 3).store.items _ _ (((hviews 3 (by omega)).items item).mp hmem)
      rw [decide_eq_true_eq.mp hrun] at he
      exact ⟨e, (stream_watched hwatch row.runId (show 3 ≤ 4 by omega)).subset he, hnamed⟩
    · exact List.map_map
    · have hrevisions := (hgap 4 row.runId).map_revision
      rw [RunStatusResponse.of, List.map_map, List.map_map, List.length_map, List.length_map]
      exact hrevisions
    · exact buildCostEffortHistory_isSome fuel _
    · exact fun hfinite => buildCostEffortHistory_eq fuel hfinite

end cut

def readActions : List BoardAction := promptWriteActions ++ [.write (.worker 0) 0]

/-- A reader comes after the start, and two steps later again. -/
def readBoards (k : Nat) : Board := boardAfter (readActions.take (4 + 2 * k))

theorem readBoards_watched : Watches (projecting sampleDeployment) readBoards :=
  .of_play (fun _ _ _ => Board.step_of_play) rfl (by decide +kernel)
    fun k => show 4 + 2 * k ≤ 4 + 2 * (k + 1) by omega

/-- The count is from before the execution, the revision from after it, and the row is still that of the
start. -/
theorem runStatus_cut_readBoards :
    ∃ response, runStatus 1 (fun k => .ok (.of (readBoards k).world.log (readBoards k).store))
        sampleRun = .ok response ∧ CutOf readBoards sampleRun response ∧
      response.streamEventCount = 2 ∧ response.streamRevision = 6 ∧ response.status = "running" := by
  have hvalues : (runStatus 1 (fun k => .ok (.of (readBoards k).world.log (readBoards k).store))
      sampleRun).toOption.map (fun response => (response.streamEventCount, response.streamRevision,
        response.status)) = some (2, 6, "running") := by decide +kernel
  have hviews : ∀ k < 5, (DbView.of (readBoards k).world.log (readBoards k).store).Shows
      (readBoards k).world.log (readBoards k).store := fun k _ =>
    have hreach := readBoards_watched.reachable k
    (Board.Backed.of_reach hreach).store.shows (Board.Inv.of_reach hreach).keyed
  rcases runStatus_cut readBoards_watched (fun _ _ => rfl) hviews 0 sampleRun with
    ⟨-, herror⟩ | ⟨response, hresponse, hcut⟩
  · rw [herror] at hvalues
    cases hvalues
  · rw [hresponse] at hvalues
    obtain ⟨hcount, hrevision, hstatus⟩ := Prod.mk.inj (Option.some.inj hvalues) |>.imp_right Prod.mk.inj
    exact ⟨response, hresponse, hcut, hcount, hrevision, hstatus⟩

end SamtaDashboard

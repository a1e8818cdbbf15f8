import SamtaDashboard.Infra.Replay
import SamtaDashboard.Infra.Transactions
import SamtaDashboard.Lib.Faulty

/-!
# `infra::replay` on a database that fails

`rebuild_projections` clears the two tables with a statement each and writes every row with a statement
of its own, outside a transaction. `rebuildProgram` issues these statements one after the other, and
each of them may fail. A rebuild that fails has left the tables alone only if nothing was written, or if
what was written before the failure was there before (`rebuild_intact_iff`).
-/

namespace SamtaDashboard

open Faulty Faulty.Program

/-- The orders that are up to the database and to the hash maps: the rows of `load_all`, and the
iterations over `run_states` and `item_states`. -/
structure RebuildOrder (log : EventLog) where
  rows : List EventEnvelope
  inTimeOrder : InTimeOrder log rows
  runOrder : List EventEnvelope → List Uuid
  runOrder_isOrder : ∀ events,
    (RebuildState.fromEvents events).runStates.IsOrder (runOrder events)
  itemOrder : List EventEnvelope → List Uuid
  itemOrder_isOrder : ∀ events,
    (RebuildState.fromEvents events).itemStates.IsOrder (itemOrder events)

namespace RebuildOrder

variable {log : EventLog} (order : RebuildOrder log)

/-- `load_all`. -/
def loaded : Except String (List EventEnvelope) := order.rows.mapM readBack

/-- The calls of `upsert_run_projection`. -/
def runWrites (events : List EventEnvelope) : List (ProjectionStore → ProjectionStore) :=
  ((order.runOrder events).filterMap (RebuildState.fromEvents events).runStates.lookup).map
    fun row store => store.upsertRunProjection row

/-- The calls of `upsert_work_item_projection`. -/
def itemWrites (events : List EventEnvelope) : List (ProjectionStore → ProjectionStore) :=
  ((order.itemOrder events).filterMap (RebuildState.fromEvents events).itemStates.lookup).map
    fun row store => store.upsertWorkItemProjection row

def upserts (events : List EventEnvelope) : List (ProjectionStore → ProjectionStore) :=
  order.runWrites events ++ order.itemWrites events

end RebuildOrder

/-- `DELETE FROM work_items_projection`. -/
def ProjectionStore.deleteItems (store : ProjectionStore) : ProjectionStore :=
  { store with items := fun _ => none }

/-- `DELETE FROM agent_runs_projection`. -/
def ProjectionStore.deleteRuns (store : ProjectionStore) : ProjectionStore :=
  { store with runs := fun _ => none }

/-- `clear`. -/
def clearProgram : Program ProjectionStore String String Unit := do
  write id ProjectionStore.deleteItems
  write id ProjectionStore.deleteRuns

/-- `rebuild_projections`. -/
def rebuildProgram {log : EventLog} (order : RebuildOrder log) :
    Program ProjectionStore String String Nat := do
  let events ← read id fun _ => order.loaded
  clearProgram
  writeAll id (order.runWrites events)
  writeAll id (order.itemWrites events)
  return (RebuildState.fromEvents events).runStates.entries.length

section rebuild

variable {log : EventLog} {order : RebuildOrder log} {events : List EventEnvelope}
  {faults : Nat → Fault String} {store : ProjectionStore}

def RebuildOrder.writes (order : RebuildOrder log) (events : List EventEnvelope) :
    List (ProjectionStore → ProjectionStore) :=
  .deleteItems :: .deleteRuns :: order.upserts events

theorem rebuildProgram_eq (order : RebuildOrder log) :
    rebuildProgram order = do
      let events ← read id fun _ => order.loaded
      writeAll id (order.writes events)
      return (RebuildState.fromEvents events).runStates.entries.length := by
  unfold rebuildProgram clearProgram
  congr 1
  funext events
  simp only [RebuildOrder.writes, RebuildOrder.upserts, writeAll_cons, writeAll_append, bind_assoc]

theorem applyAll_writes (order : RebuildOrder log) (events : List EventEnvelope)
    (store : ProjectionStore) : applyAll (order.writes events) store =
      (rebuildProjections (order.runOrder events) (order.itemOrder events) events store).1 := by
  simp only [applyAll, RebuildOrder.writes, RebuildOrder.upserts, RebuildOrder.runWrites,
    RebuildOrder.itemWrites, List.foldl_cons, List.foldl_append, List.foldl_map]
  rfl

theorem rebuildProgram_of_unread (order : RebuildOrder log)
    (h : faults 0 ≠ .none ∨ ∃ error, order.loaded = .error error) (store : ProjectionStore) :
    ∃ error, (rebuildProgram order).run faults 0 store = ⟨.error error, store, 1⟩ := by
  rw [rebuildProgram_eq]
  by_cases hfault : faults 0 = .none
  · obtain ⟨error, hload⟩ := h.resolve_left (not_not.mpr hfault)
    exact ⟨error, bind_of_error (read_of_error hfault hload)⟩
  · obtain ⟨error, hread⟩ := read_of_fault hfault
    exact ⟨error, bind_of_error hread⟩

theorem rebuildProgram_of_read (hfault : faults 0 = .none) (hload : order.loaded = .ok events)
    (store : ProjectionStore) : (rebuildProgram order).run faults 0 store =
      (do writeAll id (order.writes events)
          return (RebuildState.fromEvents events).runStates.entries.length :
        Program ProjectionStore String String Nat).run faults 1 store := by
  rw [rebuildProgram_eq]
  exact bind_of_ok (read_of_ok hfault hload)

theorem rebuildProgram_of_none (hload : order.loaded = .ok events)
    (hfaults : ∀ n, faults n = .none) (store : ProjectionStore) :
    ((rebuildProgram order).run faults 0 store).result = .ok
        (rebuildProjections (order.runOrder events) (order.itemOrder events) events store).2 ∧
      ((rebuildProgram order).run faults 0 store).storage =
        (rebuildProjections (order.runOrder events) (order.itemOrder events) events store).1 := by
  rw [rebuildProgram_of_read (hfaults 0) hload,
    bind_of_ok (writeAll_of_none id (fun j _ => hfaults (1 + j)) store)]
  exact ⟨rfl, applyAll_writes order events store⟩

/-- The tables have held all the time what the first `k` writes of a rebuild leave in them. -/
def RebuildOrder.Held (order : RebuildOrder log) (events : List EventEnvelope)
    (store : ProjectionStore) : Nat → Prop
  | 0 => True
  | 1 => store.items = fun _ => none
  | k + 2 => store = applyAll ((order.upserts events).take k) .empty

theorem RebuildOrder.held_iff (order : RebuildOrder log) (events : List EventEnvelope)
    (store : ProjectionStore) (k : Nat) :
    applyAll ((order.writes events).take k) store = store ↔ order.Held events store k := by
  match k with
  | 0 => exact iff_of_true rfl trivial
  | 1 =>
    show store.deleteItems = store ↔ store.items = _
    refine ⟨fun h => ?_, fun h => ?_⟩
    · rw [← h]
      rfl
    · rw [ProjectionStore.deleteItems, ← h]
  | k + 2 =>
    show applyAll ((order.upserts events).take k) .empty = store ↔ store = _
    exact eq_comm

/-- A rebuild that fails leaves the tables as they were exactly if it could not read the log, or none of
its writes took effect, or only the first `DELETE` did and there were no items, or else the tables held
no more and no less than the rows that it wrote again before the failure. -/
theorem rebuild_intact_iff (order : RebuildOrder log) (faults : Nat → Fault String)
    (store : ProjectionStore) :
    ((∃ error, ((rebuildProgram order).run faults 0 store).result = .error error) →
        ((rebuildProgram order).run faults 0 store).storage = store) ↔
      ∀ events, faults 0 = .none → order.loaded = .ok events →
        (∃ j < (order.writes events).length, faults (1 + j) ≠ .none) →
          order.Held events store (tookEffect faults 1 (order.writes events).length) := by
  by_cases hread : faults 0 ≠ .none ∨ ∃ error, order.loaded = .error error
  · obtain ⟨error, hrun⟩ := rebuildProgram_of_unread order hread store
    refine iff_of_true (fun _ => by rw [hrun]) fun events hfault hload => ?_
    rcases hread with hne | ⟨error, herror⟩
    · exact absurd hfault hne
    · rw [hload] at herror
      cases herror
  · rw [not_or, not_not] at hread
    obtain ⟨hfault, hload⟩ := hread
    cases hloaded : order.loaded with
    | error error => exact absurd ⟨error, hloaded⟩ hload
    | ok events =>
      rw [rebuildProgram_of_read hfault hloaded]
      by_cases hwrites : ∃ j < (order.writes events).length, faults (1 + j) ≠ .none
      · obtain ⟨error, next, hrun⟩ := writeAll_of_fault id hwrites store
        rw [bind_of_error hrun]
        refine ⟨fun h events' _ hsame _ => ?_, fun h _ => ?_⟩
        · obtain rfl := Except.ok.inj hsame
          exact (order.held_iff events store _).mp (h ⟨error, rfl⟩)
        · exact (order.held_iff events store _).mpr (h events hfault rfl hwrites)
      · have hnone : ∀ j < (order.writes events).length, faults (1 + j) = .none := by
          intro j hj
          by_contra hne
          exact hwrites ⟨j, hj, hne⟩
        rw [bind_of_ok (writeAll_of_none id hnone store)]
        refine iff_of_true (fun ⟨error, herror⟩ => ?_) fun events' _ hsame hfails => ?_
        · cases herror
        · obtain rfl := Except.ok.inj hsame
          exact absurd hfails hwrites

end rebuild

/-! ### A run with one item -/

/-- A run has been started, with one item. -/
def plannedLog : EventLog :=
  [{ sampleEvent 10 1 with payload := .runStarted ⟨2⟩ "" },
    { sampleEvent 11 2 with payload := .workItemAssigned ⟨1⟩ ⟨10⟩ ⟨20⟩ }]

def plannedOrder : RebuildOrder plannedLog where
  rows := plannedLog
  inTimeOrder := ⟨.refl _, by decide⟩
  runOrder events := (RebuildState.fromEvents events).runStates.keys
  runOrder_isOrder _ := HashMap.isOrder_keys _
  itemOrder events := (RebuildState.fromEvents events).itemStates.keys
  itemOrder_isOrder _ := HashMap.isOrder_keys _

def plannedTables : ProjectionStore := ((rebuildProgram plannedOrder).run (fun _ => .none) 0 .empty).storage

/-- The connection is lost at the first upsert. -/
def lostAtUpsert : Nat → Fault String := fun n => if n = 3 then .before "connection reset" else .none

/-- Another rebuild fails at its first upsert, and the run is gone from the tables. -/
theorem rebuild_not_intact :
    ((rebuildProgram plannedOrder).run lostAtUpsert 0 plannedTables).result = .error "connection reset" ∧
      ((rebuildProgram plannedOrder).run lostAtUpsert 0 plannedTables).storage.runs ⟨1⟩ = none ∧
      ((rebuildProgram plannedOrder).run lostAtUpsert 0 plannedTables).storage ≠ plannedTables := by
  have hgone : ((rebuildProgram plannedOrder).run lostAtUpsert 0 plannedTables).storage.runs ⟨1⟩ = none := by
    decide +kernel
  have hthere : plannedTables.runs ⟨1⟩ ≠ none := by decide +kernel
  exact ⟨rfl, hgone, fun hsame => hthere (hsame ▸ hgone)⟩

end SamtaDashboard

import SamtaDashboard.Replays.Rebuild
import Mathlib.Data.Set.Card

/-!
# The tables of a rebuild are a function of the events

The rebuild clears the tables and writes the entries of its two maps, so neither the old rows nor the
orders of the maps are left in them (`rebuild_determined`). An arm of the fold that makes an entry for an
item makes one for the item's run in the same step, so every item row has its run row, whatever events
came before.
-/

namespace SamtaDashboard

open EventFold

namespace RebuildState

theorem isSome_lookup_runStates (events : List EventEnvelope) (r : Uuid) :
    ((fromEvents events).runStates.lookup r).isSome ↔
      ∃ e ∈ events, runIdForEvent e = some r := by
  have hnil : runEvents events r = [] ↔ ¬ ∃ e ∈ events, runIdForEvent e = some r := by
    simp [runEvents, List.filter_eq_nil_iff]
  rw [lookup_runStates]
  rcases List.eq_nil_or_concat' (runEvents events r) with h | ⟨front, e, h⟩
  · rw [h]
    simpa using hnil.mp h
  · have hne : runEvents events r ≠ [] := by simp [h]
    rw [h, List.foldl_append]
    simpa using not_not.mp (hnil.not.mp hne)

theorem runIdForEvent_of_itemKey {e : EventEnvelope} {i : Uuid} (h : itemKey e = some i) :
    ∃ r, runIdForEvent e = some r ∧ e.payload.runId? = some r := by
  unfold itemKey at h
  unfold runIdForEvent
  cases hp : e.payload <;> simp_all [EventPayload.itemId?, EventPayload.runId?]

theorem itemEntry_concat (i : Uuid) (events : List EventEnvelope) (e : EventEnvelope) :
    itemEntry i (events ++ [e]) =
      if itemKey e = some i then some (itemRow e (itemEntry i events)) else itemEntry i events := by
  rw [itemEntry, List.foldl_append]
  rfl

theorem isSome_itemEntry (i : Uuid) (events : List EventEnvelope) :
    (itemEntry i events).isSome ↔ ∃ e ∈ events, itemKey e = some i := by
  induction events using List.reverseRecOn with
  | nil => simp [itemEntry]
  | append_singleton events e ih =>
    rw [itemEntry_concat]
    split
    · next hkey => simp [hkey]
    · next hkey => simp [ih, hkey, or_and_right, exists_or]

theorem runIdForEvent_of_itemEntry {i : Uuid} {events : List EventEnvelope}
    {row : WorkItemProjection} (h : itemEntry i events = some row) :
    ∃ e ∈ events, runIdForEvent e = some row.runId := by
  induction events using List.reverseRecOn generalizing row with
  | nil => cases h
  | append_singleton events e ih =>
    rw [itemEntry_concat] at h
    split at h
    · next hkey =>
      obtain rfl := Option.some.inj h
      cases hentry : itemEntry i events with
      | none =>
        obtain ⟨r, hrun, hpayload⟩ := runIdForEvent_of_itemKey hkey
        exact ⟨e, by simp, by simp [itemRow, hpayload, hrun]⟩
      | some old =>
        obtain ⟨x, hx, hrun⟩ := ih hentry
        exact ⟨x, List.mem_append_left _ hx, hrun⟩
    · obtain ⟨x, hx, hrun⟩ := ih h
      exact ⟨x, List.mem_append_left _ hx, hrun⟩

end RebuildState

/-- The tables hold the rows of the runs and items that the events name, and nothing else; `count` is the
number of run rows. -/
structure TablesOf (events : List EventEnvelope) (store : ProjectionStore) (count : Nat) : Prop where
  runs : ∀ r, (store.runs r).isSome ↔ ∃ e ∈ events, runIdForEvent e = some r
  items : ∀ i, (store.items i).isSome ↔ ∃ e ∈ events, RebuildState.itemKey e = some i
  runId : ∀ r, ∀ row ∈ store.runs r, row.runId = r
  itemId : ∀ i, ∀ row ∈ store.items i, row.itemId = i
  run : ∀ i, ∀ row ∈ store.items i, (store.runs row.runId).isSome
  count : {r | (store.runs r).isSome}.ncard = count

section rebuild

variable {events : List EventEnvelope} {runOrder itemOrder runOrder' itemOrder' : List Uuid}

theorem rebuildProjections_eq (hruns : (RebuildState.fromEvents events).runStates.IsOrder runOrder)
    (hitems : (RebuildState.fromEvents events).itemStates.IsOrder itemOrder)
    (hruns' : (RebuildState.fromEvents events).runStates.IsOrder runOrder')
    (hitems' : (RebuildState.fromEvents events).itemStates.IsOrder itemOrder')
    (store store' : ProjectionStore) :
    rebuildProjections runOrder itemOrder events store =
      rebuildProjections runOrder' itemOrder' events store' := by
  refine Prod.ext ?_ rfl
  have hrows : ∀ r, (rebuildProjections runOrder itemOrder events store).1.runs r =
      (rebuildProjections runOrder' itemOrder' events store').1.runs r := fun r => by
    rw [runs_rebuildProjections hruns, runs_rebuildProjections hruns']
  have hitemRows : ∀ i, (rebuildProjections runOrder itemOrder events store).1.items i =
      (rebuildProjections runOrder' itemOrder' events store').1.items i := fun i => by
    rw [items_rebuildProjections hitems, items_rebuildProjections hitems']
  calc (rebuildProjections runOrder itemOrder events store).1
      = ⟨_, _⟩ := rfl
    _ = (rebuildProjections runOrder' itemOrder' events store').1 :=
      congrArg₂ ProjectionStore.mk (funext hrows) (funext hitemRows)

theorem ncard_isSome_lookup {V : Type} (m : HashMap V) :
    {k | (m.lookup k).isSome}.ncard = m.entries.length := by
  have hset : {k | (m.lookup k).isSome} = (m.keys.toFinset : Set Uuid) := by
    ext k
    simp only [Set.mem_ofPred_eq, List.coe_toFinset]
    exact AList.lookup_isSome
  rw [hset, Set.ncard_coe_finset, List.toFinset_card_of_nodup m.keys_nodup, AList.keys,
    List.keys, List.length_map]

theorem tablesOf_rebuildProjections
    (hruns : (RebuildState.fromEvents events).runStates.IsOrder runOrder)
    (hitems : (RebuildState.fromEvents events).itemStates.IsOrder itemOrder)
    (store : ProjectionStore) :
    TablesOf events (rebuildProjections runOrder itemOrder events store).1
      (rebuildProjections runOrder itemOrder events store).2 where
  runs := fun r => by
    rw [runs_rebuildProjections hruns]
    exact RebuildState.isSome_lookup_runStates events r
  items := fun i => by
    rw [items_rebuildProjections hitems, RebuildState.lookup_itemStates]
    exact RebuildState.isSome_itemEntry i events
  runId := fun r row hrow => by
    rw [runs_rebuildProjections hruns] at hrow
    exact RebuildState.runId_of_lookup hrow
  itemId := fun i row hrow => by
    rw [items_rebuildProjections hitems, RebuildState.lookup_itemStates] at hrow
    exact (RebuildState.keys_itemEntry hrow).1
  run := fun i row hrow => by
    rw [items_rebuildProjections hitems, RebuildState.lookup_itemStates] at hrow
    rw [runs_rebuildProjections hruns, RebuildState.isSome_lookup_runStates]
    exact RebuildState.runIdForEvent_of_itemEntry hrow
  count := by
    have hset : {r | ((rebuildProjections runOrder itemOrder events store).1.runs r).isSome} =
        {r | ((RebuildState.fromEvents events).runStates.lookup r).isSome} := by
      ext r
      rw [Set.mem_ofPred_eq, Set.mem_ofPred_eq, runs_rebuildProjections hruns]
    rw [hset, ncard_isSome_lookup]
    rfl

/-- A rebuild is a function of the events: it ends with the same tables whatever was in them and in
whatever orders the maps are iterated; these hold one row for each run and each item that an event names,
each item's run among them; and a second rebuild changes nothing. -/
theorem rebuild_determined (hruns : (RebuildState.fromEvents events).runStates.IsOrder runOrder)
    (hitems : (RebuildState.fromEvents events).itemStates.IsOrder itemOrder)
    (hruns' : (RebuildState.fromEvents events).runStates.IsOrder runOrder')
    (hitems' : (RebuildState.fromEvents events).itemStates.IsOrder itemOrder')
    (store store' : ProjectionStore) :
    rebuildProjections runOrder itemOrder events store =
        rebuildProjections runOrder' itemOrder' events store' ∧
      TablesOf events (rebuildProjections runOrder itemOrder events store).1
        (rebuildProjections runOrder itemOrder events store).2 ∧
      (rebuildProjections runOrder' itemOrder' events
        (rebuildProjections runOrder itemOrder events store).1).1 =
          (rebuildProjections runOrder itemOrder events store).1 :=
  ⟨rebuildProjections_eq hruns hitems hruns' hitems' store store',
    tablesOf_rebuildProjections hruns hitems store,
    congrArg Prod.fst (rebuildProjections_eq hruns' hitems' hruns hitems _ store)⟩

end rebuild

/-- An assignment and a status change of two runs that were never started. -/
def strayEvents : List EventEnvelope :=
  let event (k : Nat) (payload : EventPayload) : EventEnvelope :=
    ⟨⟨BitVec.ofNat 128 k⟩, k, .nil, .nil, none, none, 1, .null, payload⟩
  [event 1 (.workItemAssigned ⟨1⟩ ⟨10⟩ ⟨20⟩), event 2 (.runStatusChanged ⟨2⟩ "paused" none)]

/-- Both runs get a row, in whichever order they are written and whatever row stood there. -/
theorem rebuild_determined_stray :
    (rebuildProjections [⟨1⟩, ⟨2⟩] [⟨10⟩] strayEvents .empty).1.runs =
        (rebuildProjections [⟨2⟩, ⟨1⟩] [⟨10⟩] strayEvents
          (ProjectionStore.empty.upsertRunProjection ⟨⟨3⟩, .nil, "running", .zero, 0, 0⟩)).1.runs ∧
      TablesOf strayEvents (rebuildProjections [⟨1⟩, ⟨2⟩] [⟨10⟩] strayEvents .empty).1 2 := by
  have hkeys : (RebuildState.fromEvents strayEvents).runStates.keys = [⟨2⟩, ⟨1⟩] := by decide +kernel
  have hitemKeys : (RebuildState.fromEvents strayEvents).itemStates.keys = [⟨10⟩] := by
    decide +kernel
  have hruns' := HashMap.isOrder_keys (RebuildState.fromEvents strayEvents).runStates
  have hitems := HashMap.isOrder_keys (RebuildState.fromEvents strayEvents).itemStates
  rw [hkeys] at hruns'
  rw [hitemKeys] at hitems
  have hruns : (RebuildState.fromEvents strayEvents).runStates.IsOrder [⟨1⟩, ⟨2⟩] :=
    ⟨by decide, fun r => Iff.trans (by simp [or_comm]) (hruns'.2 r)⟩
  obtain ⟨heq, htables, -⟩ := rebuild_determined hruns hitems hruns' hitems .empty
    (ProjectionStore.empty.upsertRunProjection ⟨⟨3⟩, .nil, "running", .zero, 0, 0⟩)
  exact ⟨by rw [heq], htables⟩

end SamtaDashboard

import SamtaDashboard.Domain.Entities
import SamtaDashboard.Events.Codec
import Mathlib.Data.List.Induction
import Mathlib.Data.List.Perm.Subperm
import Mathlib.Data.List.Sort

/-!
# `infra::persistence`: the event log and the projection tables

The table `event_log` is an `EventLog`: its rows in commit order, each named by the envelope that
was bound into the `INSERT`, with the aggregate id as resource id. What the table holds of it is
`EventRow.ofEnvelope`, and reading a row back is `readBack`; this fails exactly when the payload
carries a cost that is not a number (`readBack_of_finite`, `readBack_of_not_finite`).

* `append` checks and inserts event by event and gives back the whole log unchanged on an error.
* `load` orders a stream by revision.
* `load_all` orders all rows by `(occurred_at, revision)`. The order of two rows with equal keys is
  up to the database, so it is a relation, `LoadAll`; `loadAll` is one of its results.
-/

namespace SamtaDashboard

abbrev EventLog := List EventEnvelope

/-- A row of `event_log`. -/
structure EventRow where
  id : Uuid
  occurredAt : Time
  actorId : Uuid
  resourceId : Uuid
  correlationId : Option Uuid
  causationId : Option Uuid
  revision : Int
  metadata : Json
  eventType : String
  payload : Json

/-- The values bound into the `INSERT`. -/
def EventRow.ofEnvelope (e : EventEnvelope) : EventRow where
  id := e.id
  occurredAt := e.occurredAt
  actorId := e.actorId
  resourceId := e.resourceId
  correlationId := e.correlationId
  causationId := e.causationId
  revision := e.revision
  metadata := e.metadata
  eventType := e.eventType.asStr
  payload := e.payload.toJson

def eventFromTuple (row : EventRow) : Except String EventEnvelope := do
  let payload ← EventPayload.ofJson row.payload
  return {
    id := row.id
    occurredAt := row.occurredAt
    actorId := row.actorId
    resourceId := row.resourceId
    correlationId := row.correlationId
    causationId := row.causationId
    revision := row.revision
    metadata := row.metadata
    payload := payload }

/-- Writing an event and reading its row. -/
def readBack (e : EventEnvelope) : Except String EventEnvelope :=
  eventFromTuple (EventRow.ofEnvelope e)

theorem readBack_of_finite {e : EventEnvelope} (h : e.payload.costIsFinite) :
    readBack e = .ok e := by
  rw [readBack, eventFromTuple, EventRow.ofEnvelope, EventPayload.ofJson_toJson _ h]
  rfl

theorem readBack_of_not_finite {e : EventEnvelope} (h : e.payload.costIsFinite = false) :
    readBack e = .error "expected f64" := by
  rw [readBack, eventFromTuple, EventRow.ofEnvelope, EventPayload.ofJson_toJson_error _ h]
  rfl

/-- The rows of one stream, in commit order. -/
def stream (log : EventLog) (aggregateId : Uuid) : List EventEnvelope :=
  log.filter (·.resourceId = aggregateId)

/-! ### `append` -/

/-- The event as `append` binds it: the resource id is the aggregate id. -/
def bindTo (aggregateId : Uuid) (e : EventEnvelope) : EventEnvelope :=
  { e with resourceId := aggregateId }

/-- The loop of `append`; `expected` is the revision before the next event's. -/
def insertEvents (aggregateId : Uuid) : Int → List EventEnvelope → EventLog → Except String EventLog
  | _, [], log => .ok log
  | expected, event :: events, log =>
    if event.revision ≠ expected + 1 then
      .error s!"invalid event revision for aggregate {aggregateId.toText}: expected {expected + 1} but got {event.revision}"
    else if log.any (·.id = event.id) then
      -- the primary key of `event_log`
      .error "duplicate key value violates unique constraint"
    else insertEvents aggregateId (expected + 1) events (log ++ [bindTo aggregateId event])

/-- `SELECT COALESCE(MAX(revision), 0)` of a stream. -/
def latestRevision (log : EventLog) (aggregateId : Uuid) : Int :=
  ((stream log aggregateId).map (·.revision)).max?.getD 0

/-- `PostgresEventStore::append`, without failures of the database. -/
def append (log : EventLog) (aggregateId : Uuid) (events : List EventEnvelope) :
    Except String EventLog :=
  if events.isEmpty then .ok log
  else insertEvents aggregateId (latestRevision log aggregateId) events log

/-! ### `load` and `load_all` -/

/-- `PostgresEventStore::load`. -/
def load (log : EventLog) (aggregateId : Uuid) : Except String (List EventEnvelope) :=
  ((stream log aggregateId).insertionSort (·.revision ≤ ·.revision)).mapM readBack

/-- The `ORDER BY` of `load_all`. -/
def timeLe (a b : EventEnvelope) : Prop :=
  a.occurredAt < b.occurredAt ∨ a.occurredAt = b.occurredAt ∧ a.revision ≤ b.revision

instance : DecidableRel timeLe := fun _ _ => inferInstanceAs (Decidable (_ ∨ _))

/-- `rows` are the rows of the log in an order that `load_all` may give them in. -/
structure InTimeOrder (log rows : EventLog) : Prop where
  perm : rows.Perm log
  sorted : rows.Pairwise timeLe

/-- `result` is a possible result of `PostgresEventStore::load_all`. -/
def LoadAll (log : EventLog) (result : Except String (List EventEnvelope)) : Prop :=
  ∃ rows, InTimeOrder log rows ∧ result = rows.mapM readBack

/-- `PostgresEventStore::load_all` with equal keys in commit order. -/
def loadAll (log : EventLog) : Except String (List EventEnvelope) :=
  (log.insertionSort timeLe).mapM readBack

/-! ### The projection tables -/

/-- `agent_runs_projection` and `work_items_projection`, by primary key. -/
structure ProjectionStore where
  runs : Uuid → Option AgentRunProjection
  items : Uuid → Option WorkItemProjection

namespace ProjectionStore

def empty : ProjectionStore := ⟨fun _ => none, fun _ => none⟩

/-- `upsert_run_projection`: the conflict clause overwrites every column. -/
def upsertRunProjection (store : ProjectionStore) (row : AgentRunProjection) : ProjectionStore :=
  { store with runs := Function.update store.runs row.runId (some row) }

/-- `upsert_work_item_projection`: the conflict clause overwrites every column. -/
def upsertWorkItemProjection (store : ProjectionStore) (row : WorkItemProjection) :
    ProjectionStore :=
  { store with items := Function.update store.items row.itemId (some row) }

def clear (_ : ProjectionStore) : ProjectionStore := empty

end ProjectionStore

/-- The database: the event log and the projection tables. -/
structure Db where
  log : EventLog
  store : ProjectionStore

def Db.empty : Db := ⟨[], .empty⟩

/-! ### What a successful `append` did -/

/-- The events carry the revisions `n + 1`, `n + 2`, … in list order. -/
def Consecutive : Int → List EventEnvelope → Prop
  | _, [] => True
  | n, e :: events => e.revision = n + 1 ∧ Consecutive (n + 1) events

theorem consecutive_append {n : Int} {a b : List EventEnvelope} :
    Consecutive n (a ++ b) ↔ Consecutive n a ∧ Consecutive (n + a.length) b := by
  induction a generalizing n with
  | nil => simp [Consecutive]
  | cons e a ih =>
    simp only [List.cons_append, Consecutive, ih, List.length_cons, and_assoc, Nat.cast_add,
      Nat.cast_one]
    rw [show n + 1 + (a.length : Int) = n + (a.length + 1) by omega]

theorem Consecutive.revision_mem {n : Int} {events : List EventEnvelope} (h : Consecutive n events)
    {e : EventEnvelope} (he : e ∈ events) : n < e.revision ∧ e.revision ≤ n + events.length := by
  induction events generalizing n with
  | nil => simp at he
  | cons x events ih =>
    obtain ⟨hx, htail⟩ := h
    simp only [List.length_cons, Nat.cast_add, Nat.cast_one]
    rcases List.mem_cons.mp he with rfl | he
    · omega
    · have := ih htail he
      omega

theorem Consecutive.map_revision {events : List EventEnvelope} (h : Consecutive 0 events) :
    events.map (·.revision) = (List.range events.length).map fun k : Nat => (k : Int) + 1 := by
  induction events using List.reverseRecOn with
  | nil => rfl
  | append_singleton events e ih =>
    obtain ⟨hinit, hlast, -⟩ := consecutive_append.mp h
    rw [List.map_append, ih hinit, List.length_append, List.length_singleton, List.range_succ,
      List.map_append, List.map_singleton, List.map_singleton, hlast, zero_add]

theorem Consecutive.pairwise {n : Int} {events : List EventEnvelope} (h : Consecutive n events) :
    events.Pairwise (·.revision < ·.revision) := by
  induction events generalizing n with
  | nil => exact List.Pairwise.nil
  | cons x events ih =>
    refine List.pairwise_cons.mpr ⟨fun y hy => ?_, ih h.2⟩
    have := (h.2.revision_mem hy).1
    have := h.1
    omega

theorem Consecutive.max_revision {n : Int} {events : List EventEnvelope}
    (h : Consecutive n events) :
    (events.map (·.revision)).max?.getD n = n + events.length := by
  induction events using List.reverseRecOn with
  | nil => simp
  | append_singleton events e _ =>
    obtain ⟨hinit, hlast, -⟩ := consecutive_append.mp h
    have hmax : ((events ++ [e]).map (·.revision)).max? = some e.revision := by
      rw [List.max?_eq_some_iff]
      refine ⟨by simp, fun r hr => ?_⟩
      obtain ⟨x, hx, rfl⟩ := List.mem_map.mp hr
      rcases List.mem_append.mp hx with hx | hx
      · have := (hinit.revision_mem hx).2
        omega
      · obtain rfl := List.mem_singleton.mp hx
        exact le_refl _
    rw [hmax, Option.getD_some, hlast]
    simp [add_assoc]

theorem consecutive_bindTo {n : Int} {aggregateId : Uuid} {events : List EventEnvelope} :
    Consecutive n (events.map (bindTo aggregateId)) ↔ Consecutive n events := by
  induction events generalizing n with
  | nil => rfl
  | cons e events ih => simp [Consecutive, ih, bindTo]

/-- The loop of `append` succeeds exactly on consecutive revisions and new ids. -/
theorem insertEvents_eq_ok {aggregateId : Uuid} {n : Int} {events : List EventEnvelope}
    {log log' : EventLog} :
    insertEvents aggregateId n events log = .ok log' ↔
      log' = log ++ events.map (bindTo aggregateId) ∧ Consecutive n events ∧
        (events.map (·.id)).Nodup ∧ ∀ e ∈ events, ∀ x ∈ log, x.id ≠ e.id := by
  induction events generalizing n log with
  | nil => simp [insertEvents, Consecutive, eq_comm]
  | cons e events ih =>
    rw [insertEvents]
    by_cases hrev : e.revision = n + 1
    · rw [if_neg (by simpa using hrev)]
      by_cases hid : log.any (·.id = e.id) = true
      · rw [if_pos hid]
        obtain ⟨x, hx, hxe⟩ := List.any_eq_true.mp hid
        simp only [reduceCtorEq, false_iff, not_and]
        intro _ _ _ hfresh
        exact hfresh e List.mem_cons_self x hx (by simpa using hxe)
      · rw [if_neg hid, ih]
        have hnone : ∀ x ∈ log, x.id ≠ e.id := fun x hx heq =>
          hid (List.any_eq_true.mpr ⟨x, hx, by simpa using heq⟩)
        simp only [List.map_cons, List.append_assoc, List.singleton_append, Consecutive, hrev,
          true_and, List.nodup_cons, List.mem_map, not_exists, not_and, List.forall_mem_cons,
          List.mem_append, List.mem_singleton, and_congr_right_iff]
        rintro rfl hcons
        constructor
        · rintro ⟨hnodup, hfresh⟩
          refine ⟨⟨fun x hx heq => ?_, hnodup⟩, hnone, fun x hx y hy => hfresh x hx y (Or.inl hy)⟩
          exact hfresh x hx (bindTo aggregateId e) (Or.inr rfl) heq.symm
        · rintro ⟨⟨hne, hnodup⟩, -, hfresh⟩
          refine ⟨hnodup, fun x hx y hy => ?_⟩
          rcases hy with hy | rfl
          · exact hfresh x hx y hy
          · exact fun heq => hne x hx heq.symm
    · rw [if_pos (by simpa using hrev)]
      simp [Consecutive, hrev]

theorem append_eq_ok {log log' : EventLog} {aggregateId : Uuid} {events : List EventEnvelope} :
    append log aggregateId events = .ok log' ↔
      log' = log ++ events.map (bindTo aggregateId) ∧
        Consecutive (latestRevision log aggregateId) events ∧
        (events.map (·.id)).Nodup ∧ ∀ e ∈ events, ∀ x ∈ log, x.id ≠ e.id := by
  unfold append
  cases events with
  | nil => simp [Consecutive, eq_comm]
  | cons e events => exact insertEvents_eq_ok

/-! ### Streams -/

theorem stream_append (log log' : EventLog) (aggregateId : Uuid) :
    stream (log ++ log') aggregateId = stream log aggregateId ++ stream log' aggregateId :=
  List.filter_append ..

theorem mem_stream {log : EventLog} {aggregateId : Uuid} {e : EventEnvelope} :
    e ∈ stream log aggregateId ↔ e ∈ log ∧ e.resourceId = aggregateId := by
  simp only [stream, List.mem_filter, decide_eq_true_eq]

theorem stream_map_bindTo (aggregateId r : Uuid) (events : List EventEnvelope) :
    stream (events.map (bindTo aggregateId)) r =
      if r = aggregateId then events.map (bindTo aggregateId) else [] := by
  unfold stream
  by_cases h : r = aggregateId
  · subst h
    rw [if_pos rfl, List.filter_eq_self]
    intro e he
    obtain ⟨x, -, rfl⟩ := List.mem_map.mp he
    exact decide_eq_true rfl
  · rw [if_neg h, List.filter_eq_nil_iff]
    intro e he
    obtain ⟨x, -, rfl⟩ := List.mem_map.mp he
    rw [decide_eq_true_eq]
    exact fun heq : aggregateId = r => h heq.symm

/-- Every stream carries the revisions `1`, `2`, … in commit order. -/
def GapFree (log : EventLog) : Prop := ∀ r, Consecutive 0 (stream log r)

theorem GapFree.latestRevision_eq {log : EventLog} (h : GapFree log) (r : Uuid) :
    latestRevision log r = (stream log r).length := by
  simpa [latestRevision] using (h r).max_revision

theorem GapFree.of_append {log log' : EventLog} {r : Uuid} {events : List EventEnvelope}
    (h : GapFree log) (happ : append log r events = .ok log') : GapFree log' := by
  obtain ⟨rfl, hcons, -, -⟩ := append_eq_ok.mp happ
  intro r'
  rw [stream_append, stream_map_bindTo, consecutive_append]
  refine ⟨h r', ?_⟩
  split
  · subst r'
    rw [consecutive_bindTo, zero_add, ← h.latestRevision_eq]
    exact hcons
  · trivial

theorem GapFree.nodup {log : EventLog} (h : GapFree log) : log.Nodup := by
  rw [List.nodup_iff_sublist]
  intro e htwice
  have hstream : [e, e].Sublist (stream log e.resourceId) := by
    have hfilter := htwice.filter fun x => decide (x.resourceId = e.resourceId)
    simpa [stream] using hfilter
  have hpair := (h e.resourceId).pairwise.sublist hstream
  simp at hpair

/-! ### Reading -/

theorem mapM_readBack {rows evs : List EventEnvelope} :
    rows.mapM readBack = .ok evs ↔ evs = rows ∧ ∀ e ∈ rows, e.payload.costIsFinite = true := by
  induction rows generalizing evs with
  | nil =>
    constructor
    · rintro ⟨⟩
      exact ⟨rfl, by simp⟩
    · rintro ⟨rfl, -⟩
      rfl
  | cons e rows ih =>
    rw [List.mapM_cons, List.forall_mem_cons]
    cases he : e.payload.costIsFinite with
    | false =>
      simp only [readBack_of_not_finite he, bind, Except.bind, reduceCtorEq, Bool.false_eq_true,
        false_and, and_false]
    | true =>
      rw [readBack_of_finite he]
      cases hrows : rows.mapM readBack with
      | error message =>
        have hbad : ¬ ∀ x ∈ rows, x.payload.costIsFinite = true := fun hall => by
          rw [ih.mpr ⟨rfl, hall⟩] at hrows
          cases hrows
        simp only [bind, Except.bind, reduceCtorEq, hbad, and_false]
      | ok evs' =>
        obtain ⟨rfl, hall⟩ := ih.mp hrows
        simp only [bind, Except.bind, pure, Except.pure, Except.ok.injEq, true_and]
        exact ⟨fun h => ⟨h.symm, hall⟩, fun h => h.1.symm⟩

theorem Consecutive.load_eq {log : EventLog} {r : Uuid} {n : Int}
    (h : Consecutive n (stream log r)) : load log r = (stream log r).mapM readBack := by
  have hsorted : (stream log r).Pairwise (·.revision ≤ ·.revision) := h.pairwise.imp le_of_lt
  rw [load, hsorted.insertionSort_eq]

theorem Consecutive.load_eq_ok {log : EventLog} {r : Uuid} {n : Int}
    (h : Consecutive n (stream log r)) {evs : List EventEnvelope} :
    load log r = .ok evs ↔
      evs = stream log r ∧ ∀ e ∈ stream log r, e.payload.costIsFinite = true := by
  rw [h.load_eq, mapM_readBack]

theorem GapFree.load_eq_ok {log : EventLog} (h : GapFree log) {r : Uuid} {evs : List EventEnvelope} :
    load log r = .ok evs ↔
      evs = stream log r ∧ ∀ e ∈ stream log r, e.payload.costIsFinite = true :=
  (h r).load_eq_ok

theorem loadAll_eq_ok {log : EventLog} {evs : List EventEnvelope} :
    LoadAll log (.ok evs) ↔ InTimeOrder log evs ∧ ∀ e ∈ log, e.payload.costIsFinite = true := by
  constructor
  · rintro ⟨rows, horder, hread⟩
    obtain ⟨rfl, hfin⟩ := mapM_readBack.mp hread.symm
    exact ⟨horder, fun e he => hfin e (horder.perm.mem_iff.mpr he)⟩
  · rintro ⟨horder, hfin⟩
    exact ⟨evs, horder, (mapM_readBack.mpr ⟨rfl, fun e he => hfin e (horder.perm.subset he)⟩).symm⟩

/-! ### The two orders of a stream -/

theorem timeLe_of_lt {a b : EventEnvelope} (htime : a.occurredAt ≤ b.occurredAt)
    (hrevision : a.revision < b.revision) : timeLe a b :=
  (lt_or_eq_of_le htime).imp id fun heq => ⟨heq, le_of_lt hrevision⟩

theorem Consecutive.eq_of_timeLe {n : Int} {events : List EventEnvelope} (h : Consecutive n events)
    {a b : EventEnvelope} (ha : a ∈ events) (hb : b ∈ events) (hab : timeLe a b) (hba : timeLe b a) :
    a = b := by
  have hrevision : a.revision = b.revision := by
    rcases hab with hlt | ⟨htime, hle⟩ <;> rcases hba with hlt' | ⟨htime', hle'⟩
    · exact absurd hlt' (not_lt_of_gt hlt)
    · exact absurd htime' (ne_of_gt hlt)
    · exact absurd htime (ne_of_gt hlt')
    · exact le_antisymm hle hle'
  exact List.inj_on_of_nodup_map
    (List.pairwise_map.mpr (h.pairwise.imp fun hlt => ne_of_lt hlt)) ha hb hrevision

/-- The events of a stream whose times do not decrease along it come out of `load_all` in commit
order. -/
theorem InTimeOrder.filter_eq_stream {log rows : EventLog} (h : InTimeOrder log rows) {r : Uuid}
    {n : Int} (hcons : Consecutive n (stream log r))
    (htimes : (stream log r).Pairwise (·.occurredAt ≤ ·.occurredAt)) :
    rows.filter (·.resourceId = r) = stream log r := by
  have hperm : (rows.filter (·.resourceId = r)).Perm (stream log r) := h.perm.filter _
  have htied : ∀ a b, a ∈ rows.filter (·.resourceId = r) → b ∈ stream log r →
      timeLe a b → timeLe b a → a = b :=
    fun a b ha hb => hcons.eq_of_timeLe (hperm.subset ha) hb
  exact hperm.eq_of_pairwise htied (h.sorted.sublist List.filter_sublist)
    ((htimes.and hcons.pairwise).imp fun hab => timeLe_of_lt hab.1 hab.2)

end SamtaDashboard

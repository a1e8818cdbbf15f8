import SamtaDashboard.Infra.Persistence

/-!
# `append` adds everything or nothing

The loop of `append` checks and inserts event by event, so an error may come after several inserts
(`insertAll_error` says which rows stand there then). The inserts are made in a transaction: a commit
makes them the log and an error drops them. `append` of the rest of the development is what comes out
of it (`appendTransaction_eq`).
-/

namespace SamtaDashboard

/-- A transaction works on a copy of the state, which is dropped on an error. -/
def transaction {S E α : Type} (work : S → Except E α × S) (s : S) : Except E α × S :=
  match work s with
  | (.ok a, s') => (.ok a, s')
  | (.error error, _) => (.error error, s)

/-- The loop of `append` on the rows of the table. -/
def insertAll (aggregateId : Uuid) : Int → List EventEnvelope → EventLog →
    Except String Unit × EventLog
  | _, [], table => (.ok (), table)
  | expected, event :: events, table =>
    if event.revision ≠ expected + 1 then
      (.error s!"invalid event revision for aggregate {aggregateId.toText}: expected {expected + 1} but got {event.revision}", table)
    else if table.any (·.id = event.id) then
      (.error "duplicate key value violates unique constraint", table)
    else insertAll aggregateId (expected + 1) events (table ++ [bindTo aggregateId event])

/-- `PostgresEventStore::append` with its transaction. -/
def appendTransaction (log : EventLog) (aggregateId : Uuid) (events : List EventEnvelope) :
    Except String Unit × EventLog :=
  if events.isEmpty then (.ok (), log)
  else
    transaction (fun table => insertAll aggregateId (latestRevision table aggregateId) events table)
      log

section

variable {aggregateId : Uuid} {events : List EventEnvelope} {log table : EventLog} {n : Int}

theorem insertAll_eq :
    (∃ table', insertAll aggregateId n events table = (.ok (), table') ∧
      insertEvents aggregateId n events table = .ok table') ∨
    ∃ message table', insertAll aggregateId n events table = (.error message, table') ∧
      insertEvents aggregateId n events table = .error message := by
  induction events generalizing n table with
  | nil => exact Or.inl ⟨table, rfl, rfl⟩
  | cons event events ih =>
    unfold insertAll insertEvents
    split
    · exact Or.inr ⟨_, _, rfl, rfl⟩
    · split
      · exact Or.inr ⟨_, _, rfl, rfl⟩
      · exact ih

theorem appendTransaction_eq (log : EventLog) (aggregateId : Uuid) (events : List EventEnvelope) :
    appendTransaction log aggregateId events =
      match append log aggregateId events with
      | .ok log' => (.ok (), log')
      | .error message => (.error message, log) := by
  unfold appendTransaction append transaction
  split
  · rfl
  · rcases @insertAll_eq aggregateId events log (latestRevision log aggregateId) with
      ⟨log', hall, hinsert⟩ | ⟨message, table', hall, hinsert⟩
    · simp only [hall, hinsert]
    · simp only [hall, hinsert]

/-- Where the loop stops: `done` is inserted, and `event` has a wrong revision or an id that exists. -/
structure StopsAt (aggregateId : Uuid) (n : Int) (events : List EventEnvelope) (table : EventLog)
    (done : List EventEnvelope) (event : EventEnvelope) : Prop where
  split : ∃ rest, events = done ++ event :: rest
  consecutive : Consecutive n done
  refused : event.revision ≠ n + done.length + 1 ∨
    ∃ x ∈ table ++ done.map (bindTo aggregateId), x.id = event.id

theorem insertAll_error {message : String} {table' : EventLog}
    (h : insertAll aggregateId n events table = (.error message, table')) :
    ∃ done event, StopsAt aggregateId n events table done event ∧
      table' = table ++ done.map (bindTo aggregateId) := by
  induction events generalizing n table with
  | nil => simp [insertAll] at h
  | cons event events ih =>
    rw [insertAll] at h
    split at h
    · next hrevision =>
      obtain ⟨-, rfl⟩ := Prod.mk.inj h
      exact ⟨[], event, ⟨⟨events, rfl⟩, trivial, Or.inl (by simpa using hrevision)⟩, by simp⟩
    · next hrevision =>
      split at h
      · next hid =>
        obtain ⟨-, rfl⟩ := Prod.mk.inj h
        obtain ⟨x, hx, hxid⟩ := List.any_eq_true.mp hid
        exact ⟨[], event, ⟨⟨events, rfl⟩, trivial, Or.inr ⟨x, by simpa using hx, by simpa using hxid⟩⟩,
          by simp⟩
      · obtain ⟨done, stopped, ⟨⟨rest, hsplit⟩, hcons, hrefused⟩, htable⟩ := ih h
        refine ⟨event :: done, stopped, ⟨⟨rest, by rw [hsplit]; rfl⟩, ⟨?_, hcons⟩, ?_⟩, ?_⟩
        · simpa using hrevision
        · refine hrefused.imp (fun hne => ?_) fun hex => ?_
          · rw [List.length_cons, Nat.cast_add, Nat.cast_one]
            omega
          · simpa [or_assoc] using hex
        · simpa using htable

end

theorem appendTransaction_ok {log log' : EventLog} {aggregateId : Uuid}
    {events : List EventEnvelope} :
    appendTransaction log aggregateId events = (.ok (), log') ↔
      append log aggregateId events = .ok log' := by
  rw [appendTransaction_eq]
  cases append log aggregateId events <;> simp

theorem appendTransaction_error {log log' : EventLog} {aggregateId : Uuid}
    {events : List EventEnvelope} {message : String}
    (h : appendTransaction log aggregateId events = (.error message, log')) :
    log' = log ∧ ∃ done event,
      StopsAt aggregateId (latestRevision log aggregateId) events log done event := by
  unfold appendTransaction transaction at h
  split at h
  · cases h
  · split at h
    · cases h
    · next hall =>
      obtain ⟨-, rfl⟩ := Prod.mk.inj h
      obtain ⟨done, event, hstops, -⟩ := insertAll_error hall
      exact ⟨rfl, done, event, hstops⟩

theorem mapM_readBack_append {rows : List EventEnvelope}
    (hrows : ∀ e ∈ rows, e.payload.costIsFinite = true) (front : List EventEnvelope) :
    (front ++ rows).mapM readBack = (front.mapM readBack).map (· ++ rows) := by
  rw [List.mapM_append, mapM_readBack.mpr ⟨rfl, hrows⟩]
  cases front.mapM readBack <;> rfl

theorem GapFree.load_append {log log' : EventLog} (h : GapFree log) {aggregateId : Uuid}
    {events : List EventEnvelope} (happ : append log aggregateId events = .ok log')
    (hfinite : ∀ e ∈ events, e.payload.costIsFinite = true) :
    load log' aggregateId =
      (load log aggregateId).map (· ++ events.map (bindTo aggregateId)) := by
  obtain ⟨rfl, -⟩ := append_eq_ok.mp happ
  rw [((h.of_append happ) _).load_eq, (h _).load_eq, stream_append, stream_map_bindTo, if_pos rfl,
    mapM_readBack_append]
  intro e he
  obtain ⟨x, hx, rfl⟩ := List.mem_map.mp he
  exact hfinite x hx

/-- On a log with the revisions 1 to n in every stream, `append` succeeds exactly on the next revisions
and new ids; then the stream is longer by the events and every other stream is as before, and after an
error the log is as before, wherever the loop stopped. -/
theorem append_exact {log : EventLog} (h : GapFree log) (aggregateId : Uuid)
    (events : List EventEnvelope) :
    ((appendTransaction log aggregateId events).1 = .ok () ↔
      Consecutive (stream log aggregateId).length events ∧ (events.map (·.id)).Nodup ∧
        ∀ e ∈ events, ∀ x ∈ log, x.id ≠ e.id) ∧
    (∀ log', appendTransaction log aggregateId events = (.ok (), log') →
      ((∀ e ∈ events, e.payload.costIsFinite = true) →
        load log' aggregateId =
          (load log aggregateId).map (· ++ events.map (bindTo aggregateId))) ∧
      ∀ r ≠ aggregateId, stream log' r = stream log r) ∧
    ∀ message log', appendTransaction log aggregateId events = (.error message, log') →
      log' = log ∧ ∃ done event,
        StopsAt aggregateId (stream log aggregateId).length events log done event := by
  have hlatest := h.latestRevision_eq aggregateId
  refine ⟨?_, fun log' hok => ?_, fun message log' herror => hlatest ▸ appendTransaction_error herror⟩
  · rw [← hlatest]
    constructor
    · intro hok
      exact (append_eq_ok.mp (appendTransaction_ok.mp (Prod.ext hok rfl))).2
    · intro hcond
      have happ := append_eq_ok.mpr ⟨rfl, hcond⟩
      rw [appendTransaction_ok.mpr happ]
  · have happ := appendTransaction_ok.mp hok
    refine ⟨h.load_append happ, fun r hr => ?_⟩
    rw [(append_eq_ok.mp happ).1, stream_append, stream_map_bindTo, if_neg hr, List.append_nil]

/-- A workspace event with this number and revision. -/
def numberedEvent (k : Nat) (revision : Int) : EventEnvelope where
  id := ⟨BitVec.ofNat 128 k⟩
  occurredAt := k
  actorId := .nil
  resourceId := .nil
  correlationId := none
  causationId := none
  revision := revision
  metadata := .null
  payload := .workspaceCreated "w"

theorem numberedEvent_gapFree : GapFree [numberedEvent 1 1] := by
  intro r
  by_cases hr : Uuid.nil = r
  · subst hr
    exact ⟨rfl, trivial⟩
  · rw [stream, List.filter_cons_of_neg (by simpa [numberedEvent] using hr)]
    trivial

/-- A second event is appended; with a third one that has its revision neither is. -/
theorem append_exact_second :
    (appendTransaction [numberedEvent 1 1] .nil [numberedEvent 2 2]).1 = .ok () ∧
      (appendTransaction [numberedEvent 1 1] .nil [numberedEvent 2 2, numberedEvent 3 2]).2 =
        [numberedEvent 1 1] :=
  ⟨(append_exact numberedEvent_gapFree .nil [numberedEvent 2 2]).1.mpr
      ⟨⟨rfl, trivial⟩, by decide, by decide⟩,
    ((append_exact numberedEvent_gapFree .nil [numberedEvent 2 2, numberedEvent 3 2]).2.2 _ _
      rfl).1⟩

end SamtaDashboard

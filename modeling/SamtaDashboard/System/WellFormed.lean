import SamtaDashboard.Application.BatchShape
import SamtaDashboard.Application.Orchestrator

/-!
# Well-formed logs

`WellFormed log` is what holds of every log that the operations and the workers write, in whatever
order their appends are committed. `Admissible log r ps` is what they may append to stream `r`; an
admissible append keeps the log well formed (`WellFormed.append`), and the batches of `start_run`, of
the control operations and of a worker that decided on an older snapshot are all admissible.
-/

namespace SamtaDashboard

open EventFold

/-- Some event of stream `r` assigns item `i`. -/
def AssignedIn (log : EventLog) (r i : Uuid) : Prop :=
  ∃ e ∈ stream log r, e.payload.assigns i

/-- What holds of every log that the code writes. -/
structure WellFormed (log : EventLog) : Prop where
  gapFree : GapFree log
  owned : ∀ e ∈ log, ∀ r, e.payload.runId? = some r → r = e.resourceId
  started : ∀ r, ∀ e ∈ (stream log r).tail, e.payload.isRunStarted = false
  written : ∀ e ∈ log, e.payload.isWritten
  assigned : ∀ e ∈ log, ∀ i, e.payload.itemId? = some i → AssignedIn log e.resourceId i
  separate : ∀ e ∈ log, ∀ e' ∈ log, ∀ i, e.payload.itemId? = some i →
    e'.payload.itemId? = some i → e.resourceId = e'.resourceId

/-- What the code appends to stream `r` of a log. -/
structure Admissible (log : EventLog) (r : Uuid) (ps : List EventPayload) : Prop where
  owned : ∀ p ∈ ps, ∀ r', p.runId? = some r' → r' = r
  started : ∀ p ∈ ps, p.isRunStarted → stream log r = []
  startedTail : ∀ p ∈ ps.tail, p.isRunStarted = false
  written : ∀ p ∈ ps, p.isWritten
  item : ∀ p ∈ ps, ∀ i, p.itemId? = some i →
    AssignedIn log r i ∨ p.assigns i ∧ ∀ e ∈ log, e.payload.itemId? ≠ some i

theorem itemId?_of_assigns {p : EventPayload} {i : Uuid} (h : p.assigns i) : p.itemId? = some i := by
  cases p <;> simp_all [EventPayload.assigns, EventPayload.itemId?]

theorem WellFormed.empty : WellFormed [] where
  gapFree := fun _ => trivial
  owned := by simp
  started := by simp [stream]
  written := by simp
  assigned := by simp
  separate := by simp

theorem mem_stream_append_left {log rows : EventLog} {r : Uuid} {e : EventEnvelope}
    (h : e ∈ stream log r) : e ∈ stream (log ++ rows) r := by
  rw [stream_append]
  exact List.mem_append_left _ h

theorem AssignedIn.append {log : EventLog} {r i : Uuid} (h : AssignedIn log r i)
    (rows : EventLog) : AssignedIn (log ++ rows) r i := by
  obtain ⟨e, he, hassigns⟩ := h
  exact ⟨e, mem_stream_append_left he, hassigns⟩

theorem stream_rows {rows : EventLog} {r : Uuid} (h : ∀ e ∈ rows, e.resourceId = r) (r' : Uuid) :
    stream rows r' = if r' = r then rows else [] := by
  unfold stream
  by_cases hr : r' = r
  · subst hr
    rw [if_pos rfl, List.filter_eq_self]
    exact fun e he => decide_eq_true (h e he)
  · rw [if_neg hr, List.filter_eq_nil_iff]
    intro e he
    rw [decide_eq_true_eq, h e he]
    exact Ne.symm hr

section append

variable {log rows : EventLog} {r : Uuid}

theorem Admissible.item_append (hadm : Admissible log r (payloads rows)) (h : WellFormed log)
    (hrun : ∀ e ∈ rows, e.resourceId = r) {e : EventEnvelope} (he : e ∈ rows) {i : Uuid}
    (hi : e.payload.itemId? = some i) :
    AssignedIn (log ++ rows) r i ∧
      ∀ e' ∈ log, e'.payload.itemId? = some i → e'.resourceId = r := by
  rcases hadm.item e.payload (List.mem_map_of_mem he) i hi with hold | ⟨hassigns, hfresh⟩
  · refine ⟨hold.append rows, fun e' he' hi' => ?_⟩
    obtain ⟨a, ha, hassigns⟩ := hold
    have hmem := mem_stream.mp ha
    rw [← hmem.2]
    exact h.separate e' he' a hmem.1 i hi' (itemId?_of_assigns hassigns)
  · refine ⟨⟨e, ?_, hassigns⟩, fun e' he' hi' => absurd hi' (hfresh e' he')⟩
    exact mem_stream.mpr ⟨List.mem_append_right _ he, hrun e he⟩

theorem Admissible.started_append (hadm : Admissible log r (payloads rows)) (h : WellFormed log)
    (hrun : ∀ e ∈ rows, e.resourceId = r) (r' : Uuid) :
    ∀ e ∈ (stream (log ++ rows) r').tail, e.payload.isRunStarted = false := by
  intro e he
  rw [stream_append, stream_rows hrun] at he
  split at he
  · next heq =>
    subst heq
    cases hs : stream log r' with
    | nil =>
      rw [hs, List.nil_append] at he
      refine hadm.startedTail e.payload ?_
      rw [payloads, ← List.map_tail]
      exact List.mem_map_of_mem he
    | cons x xs =>
      rw [hs, List.cons_append, List.tail_cons] at he
      rcases List.mem_append.mp he with he | he
      · exact h.started r' e (by rw [hs]; exact he)
      · by_contra hstarted
        rw [Bool.not_eq_false] at hstarted
        rw [hadm.started e.payload (List.mem_map_of_mem he) hstarted] at hs
        cases hs
  · rw [List.append_nil] at he
    exact h.started r' e he

theorem WellFormed.append (h : WellFormed log) (hadm : Admissible log r (payloads rows))
    (hrun : ∀ e ∈ rows, e.resourceId = r)
    (hcons : Consecutive (stream log r).length rows) : WellFormed (log ++ rows) := by
  have hpay : ∀ e ∈ rows, e.payload ∈ payloads rows := fun e he => List.mem_map_of_mem he
  constructor
  · intro r'
    rw [stream_append, stream_rows hrun, consecutive_append]
    refine ⟨h.gapFree r', ?_⟩
    split
    · subst r'
      rwa [zero_add]
    · trivial
  · intro e he r' hr'
    rcases List.mem_append.mp he with he | he
    · exact h.owned e he r' hr'
    · rw [hrun e he]
      exact hadm.owned e.payload (hpay e he) r' hr'
  · exact hadm.started_append h hrun
  · intro e he
    rcases List.mem_append.mp he with he | he
    · exact h.written e he
    · exact hadm.written e.payload (hpay e he)
  · intro e he i hi
    rcases List.mem_append.mp he with he | he
    · exact (h.assigned e he i hi).append rows
    · rw [hrun e he]
      exact (hadm.item_append h hrun he hi).1
  · intro e he e' he' i hi hi'
    rcases List.mem_append.mp he with he | he <;> rcases List.mem_append.mp he' with he' | he'
    · exact h.separate e he e' he' i hi hi'
    · rw [hrun e' he']
      exact (hadm.item_append h hrun he' hi').2 e he hi
    · rw [hrun e he]
      exact ((hadm.item_append h hrun he hi).2 e' he' hi').symm
    · rw [hrun e he, hrun e' he']

end append

/-! ### What the operations append -/

section batches

variable {log : EventLog} {r : Uuid}

theorem admissible_single {p : EventPayload} (howned : ∀ r', p.runId? = some r' → r' = r)
    (hstarted : p.isRunStarted = false) (hwritten : p.isWritten) (hitem : p.itemId? = none) :
    Admissible log r [p] where
  owned := by simpa using howned
  started := by simp [hstarted]
  startedTail := by simp
  written := by simpa using hwritten
  item := by simp [hitem]

theorem admissible_statusChange {status : String} (hstatus : status ∈ EventPayload.controlStatuses)
    (reason : Option String) : Admissible log r [.runStatusChanged r status reason] :=
  admissible_single (by simp [EventPayload.runId?]) rfl
    (by simpa [EventPayload.isWritten] using hstatus) rfl

theorem admissible_cons_assignments {p : EventPayload} {assigned : Assignments}
    (hp : Admissible log r [p])
    (hassigned : ∀ x ∈ assigned, AssignedIn log r x.1 ∨ ∀ e ∈ log, e.payload.itemId? ≠ some x.1) :
    Admissible log r (p :: assigned.payloads r) := by
  constructor
  · intro q hq r' hr'
    rcases List.mem_cons.mp hq with rfl | hq
    · exact hp.owned q (by simp) r' hr'
    · obtain ⟨x, -, rfl⟩ := Assignments.mem_payloads hq
      exact (Option.some.inj hr').symm
  · intro q hq hstarted
    rcases List.mem_cons.mp hq with rfl | hq
    · exact hp.started q (by simp) hstarted
    · obtain ⟨x, -, rfl⟩ := Assignments.mem_payloads hq
      cases hstarted
  · intro q hq
    obtain ⟨x, -, rfl⟩ := Assignments.mem_payloads hq
    rfl
  · intro q hq
    rcases List.mem_cons.mp hq with rfl | hq
    · exact hp.written q (by simp)
    · obtain ⟨x, -, rfl⟩ := Assignments.mem_payloads hq
      rfl
  · intro q hq i hi
    rcases List.mem_cons.mp hq with rfl | hq
    · exact hp.item q (by simp) i hi
    · obtain ⟨x, hx, rfl⟩ := Assignments.mem_payloads hq
      obtain rfl := Option.some.inj hi
      rcases hassigned x hx with hold | hnew
      · exact Or.inl hold
      · exact Or.inr ⟨by simp [EventPayload.assigns], hnew⟩

theorem mem_plannedItems {draws : Draws} {objective : String}
    {targetItemCount agentCount : Option UInt16} {item : WorkItem}
    (h : item ∈ plannedItems draws objective targetItemCount agentCount) :
    ∃ k, item.id = draws.item k := by
  have hid := List.mem_map_of_mem (f := (·.id)) h
  rw [plannedItems, map_id_assignItems] at hid
  obtain ⟨n, hn⟩ := map_id_decompose Planner.new draws.item draws.resource objective
    (Planner.new.resolveTargetItemCount targetItemCount)
  rw [hn] at hid
  obtain ⟨k, -, hk⟩ := List.mem_map.mp hid
  exact ⟨k, hk.symm⟩

theorem admissible_startRun {draws : Draws} (hrun : stream log draws.resource = [])
    (hitem : ∀ k, ∀ e ∈ log, e.payload.itemId? ≠ some (draws.item k)) (workspaceId : Uuid)
    (objective : String) (targetItemCount agentCount : Option UInt16) :
    Admissible log draws.resource
      (startRunPayloads draws workspaceId objective targetItemCount agentCount) := by
  rw [startRunPayloads_eq]
  refine admissible_cons_assignments ⟨by simp [EventPayload.runId?], fun _ _ _ => hrun, by simp,
    by simp [EventPayload.isWritten], by simp [EventPayload.itemId?]⟩ fun x hx => ?_
  obtain ⟨k, hk, rfl⟩ := List.mem_mapIdx.mp hx
  obtain ⟨n, hn⟩ := mem_plannedItems (List.getElem_mem hk)
  exact Or.inr (hn ▸ hitem n)

theorem assignedIn_of_retried (h : WellFormed log) {events : List EventEnvelope}
    (hevents : ∀ e ∈ events, e ∈ stream log r) {order : List Uuid} {i : Uuid}
    (hi : i ∈ (retriedItems order (RunReplayState.fromEvents events)).map (·.1)) :
    AssignedIn log r i := by
  rw [map_fst_retriedItems, List.mem_filter, RunReplayState.lookup_fromEvents] at hi
  cases hlast : lastWrite (EventPayload.blockableStatus? i) (payloads events) with
  | none => simp [hlast] at hi
  | some status =>
    obtain ⟨p, hp, hwrite⟩ := lastWrite_mem hlast
    obtain ⟨e, he, rfl⟩ := List.mem_map.mp hp
    have hmem := mem_stream.mp (hevents e he)
    rw [← hmem.2]
    exact h.assigned e hmem.1 i (EventPayload.itemId?_of_blockableStatus? (by rw [hwrite]; simp))

theorem admissible_retry (h : WellFormed log) {events : List EventEnvelope}
    (hevents : ∀ e ∈ events, e ∈ stream log r) {draws : Draws} {order : List Uuid}
    {ps : List EventPayload} (hps : retryPayloads draws order r events = some ps) :
    Admissible log r ps := by
  obtain ⟨-, -, -, rfl⟩ := retryPayloads_eq_some.mp hps
  refine admissible_cons_assignments (admissible_statusChange (by decide) _) fun x hx => ?_
  have hfirst := List.mem_map_of_mem (f := Prod.fst) hx
  rw [map_fst_retryAssignments] at hfirst
  exact Or.inl (assignedIn_of_retried h hevents hfirst)

/-- The run that the worker groups an event under is the stream it is stored in. -/
theorem WellFormed.resourceId_eq (h : WellFormed log) {e : EventEnvelope} (he : e ∈ log)
    (hrun : runIdForEvent e = some r) : e.resourceId = r := by
  unfold runIdForEvent at hrun
  split at hrun
  · exact Option.some.inj hrun
  · exact (h.owned e he r hrun).symm

theorem WellFormed.runIdForEvent_eq (h : WellFormed log) {e : EventEnvelope} (he : e ∈ stream log r)
    (hrun : runIdForEvent e ≠ none) : runIdForEvent e = some r := by
  obtain ⟨r', hr'⟩ := Option.ne_none_iff_exists'.mp hrun
  obtain ⟨hlog, hres⟩ := mem_stream.mp he
  rw [hr', ← hres, h.resourceId_eq hlog hr']

theorem assignedIn_of_lookup (h : WellFormed log) {rows : List EventEnvelope}
    (hrows : ∀ e ∈ rows, e ∈ log) {state : RunState}
    (hstate : replayRun (runEvents rows r) = some state) {i : Uuid} {item : ItemState}
    (hitem : state.items.lookup i = some item) : AssignedIn log r i := by
  rw [lookup_items_replayRun hstate] at hitem
  obtain ⟨status, hstatus, -⟩ := Option.map_eq_some_iff.mp hitem
  obtain ⟨p, hp, hwrite⟩ := lastWrite_mem hstatus
  obtain ⟨e, he, rfl⟩ := List.mem_map.mp hp
  obtain ⟨he, hrun⟩ := List.mem_filter.mp he
  have hres : e.resourceId = r := h.resourceId_eq (hrows e he) (by simpa using hrun)
  rw [← hres]
  exact h.assigned e (hrows e he) i
    (EventPayload.itemId?_of_itemStatus? (by rw [hwrite]; simp))

theorem Advanced.assignedIn {config : LoopConfig} {state state' : RunState}
    {batch : List EventEnvelope} {executed : List (Uuid × Outcome)} {summary : Option String}
    (hadv : Advanced config r state state' batch executed summary) (h : WellFormed log)
    {rows : List EventEnvelope} (hrows : ∀ e ∈ rows, e ∈ log)
    (hstate : replayRun (runEvents rows r) = some state) :
    ∀ x ∈ executed, AssignedIn log r x.1 := by
  intro x hx
  obtain ⟨item, hitem, -⟩ := hadv.eligible x hx
  exact assignedIn_of_lookup h hrows hstate hitem

/-- A worker's batch is admissible for as long as its items are assigned in the stream. -/
theorem admissible_batch {config : LoopConfig} {state state' : RunState}
    {batch : List EventEnvelope} {executed : List (Uuid × Outcome)} {summary : Option String}
    (hadv : Advanced config r state state' batch executed summary)
    (hitems : ∀ x ∈ executed, AssignedIn log r x.1) : Admissible log r (payloads batch) := by
  have hexec : ∀ p ∈ executedPayloads config.worker r executed,
      p.runId? = some r ∧ p.isRunStarted = false ∧ p.isWritten ∧
        ∀ i, p.itemId? = some i → AssignedIn log r i := by
    intro p hp
    obtain ⟨x, hx, hp⟩ := mem_executedPayloads hp
    obtain ⟨hrun, hitem, hkind⟩ := mem_outcome_payloads _ _ _ _ hp
    refine ⟨hrun, ?_, ?_, fun i hi => ?_⟩
    · cases p <;> simp_all [EventPayload.isExecution, EventPayload.isRunStarted]
    · cases p <;> simp_all [EventPayload.isExecution, EventPayload.isWritten]
    · obtain rfl : x.1 = i := by simpa [hitem] using hi
      exact hitems x hx
  have hall : ∀ p ∈ payloads batch, p.runId? = some r ∧ p.isRunStarted = false ∧ p.isWritten ∧
      ∀ i, p.itemId? = some i → AssignedIn log r i := by
    intro p hp
    rw [hadv.payloads] at hp
    rcases List.mem_append.mp hp with hp | hp
    · exact hexec p hp
    · obtain ⟨text, -, rfl⟩ := List.mem_map.mp hp
      exact ⟨rfl, rfl, rfl, by simp [EventPayload.itemId?]⟩
  exact {
    owned := fun p hp r' hr' => by
      rw [(hall p hp).1] at hr'
      exact (Option.some.inj hr').symm
    started := fun p hp hstarted => by simp [(hall p hp).2.1] at hstarted
    startedTail := fun p hp => (hall p (List.mem_of_mem_tail hp)).2.1
    written := fun p hp => (hall p hp).2.2.1
    item := fun p hp i hi => Or.inl ((hall p hp).2.2.2 i hi) }

end batches

theorem WellFormed.written_stream {log : EventLog} (h : WellFormed log) (r : Uuid) :
    ∀ p ∈ payloads (stream log r), p.isWritten := by
  intro p hp
  obtain ⟨e, he, rfl⟩ := List.mem_map.mp hp
  exact h.written e (mem_stream.mp he).1

theorem WellFormed.lastWrite_ne_none {log : EventLog} (h : WellFormed log) {r i : Uuid}
    {e : EventEnvelope} (he : e ∈ stream log r) (hi : e.payload.itemId? = some i) {V : Type}
    {w : EventPayload → Option V} (hw : ∀ r agentId, w (.workItemAssigned r i agentId) ≠ none) :
    lastWrite w (payloads (stream log r)) ≠ none := by
  have hmem := mem_stream.mp he
  obtain ⟨a, ha, hassigns⟩ := h.assigned e hmem.1 i hi
  rw [hmem.2] at ha
  intro hnone
  have hnone := lastWrite_eq_none.mp hnone a.payload (List.mem_map_of_mem ha)
  cases hpayload : a.payload <;> simp_all [EventPayload.assigns]

theorem exists_itemId?_of_lastWrite {log : EventLog} {r i : Uuid} {V : Type}
    {w : EventPayload → Option V} (hw : ∀ p, w p ≠ none → p.itemId? = some i) {v : V}
    (h : lastWrite w (payloads (stream log r)) = some v) :
    ∃ e ∈ stream log r, e.payload.itemId? = some i := by
  obtain ⟨p, hp, hwrite⟩ := lastWrite_mem h
  obtain ⟨e, he, rfl⟩ := List.mem_map.mp hp
  exact ⟨e, he, hw _ (by rw [hwrite]; simp)⟩

theorem WellFormed.itemAgent_ne_none {log : EventLog} (h : WellFormed log) {r i : Uuid}
    {status : ItemStatus}
    (hstatus : lastWrite (EventPayload.itemStatus? i) (payloads (stream log r)) = some status) :
    lastWrite (EventPayload.itemAgent? i) (payloads (stream log r)) ≠ none := by
  obtain ⟨e, he, hi⟩ :=
    exists_itemId?_of_lastWrite (fun _ => EventPayload.itemId?_of_itemStatus?) hstatus
  exact h.lastWrite_ne_none he hi (by simp [EventPayload.itemAgent?])

/-! ### What an operation does to the log -/

section operations

variable {log log' : EventLog} {r : Uuid}

/-- The rows that an operation appends: none, or an admissible batch for one stream. -/
structure Appended (log log' : EventLog) (r : Uuid) (rows : List EventEnvelope) : Prop where
  log_eq : log' = log ++ rows
  admissible : Admissible log r (payloads rows)
  run : ∀ e ∈ rows, e.resourceId = r
  consecutive : Consecutive (stream log r).length rows

theorem Appended.wellFormed {rows : List EventEnvelope} (h : Appended log log' r rows)
    (hwf : WellFormed log) : WellFormed log' :=
  h.log_eq ▸ hwf.append h.admissible h.run h.consecutive

theorem Appended.stream_eq {rows : List EventEnvelope} (h : Appended log log' r rows) (r' : Uuid) :
    stream log' r' = stream log r' ++ if r' = r then rows else [] := by
  rw [h.log_eq, stream_append, stream_rows h.run]

theorem Appended.payloads_stream {rows : List EventEnvelope} (h : Appended log log' r rows)
    (r' : Uuid) : payloads (stream log' r') =
      payloads (stream log r') ++ if r' = r then payloads rows else [] := by
  rw [h.stream_eq, payloads_append]
  split <;> rfl

theorem Appended.forall_stream_iff {rows : List EventEnvelope} (h : Appended log log' r rows)
    {P : List EventPayload → Prop} {G : Prop}
    (hr : P (payloads (stream log r) ++ payloads rows) ↔ P (payloads (stream log r)) ∧ G) :
    (∀ r', P (payloads (stream log' r'))) ↔ (∀ r', P (payloads (stream log r'))) ∧ G := by
  have hrun : P (payloads (stream log' r)) ↔ P (payloads (stream log r)) ∧ G := by
    rw [h.payloads_stream, if_pos rfl, hr]
  have hother : ∀ r', r' ≠ r → payloads (stream log' r') = payloads (stream log r') := by
    intro r' hne
    rw [h.payloads_stream, if_neg hne, List.append_nil]
  constructor
  · intro hall
    obtain ⟨hP, hG⟩ := hrun.mp (hall r)
    refine ⟨fun r' => ?_, hG⟩
    by_cases hr' : r' = r
    · exact hr' ▸ hP
    · exact hother r' hr' ▸ hall r'
  · rintro ⟨hall, hG⟩ r'
    by_cases hr' : r' = r
    · exact hr' ▸ hrun.mpr ⟨hall r, hG⟩
    · rw [hother r' hr']
      exact hall r'

theorem StampedBy.newEvents (draws : Draws) (r : Uuid) (revision : Int) (ps : List EventPayload) :
    StampedBy draws.stamp 0 ps.length (newEvents draws r revision ps) := by
  refine ⟨List.range ps.length, List.pairwise_lt_range, fun k hk => ⟨Nat.zero_le k, by simpa using hk⟩, ?_⟩
  unfold SamtaDashboard.newEvents
  apply List.ext_getElem <;> simp [newEvent, newEnvelope]

theorem appended_newEvents {draws : Draws} {ps : List EventPayload} (hps : Admissible log r ps)
    (hlog : log' = log ++ newEvents draws r ((stream log r).length + 1) ps) :
    Appended log log' r (newEvents draws r ((stream log r).length + 1) ps) where
  log_eq := hlog
  admissible := by rwa [payloads_newEvents]
  run := fun _ => resourceId_newEvents
  consecutive := consecutive_newEvents ..

theorem appended_rows {base : List EventEnvelope} (hbase : Admissible log r (payloads base))
    (hlog : log' = log ++ appendedRows log r base) :
    Appended log log' r (appendedRows log r base) where
  log_eq := hlog
  admissible := by rwa [payloads_appendedRows]
  run := fun e he => by
    obtain ⟨x, -, rfl⟩ := List.mem_map.mp he
    rfl
  consecutive := consecutive_bindTo.mpr consecutive_withRebasedRevisions

end operations

end SamtaDashboard

import SamtaDashboard.Api.Routes

/-!
# Where `extract_effort_cost` ends

An event type that the function does not know is replaced by the type in the details, and the details
stay the same. So the first type from the details decides: if it is known the recursion ends there, and
if it is not the next call is the same call again. The serde tag of every payload is of the second kind,
because the tags are spelt `WorkItemCompleted` where the function expects `work_item_completed`
(`not_recognised_tag`).
-/

namespace SamtaDashboard

/-- The event types that `extract_effort_cost` knows. -/
def Recognised (eventType : String) : Prop :=
  (eventType = "progress_chunk_emitted" ∨ eventType = "work_item_completed") ∨
    eventType ∈ ["work_item_started", "work_item_assigned", "work_item_failed",
      "blocker_encountered", "run_started", "run_completed", "run_status_changed",
      "workspace_created", "agent_profile_created"]

instance (eventType : String) : Decidable (Recognised eventType) :=
  inferInstanceAs (Decidable (_ ∨ _))

theorem recognised_iff {eventType : String} :
    Recognised eventType ↔ ∃ t : EventType, t.asStr = eventType := by
  constructor
  · rintro ((rfl | rfl) | hmem)
    · exact ⟨.progressChunkEmitted, rfl⟩
    · exact ⟨.workItemCompleted, rfl⟩
    · simp only [List.mem_cons, List.not_mem_nil, or_false] at hmem
      rcases hmem with rfl | rfl | rfl | rfl | rfl | rfl | rfl | rfl | rfl
      exacts [⟨.workItemStarted, rfl⟩, ⟨.workItemAssigned, rfl⟩, ⟨.workItemFailed, rfl⟩,
        ⟨.blockerEncountered, rfl⟩, ⟨.runStarted, rfl⟩, ⟨.runCompleted, rfl⟩,
        ⟨.runStatusChanged, rfl⟩, ⟨.workspaceCreated, rfl⟩, ⟨.agentProfileCreated, rfl⟩]
  · rintro ⟨t, rfl⟩
    cases t <;> decide

/-- `details.get("type").and_then(Value::as_str)`. -/
def payloadEventType (details : Json) : Option String := (details.get "type").bind Json.asStr

/-- No payload is serialised with a tag that is known. -/
theorem not_recognised_tag (payload : EventPayload) :
    ∃ tag, payload.toJson.get "type" = some (.str tag) ∧ ¬ Recognised tag := by
  cases payload <;> exact ⟨_, rfl, by decide⟩

/-! ### Rows of today -/

/-- What is read of a stored payload: its charge, where a cost that is no number counts as zero. -/
def readCharge (payload : EventPayload) : I32 × F64 :=
  payload.charge?.elim (I32.wrap 0, .zero) fun charge =>
    (charge.1, (Json.ofF64 charge.2).asF64.getD .zero)

theorem extractEffortCost_ofEnvelope (fuel : Nat) (e : EventEnvelope) :
    extractEffortCost (fuel + 1) e.eventType.asStr e.payload.toJson =
      some (readCharge e.payload) := by
  unfold EventEnvelope.eventType extractEffortCost readCharge
  cases e.payload with
  | workItemCompleted r i effort cost | progressChunkEmitted r i effort cost =>
    have hrange := effort.property
    have hi64 : (Json.int effort.val).asI64 = some effort.val := if_pos (by omega)
    simp [EventPayload.eventType, EventType.asStr, EventPayload.toJson, EventPayload.charge?,
      Json.get, List.lookup_cons, hi64, I32.wrap_val]
  | _ => simp [EventPayload.eventType, EventType.asStr, EventPayload.charge?]

theorem addHistoryPoint_readCharge (fuel : Nat) (state : HistoryState) (e : EventEnvelope) :
    addHistoryPoint (fuel + 1) state (EventRow.ofEnvelope e) =
      some (if (readCharge e.payload).1.val = 0 ∧ (readCharge e.payload).2 = .zero then state else
        ⟨state.totalCost.add (readCharge e.payload).2,
          state.totalEffort + (readCharge e.payload).1.val,
          state.points ++ [⟨e.revision, e.occurredAt,
            state.totalCost.add (readCharge e.payload).2,
            state.totalEffort + (readCharge e.payload).1.val⟩]⟩) := by
  unfold addHistoryPoint
  rw [EventRow.ofEnvelope, extractEffortCost_ofEnvelope]
  rfl

theorem buildCostEffortHistory_isSome (fuel : Nat) (events : List EventEnvelope) :
    (buildCostEffortHistory (fuel + 1) (events.map EventRow.ofEnvelope)).isSome := by
  rw [buildCostEffortHistory, Option.isSome_map]
  generalize (⟨.zero, 0, []⟩ : HistoryState) = state
  induction events generalizing state with
  | nil => rfl
  | cons e events ih =>
    rw [List.map_cons, List.foldlM_cons, addHistoryPoint_readCharge]
    exact ih _

/-! ### All rows -/

section recursion

variable {eventType : String} {details : Json}

theorem extractEffortCost_of_recognised (h : Recognised eventType) (fuel : Nat) :
    ∃ result, extractEffortCost (fuel + 1) eventType details = some result := by
  rw [extractEffortCost]
  rcases h with hcharge | hother
  · exact ⟨_, if_pos hcharge⟩
  · split
    · exact ⟨_, rfl⟩
    · exact ⟨_, rfl⟩

theorem extractEffortCost_of_not_recognised (h : ¬ Recognised eventType) (fuel : Nat) :
    extractEffortCost (fuel + 1) eventType details =
      match payloadEventType details with
      | some tag => extractEffortCost fuel tag details
      | none => some (I32.wrap 0, .zero) := by
  rw [Recognised, not_or] at h
  rw [extractEffortCost, if_neg h.1]
  exact if_neg h.2

/-- Two unknown types: the call repeats itself, whatever the fuel. -/
theorem extractEffortCost_diverges {tag : String} (htype : payloadEventType details = some tag)
    (htag : ¬ Recognised tag) (fuel : Nat) (h : ¬ Recognised eventType) :
    extractEffortCost fuel eventType details = none := by
  induction fuel generalizing eventType with
  | zero => rfl
  | succ fuel ih =>
    rw [extractEffortCost_of_not_recognised h, htype]
    exact ih htag

def CallEnds (eventType : String) (details : Json) : Prop :=
  ∃ fuel result, extractEffortCost fuel eventType details = some result

theorem callEnds_iff : CallEnds eventType details ↔
    Recognised eventType ∨ ∀ tag ∈ payloadEventType details, Recognised tag := by
  constructor
  · rintro ⟨fuel, result, hresult⟩
    by_contra hnot
    simp only [not_or, not_forall] at hnot
    obtain ⟨htype, tag, htag, hunknown⟩ := hnot
    rw [extractEffortCost_diverges htag hunknown fuel htype] at hresult
    cases hresult
  · intro hcond
    by_cases htype : Recognised eventType
    · exact ⟨1, extractEffortCost_of_recognised htype 0⟩
    · refine ⟨2, ?_⟩
      rw [extractEffortCost_of_not_recognised htype]
      cases htag : payloadEventType details with
      | none => exact ⟨_, rfl⟩
      | some tag => exact extractEffortCost_of_recognised (hcond.resolve_left htype tag htag) 0

/-- The call ends, and an unknown type with the tag of a payload that charges is read as that
payload. -/
structure ReadsCharge (eventType : String) (details : Json) : Prop where
  ends : CallEnds eventType details
  charge : ¬ Recognised eventType → ∀ payload charge, EventPayload.charge? payload = some charge →
    payload.costIsFinite → (∀ key ∈ ["type", "effort", "cost"],
      details.get key = payload.toJson.get key) →
    ∃ fuel, extractEffortCost fuel eventType details = some charge

/-- The call ends and reads the charge exactly if the event type is known, or the details have no
text as their type, or that text is known. -/
theorem readsCharge_iff :
    ReadsCharge eventType details ↔
      Recognised eventType ∨ ∀ tag ∈ payloadEventType details, Recognised tag := by
  constructor
  · intro h
    exact callEnds_iff.mp h.ends
  · intro hcond
    refine ⟨callEnds_iff.mpr hcond, fun htype payload charge _ _ hkeys => ?_⟩
    obtain ⟨tag, htag, hunknown⟩ := not_recognised_tag payload
    have hdetails : payloadEventType details = some tag := by
      rw [payloadEventType, hkeys "type" (by simp), htag]
      rfl
    exact absurd (hcond.resolve_left htype tag hdetails) hunknown

end recursion

/-- The row of a newer version: its event type is new, its payload is a completion of today. -/
def newerRow : String × Json :=
  ("work_item_completed_v2",
    (EventPayload.workItemCompleted ⟨1⟩ ⟨2⟩ ⟨3, by decide⟩ (.finite 1)).toJson)

/-- The charge of the newer row is never read. -/
theorem not_readsCharge_newerRow : ¬ ReadsCharge newerRow.1 newerRow.2 := by
  intro h
  obtain ⟨fuel, result, hresult⟩ := h.ends
  have hdiverges : extractEffortCost fuel newerRow.1 newerRow.2 = none :=
    extractEffortCost_diverges rfl (by decide) fuel (by decide)
  rw [hdiverges] at hresult
  cases hresult

end SamtaDashboard

import SamtaDashboard.Events.Envelope

/-!
# The JSON form of a payload

What serde derives for `EventPayload` with `#[serde(tag = "type")]`. A payload decodes to itself
exactly when the cost it carries is a number (`ofJson_toJson`, `ofJson_toJson_error`): a non-finite
cost is written as `null`, and `null` is not an `f64`.
-/

namespace SamtaDashboard

namespace EventPayload

/-- `serde_json::to_value(&payload)`. -/
def toJson : EventPayload → Json
  | workspaceCreated name => .obj [("type", .str "WorkspaceCreated"), ("name", .str name)]
  | agentProfileCreated name role costCap =>
    .obj [("type", .str "AgentProfileCreated"), ("name", .str name), ("role", .str role),
      ("cost_cap", .ofF64 costCap)]
  | runStarted workspaceId objective =>
    .obj [("type", .str "RunStarted"), ("workspace_id", workspaceId.toJson),
      ("objective", .str objective)]
  | runStatusChanged runId status reason =>
    .obj [("type", .str "RunStatusChanged"), ("run_id", runId.toJson), ("status", .str status),
      ("reason", reason.elim .null .str)]
  | workItemAssigned runId itemId agentId =>
    .obj [("type", .str "WorkItemAssigned"), ("run_id", runId.toJson), ("item_id", itemId.toJson),
      ("agent_id", agentId.toJson)]
  | workItemStarted runId itemId agentId =>
    .obj [("type", .str "WorkItemStarted"), ("run_id", runId.toJson), ("item_id", itemId.toJson),
      ("agent_id", agentId.toJson)]
  | workItemCompleted runId itemId effort cost =>
    .obj [("type", .str "WorkItemCompleted"), ("run_id", runId.toJson), ("item_id", itemId.toJson),
      ("effort", .int effort.val), ("cost", .ofF64 cost)]
  | workItemFailed runId itemId reason =>
    .obj [("type", .str "WorkItemFailed"), ("run_id", runId.toJson), ("item_id", itemId.toJson),
      ("reason", .str reason)]
  | progressChunkEmitted runId itemId effort cost =>
    .obj [("type", .str "ProgressChunkEmitted"), ("run_id", runId.toJson),
      ("item_id", itemId.toJson), ("effort", .int effort.val), ("cost", .ofF64 cost)]
  | blockerEncountered runId itemId reason =>
    .obj [("type", .str "BlockerEncountered"), ("run_id", runId.toJson), ("item_id", itemId.toJson),
      ("reason", .str reason)]
  | runCompleted runId summary =>
    .obj [("type", .str "RunCompleted"), ("run_id", runId.toJson), ("summary", .str summary)]

def field {α : Type} (j : Json) (key : String) (decode : Json → Except String α) :
    Except String α :=
  match j.get key with
  | some value => decode value
  | none => .error s!"missing field {key}"

/-- An `Option<String>` field: absent and `null` are both `None`. -/
def optionalStr (j : Json) (key : String) : Except String (Option String) :=
  match j.get key with
  | none => .ok none
  | some .null => .ok none
  | some value => value.toStr.map some

/-- `serde_json::from_value`. -/
def ofJson (j : Json) : Except String EventPayload := do
  let tag ← field j "type" Json.toStr
  let runId := field j "run_id" Uuid.ofJson
  let itemId := field j "item_id" Uuid.ofJson
  match tag with
  | "WorkspaceCreated" => return workspaceCreated (← field j "name" Json.toStr)
  | "AgentProfileCreated" =>
    return agentProfileCreated (← field j "name" Json.toStr) (← field j "role" Json.toStr)
      (← field j "cost_cap" Json.toF64)
  | "RunStarted" =>
    return runStarted (← field j "workspace_id" Uuid.ofJson) (← field j "objective" Json.toStr)
  | "RunStatusChanged" =>
    return runStatusChanged (← runId) (← field j "status" Json.toStr) (← optionalStr j "reason")
  | "WorkItemAssigned" =>
    return workItemAssigned (← runId) (← itemId) (← field j "agent_id" Uuid.ofJson)
  | "WorkItemStarted" =>
    return workItemStarted (← runId) (← itemId) (← field j "agent_id" Uuid.ofJson)
  | "WorkItemCompleted" =>
    return workItemCompleted (← runId) (← itemId) (← field j "effort" Json.toI32)
      (← field j "cost" Json.toF64)
  | "WorkItemFailed" =>
    return workItemFailed (← runId) (← itemId) (← field j "reason" Json.toStr)
  | "ProgressChunkEmitted" =>
    return progressChunkEmitted (← runId) (← itemId) (← field j "effort" Json.toI32)
      (← field j "cost" Json.toF64)
  | "BlockerEncountered" =>
    return blockerEncountered (← runId) (← itemId) (← field j "reason" Json.toStr)
  | "RunCompleted" => return runCompleted (← runId) (← field j "summary" Json.toStr)
  | _ => .error s!"unknown variant {tag}"

/-! ### Round trip -/

theorem ofJson_toJson (p : EventPayload) (h : p.costIsFinite) : ofJson p.toJson = .ok p := by
  cases p with
  | runStatusChanged runId status reason =>
    cases reason <;>
      simp [ofJson, toJson, field, optionalStr, Json.get, List.lookup_cons, Json.toStr, bind,
        Except.bind, pure, Except.pure, Except.map, Uuid.ofJson_toJson]
  | agentProfileCreated name role costCap =>
    simp [ofJson, toJson, field, Json.get, List.lookup_cons, Json.toStr, bind, Except.bind, pure,
      Except.pure, Json.toF64_ofF64 costCap h]
  | workItemCompleted runId itemId effort cost =>
    simp [ofJson, toJson, field, Json.get, List.lookup_cons, Json.toStr, bind, Except.bind, pure,
      Except.pure, Uuid.ofJson_toJson, Json.toI32_int, Json.toF64_ofF64 cost h]
  | progressChunkEmitted runId itemId effort cost =>
    simp [ofJson, toJson, field, Json.get, List.lookup_cons, Json.toStr, bind, Except.bind, pure,
      Except.pure, Uuid.ofJson_toJson, Json.toI32_int, Json.toF64_ofF64 cost h]
  | _ =>
    simp [ofJson, toJson, field, Json.get, List.lookup_cons, Json.toStr, bind, Except.bind, pure,
      Except.pure, Uuid.ofJson_toJson]

theorem ofJson_toJson_error (p : EventPayload) (h : p.costIsFinite = false) :
    ofJson p.toJson = .error "expected f64" := by
  cases p with
  | agentProfileCreated name role costCap =>
    simp [ofJson, toJson, field, Json.get, List.lookup_cons, Json.toStr, bind, Except.bind,
      Json.toF64_ofF64_of_not_finite costCap h]
  | workItemCompleted runId itemId effort cost =>
    simp [ofJson, toJson, field, Json.get, List.lookup_cons, Json.toStr, bind, Except.bind,
      Uuid.ofJson_toJson, Json.toI32_int, Json.toF64_ofF64_of_not_finite cost h]
  | progressChunkEmitted runId itemId effort cost =>
    simp [ofJson, toJson, field, Json.get, List.lookup_cons, Json.toStr, bind, Except.bind,
      Uuid.ofJson_toJson, Json.toI32_int, Json.toF64_ofF64_of_not_finite cost h]
  | _ => simp [costIsFinite] at h

end EventPayload

end SamtaDashboard

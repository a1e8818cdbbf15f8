import SamtaDashboard.Application.Harness
import SamtaDashboard.Data.Json
import SamtaDashboard.Data.Text

/-!
# `application::harness`: the three executors

`createExecutorFromEnv` chooses one of them from the environment. The network is a function from
requests to replies; the JSON parser of `serde_json` and the Unicode tables are parameters.

A cost that is not a number comes out of an executor in two ways only: `SimulatedExecutor` accepts an
infinite `WORKER_COST_PER_ITEM`, and `parseEffortCost` accepts any `f64` that stands in a text
(`costsAreNumbers_iff`). An effort is positive (`one_le_effort`).
-/

namespace SamtaDashboard

/-- `std::env::var(name).ok()`. -/
abbrev Env := String → Option String

/-- A `POST` request. -/
structure HttpRequest where
  url : String
  headers : List (String × String)
  body : Json

/-- What `send` gives back, with the body that is read from it. -/
inductive HttpReply where
  | failed (message : String)
  /-- a status that is not a success -/
  | failure (text : String)
  | success (body : Except String Json)

/-- The network as an executor sees it. -/
abbrev Network := HttpRequest → HttpReply

/-- `format!("{}/chat/completions", base_url.trim_end_matches('/'))`. -/
def completionsUrl (baseUrl : String) : String :=
  String.ofList (Text.trimEndMatches '/' baseUrl.toList) ++ "/chat/completions"

def chatMessage (role content : String) : Json :=
  .obj [("role", .str role), ("content", .str content)]

/-- `json["choices"][0]["message"]["content"].as_str()`. -/
def messageContent (json : Json) : Option String :=
  ((((json.index "choices").element 0).index "message").index "content").asStr

/-- `usage["completion_tokens"].as_i64().unwrap_or(fallback) as i32`. -/
def completionTokens (json : Json) (fallback : Int) : I32 :=
  .wrap ((((json.index "usage").index "completion_tokens").asI64).getD fallback)

/-! ### `SimulatedExecutor` -/

/-- `SimulatedExecutor`, without the time it sleeps. -/
structure SimulatedExecutor where
  baseEffort : I32
  baseCost : F64

namespace SimulatedExecutor

/-- `SimulatedExecutor::from_env`. -/
def fromEnv (env : Env) : SimulatedExecutor where
  baseEffort :=
    (((env "WORKER_EFFORT_PER_ITEM").bind fun v => Text.parseI32 v.toList).filter
      (0 < ·.val)).getD (.wrap 5)
  baseCost :=
    (((env "WORKER_COST_PER_ITEM").bind fun v => Text.parseF64 v.toList).filter
      F64.isNonneg).getD (.finite (1 / 4))

/-- `SimulatedExecutor::execute`. -/
def execute (executor : SimulatedExecutor) : AgentExecutor := fun ctx =>
  .ok {
    success := true
    effort := executor.baseEffort
    cost := executor.baseCost
    summary := some s!"simulated completion of: {ctx.description}"
    error := none }

end SimulatedExecutor

/-! ### `OpenRouterExecutor` -/

def parseEffortCost (unicode : Unicode) (text : List Char) : Option (I32 × F64) :=
  let lower := unicode.toLowercase text
  let wordAfter := fun keyword : String =>
    (Text.split keyword.toList lower)[1]?.bind fun s => (Text.splitWhitespace s).head?
  let effort := (wordAfter "effort:").bind fun word =>
    Text.parseI32 (Text.trimMatches (fun c => !unicode.isNumeric c) word)
  let cost := (wordAfter "cost:").bind Text.parseF64
  match effort, cost with
  | some e, some c => some (e, c)
  | _, _ => none

structure OpenRouterExecutor where
  apiKey : String
  model : String
  baseUrl : String

namespace OpenRouterExecutor

variable (unicode : Unicode) (parseJson : String → Option Json) (executor : OpenRouterExecutor)

def prompt (ctx : ExecutionContext) : String :=
  "You are an autonomous agent. Execute this work item step: " ++ ctx.description ++
    "\nReturn ONLY this JSON (no other text):\n" ++
    "\x7b\"success\": true, \"effort\": <int 3-20>, \"cost\": <float e.g. 0.001>, " ++
    "\"summary\": \"1-2 sentence concrete result\"\x7d"

def request (ctx : ExecutionContext) : HttpRequest where
  url := completionsUrl executor.baseUrl
  headers := [("Authorization", "Bearer " ++ executor.apiKey),
    ("HTTP-Referer", "https://github.com/samwarner16/samta-dashboard"),
    ("X-Title", "samta-dashboard-harness")]
  body :=
    let strict := ["qwen", "gpt", "claude"].any fun name =>
      Text.contains name.toList executor.model.toList
    .obj ([("model", .str executor.model),
      ("messages", .arr [
        chatMessage "system" "You are precise. Output ONLY the requested JSON.",
        chatMessage "user" (prompt ctx)]),
      ("max_tokens", .int 300),
      ("temperature", .float (3 / 10))] ++
      if strict then [("response_format", .obj [("type", .str "json_object")])] else [])

def content (json : Json) : String :=
  String.ofList (Text.trim ((messageContent json).getD "LLM returned no content").toList)

/-- Success, effort, cost and summary of an answer: from its JSON, else from the text and the usage. -/
def answer (json : Json) : Bool × I32 × F64 × String :=
  let text := content json
  match parseJson text with
  | some parsed =>
    (((parsed.get "success").bind (·.asBool)).getD true,
      I32.wrap (((parsed.get "effort").bind (·.asI64)).getD 8),
      ((parsed.get "cost").bind (·.asF64)).getD (.finite (1 / 1000)),
      ((parsed.get "summary").bind (·.asStr)).getD text)
  | none =>
    let comp := completionTokens json 50
    let stated := (parseEffortCost unicode text.toList).getD ((comp.div 5).add (.wrap 5), .zero)
    (true, stated.1, stated.2, text)

def resultOf (json : Json) : ExecutionResult :=
  let (success, effort, cost, summary) := answer unicode parseJson json
  { success := success
    effort := effort.max (.wrap 3)
    cost := ((json.index "usage").index "cost").asF64.getD cost
    summary := some summary
    error := none }

/-- No key is set, so that `execute` answers by itself. -/
def isStub : Bool := executor.apiKey = "sk-or-test" || executor.apiKey = ""

/-- `OpenRouterExecutor::execute`. -/
def execute (network : Network) : AgentExecutor := fun ctx =>
  if executor.isStub then
    .ok {
      success := true
      effort := .wrap 8
      cost := .finite (1 / 1000)
      summary := some s!"OpenRouter stub result for '{ctx.description}'"
      error := none }
  else
    match network (executor.request ctx) with
    | .failed message => .error message
    | .failure text =>
      .ok {
        success := false
        effort := .wrap 1
        cost := .zero
        summary := none
        error := some s!"OpenRouter HTTP error: {text}" }
    | .success (.error message) => .error message
    | .success (.ok json) => .ok (resultOf unicode parseJson json)

end OpenRouterExecutor

/-! ### `LocalLlmExecutor` -/

structure LocalLlmExecutor where
  baseUrl : String
  model : String

namespace LocalLlmExecutor

variable (executor : LocalLlmExecutor)

def request (ctx : ExecutionContext) : HttpRequest where
  url := completionsUrl executor.baseUrl
  headers := []
  body := .obj [("model", .str executor.model),
    ("messages", .arr [
      chatMessage "system" "You are a precise autonomous worker.",
      chatMessage "user" ("Execute this work item step precisely: " ++ ctx.description ++
        "\nGive a short, concrete summary of the result.")]),
    ("max_tokens", .int 200),
    ("temperature", .float (6 / 10))]

/-- `LocalLlmExecutor::execute`; without a usable answer it makes one up. -/
def execute (network : Network) : AgentExecutor := fun ctx =>
  match network (executor.request ctx) with
  | .success (.ok json) =>
    .ok {
      success := true
      effort := ((completionTokens json 40).div 4).max (.wrap 5)
      cost := .zero
      summary := some ((messageContent json).getD "no content")
      error := none }
  | _ =>
    .ok {
      success := true
      effort := .wrap 10
      cost := .zero
      summary := some
        s!"[fallback] local LLM result for '{ctx.description}' (server at {executor.baseUrl})"
      error := none }

end LocalLlmExecutor

/-! ### `create_executor_from_env` -/

inductive Executor where
  | simulated (executor : SimulatedExecutor)
  | openRouter (executor : OpenRouterExecutor)
  | localLlm (executor : LocalLlmExecutor)

section env

variable (unicode : Unicode) (parseJson : String → Option Json)

/-- `AgentExecutor::execute` of the boxed executor. -/
def Executor.execute (network : Network) : Executor → AgentExecutor
  | .simulated executor => executor.execute
  | .openRouter executor => executor.execute unicode parseJson network
  | .localLlm executor => executor.execute network

def createExecutorFromEnv (env : Env) : Executor :=
  let controller :=
    String.ofList (unicode.toLowercase ((env "HARNESS_CONTROLLER").getD "simulated").toList)
  if controller ∈ ["openrouter", "api", "api_endpoint", "remote"] then
    .openRouter {
      apiKey := ((env "OPENROUTER_API_KEY").or (env "HARNESS_API_KEY")).getD "sk-or-test"
      model := ((env "HARNESS_OPENROUTER_MODEL").or (env "HARNESS_LLM_MODEL")).getD
        "qwen/qwen-2.5-32b-instruct"
      baseUrl := (env "OPENROUTER_BASE_URL").getD "https://openrouter.ai/api/v1" }
  else if controller ∈ ["llm", "local_llm", "gpu", "local"] then
    .localLlm {
      baseUrl := (env "HARNESS_LLM_BASE_URL").getD "http://127.0.0.1:8000/v1"
      model := (env "HARNESS_LLM_MODEL").getD "Qwen/Qwen2.5-32B-Instruct" }
  else .simulated (.fromEnv env)

/-! ### The costs that the executors report -/

/-- The setting of `WORKER_COST_PER_ITEM` is not an infinite cost: `inf`, `infinity`, or a number
that overflows. -/
def SettingIsNumber (env : Env) : Prop :=
  ∀ text, env "WORKER_COST_PER_ITEM" = some text →
    Text.parseF64 text.toList ≠ some (.infinite false)

/-- A response reports a number as its cost, its content is JSON, or the text of the content states
no cost that is infinite or not a number. -/
def BodyIsNumeric (json : Json) : Prop :=
  ((json.index "usage").index "cost").asF64 = none →
    parseJson (OpenRouterExecutor.content json) = none →
      ∀ effort cost, parseEffortCost unicode (OpenRouterExecutor.content json).toList =
        some (effort, cost) → cost.isFinite

/-- What the executor of an environment gets from outside states no cost that is infinite or not a
number. -/
def CostsAreNumbers (env : Env) (network : Network) : Prop :=
  match createExecutorFromEnv unicode env with
  | .simulated _ => SettingIsNumber env
  | .openRouter executor => executor.isStub = false → ∀ ctx json,
      network (executor.request ctx) = .success (.ok json) → BodyIsNumeric unicode parseJson json
  | .localLlm _ => True

theorem SimulatedExecutor.isFinite_fromEnv_iff {env : Env} :
    (SimulatedExecutor.fromEnv env).baseCost.isFinite ↔ SettingIsNumber env := by
  unfold SimulatedExecutor.fromEnv SettingIsNumber
  cases henv : env "WORKER_COST_PER_ITEM" with
  | none => simp [F64.isFinite]
  | some text =>
    simp only [Option.bind_some, Option.some.injEq, forall_eq']
    cases hparse : Text.parseF64 text.toList with
    | none => simp [F64.isFinite]
    | some cost =>
      rw [Option.filter_some]
      cases cost with
      | finite value => split <;> simp [F64.isFinite]
      | nan => simp [F64.isNonneg, F64.isFinite]
      | infinite negative => cases negative <;> simp [F64.isNonneg, F64.isFinite]

theorem OpenRouterExecutor.isFinite_resultOf_iff {json : Json} :
    (resultOf unicode parseJson json).cost.isFinite ↔ BodyIsNumeric unicode parseJson json := by
  unfold BodyIsNumeric
  have hcost : (resultOf unicode parseJson json).cost =
      ((json.index "usage").index "cost").asF64.getD (answer unicode parseJson json).2.2.1 := rfl
  rw [hcost]
  cases husage : ((json.index "usage").index "cost").asF64 with
  | some cost => simpa using Json.asF64_isFinite husage
  | none =>
    rw [Option.getD_none]
    simp only [answer]
    cases hparsed : parseJson (content json) with
    | some parsed =>
      dsimp only
      cases hcost : (parsed.get "cost").bind (·.asF64) with
      | none => simp [F64.isFinite]
      | some cost =>
        obtain ⟨field, -, hfield⟩ := Option.bind_eq_some_iff.mp hcost
        simpa using Json.asF64_isFinite hfield
    | none =>
      cases hstated : parseEffortCost unicode (content json).toList with
      | none => simp [F64.isFinite, F64.zero]
      | some stated =>
        obtain ⟨effort, cost⟩ := stated
        simp

theorem eq_fromEnv_of_simulated {env : Env} {executor : SimulatedExecutor}
    (h : createExecutorFromEnv unicode env = .simulated executor) : executor = .fromEnv env := by
  unfold createExecutorFromEnv at h
  dsimp only at h
  split at h
  · cases h
  · split at h
    · cases h
    · exact (Executor.simulated.inj h).symm

/-- The costs that an executor reports are numbers exactly if nothing from outside states another
cost. -/
theorem costsAreNumbers_iff {env : Env} {network : Network} :
    CostsAreNumbers unicode parseJson env network ↔
      ∀ ctx result, (createExecutorFromEnv unicode env).execute unicode parseJson network ctx =
        .ok result → result.cost.isFinite := by
  unfold CostsAreNumbers
  cases hexecutor : createExecutorFromEnv unicode env with
  | simulated executor =>
    obtain rfl := eq_fromEnv_of_simulated unicode hexecutor
    rw [← SimulatedExecutor.isFinite_fromEnv_iff]
    refine ⟨fun h ctx result hok => ?_, fun h => h ⟨.nil, .nil, .nil, ""⟩ _ rfl⟩
    obtain rfl := Except.ok.inj hok
    exact h
  | openRouter executor =>
    refine ⟨fun h ctx result hok => ?_, fun h hstub ctx json hreply => ?_⟩
    · rw [Executor.execute, OpenRouterExecutor.execute] at hok
      split at hok
      · obtain rfl := Except.ok.inj hok
        rfl
      · next hstub =>
        split at hok
        · cases hok
        · obtain rfl := Except.ok.inj hok
          rfl
        · cases hok
        · next json hreply =>
          obtain rfl := Except.ok.inj hok
          exact (OpenRouterExecutor.isFinite_resultOf_iff unicode parseJson).mpr
            (h (by simpa using hstub) ctx json hreply)
    · refine (OpenRouterExecutor.isFinite_resultOf_iff unicode parseJson).mp (h ctx _ ?_)
      simp only [Executor.execute, OpenRouterExecutor.execute, hstub, hreply, Bool.false_eq_true,
        if_false]
  | localLlm executor =>
    refine ⟨fun _ ctx result hok => ?_, fun _ => trivial⟩
    rw [Executor.execute, LocalLlmExecutor.execute] at hok
    split at hok <;> (obtain rfl := Except.ok.inj hok; rfl)

/-! ### The efforts that the executors report -/

theorem SimulatedExecutor.one_le_baseEffort (env : Env) : 1 ≤ (fromEnv env).baseEffort.val := by
  unfold fromEnv
  dsimp only
  cases hsetting : ((env "WORKER_EFFORT_PER_ITEM").bind fun v => Text.parseI32 v.toList).filter
      (0 < ·.val) with
  | none => decide
  | some effort =>
    have hpos : 0 < effort.val := by simpa using (Option.filter_eq_some_iff.mp hsetting).2
    rw [Option.getD_some]
    omega

theorem one_le_effort {env : Env} {network : Network} {ctx : ExecutionContext}
    {result : ExecutionResult}
    (h : (createExecutorFromEnv unicode env).execute unicode parseJson network ctx = .ok result) :
    1 ≤ result.effort.val := by
  cases hexecutor : createExecutorFromEnv unicode env with
  | simulated executor =>
    rw [hexecutor] at h
    obtain rfl := eq_fromEnv_of_simulated unicode hexecutor
    obtain rfl := Except.ok.inj h
    exact SimulatedExecutor.one_le_baseEffort env
  | openRouter executor =>
    rw [hexecutor, Executor.execute, OpenRouterExecutor.execute] at h
    split at h
    · obtain rfl := Except.ok.inj h
      show 1 ≤ (I32.wrap 8).val
      decide
    · split at h
      · cases h
      · obtain rfl := Except.ok.inj h
        show 1 ≤ (I32.wrap 1).val
        decide
      · cases h
      · next json _ =>
        obtain rfl := Except.ok.inj h
        have hmax := I32.le_max_right
          (OpenRouterExecutor.answer unicode parseJson json).2.1 (.wrap 3)
        exact le_trans (by decide) hmax
  | localLlm executor =>
    rw [hexecutor, Executor.execute, LocalLlmExecutor.execute] at h
    split at h
    · next json _ =>
      obtain rfl := Except.ok.inj h
      have hmax := I32.le_max_right ((completionTokens json 40).div 4) (.wrap 5)
      exact le_trans (by decide) hmax
    · obtain rfl := Except.ok.inj h
      show 1 ≤ (I32.wrap 10).val
      decide

end env

end SamtaDashboard

import SamtaDashboard.Application.Executors

/-!
# What a response is charged

`resultOf` takes the cost from the usage, from the JSON of the answer or from its text, and the effort
from the JSON or from the text. Nothing is checked on the way except that the effort is at least 3: a
stated cost may be negative or no number, and an effort is cast to 32 bits before the check
(`saneAccounting_iff`).
-/

namespace SamtaDashboard

/-- A cost that is a number and not negative. -/
def F64.IsSane (cost : F64) : Prop := cost.isFinite ∧ cost.isNonneg

instance (cost : F64) : Decidable cost.IsSane := inferInstanceAs (Decidable (_ ∧ _))

/-- The effort that an answer in JSON states as an integer. -/
def StatesEffort (parseJson : String → Option Json) (json : Json) (r : Int) : Prop :=
  ∃ parsed, parseJson (OpenRouterExecutor.content json) = some parsed ∧
    parsed.get "effort" = some (.int r)

/-- What a response should be turned into. -/
structure SaneResult (parseJson : String → Option Json) (json : Json) (result : ExecutionResult) :
    Prop where
  cost : result.cost.IsSane
  least : 3 ≤ result.effort.val
  capped : ∀ r, StatesEffort parseJson json r →
    result.effort.val = min (max 3 r) (2 ^ 31 - 1)

/-- Whenever this body comes with a success, the result that `execute` returns is sane. -/
def SaneAccounting (unicode : Unicode) (parseJson : String → Option Json) (json : Json) : Prop :=
  ∀ (executor : OpenRouterExecutor) (network : Network) (ctx : ExecutionContext)
    (result : ExecutionResult), executor.isStub = false →
      network (executor.request ctx) = .success (.ok json) →
        executor.execute unicode parseJson network ctx = .ok result →
          SaneResult parseJson json result

/-- The cost that the result takes is sane where one is stated: by the usage, else by the JSON of the
answer, else by its text. -/
def SaneCosts (unicode : Unicode) (parseJson : String → Option Json) (json : Json) : Prop :=
  match ((json.index "usage").index "cost").asF64 with
  | some cost => cost.isNonneg
  | none =>
    match parseJson (OpenRouterExecutor.content json) with
    | some parsed => ∀ cost ∈ (parsed.get "cost").bind Json.asF64, cost.isNonneg
    | none => ∀ stated ∈ parseEffortCost unicode (OpenRouterExecutor.content json).toList,
        stated.2.IsSane

/-- The cast of `r` to 32 bits and the lower bound of 3 leave what the cap would leave: `r` is an `i32`,
or too large with the largest `i32` in its low 32 bits, or too small with at most 3 in them. -/
def EffortFits (r : Int) : Prop :=
  (-2 ^ 31 ≤ r ∧ r < 2 ^ 31) ∨
    (2 ^ 31 ≤ r ∧ r < 2 ^ 63 ∧ r % 2 ^ 32 = 2 ^ 31 - 1) ∨
    (r < -2 ^ 31 ∧ -2 ^ 63 ≤ r ∧ (r + 2 ^ 31) % 2 ^ 32 ≤ 2 ^ 31 + 3)

/-- The effort that `execute` reads from an integer. -/
def readEffort (r : Int) : I32 := I32.wrap ((Json.int r).asI64.getD 8)

theorem val_readEffort (r : Int) :
    (readEffort r).val =
      if -2 ^ 63 ≤ r ∧ r < 2 ^ 63 then (r + 2 ^ 31) % 2 ^ 32 - 2 ^ 31 else 8 := by
  show (I32.wrap ((if -2 ^ 63 ≤ r ∧ r < 2 ^ 63 then some r else none).getD 8)).val = _
  split <;> rfl

theorem max_readEffort_iff (r : Int) :
    max (readEffort r).val 3 = min (max 3 r) (2 ^ 31 - 1) ↔ EffortFits r := by
  rw [val_readEffort, EffortFits]
  split <;> omega

section result

variable {unicode : Unicode} {parseJson : String → Option Json} {json : Json}

/-- The result of a success is `resultOf`, whatever executor and network it comes through. -/
theorem saneAccounting_iff_resultOf :
    SaneAccounting unicode parseJson json ↔
      SaneResult parseJson json (OpenRouterExecutor.resultOf unicode parseJson json) := by
  constructor
  · intro h
    exact h ⟨"key", "", ""⟩ (fun _ => .success (.ok json)) ⟨.nil, .nil, .nil, ""⟩ _ (by decide) rfl rfl
  · intro h executor network ctx result hstub hreply hok
    rw [OpenRouterExecutor.execute, hstub, if_neg Bool.false_ne_true, hreply] at hok
    exact Except.ok.inj hok ▸ h

theorem cost_resultOf_iff :
    (OpenRouterExecutor.resultOf unicode parseJson json).cost.IsSane ↔
      SaneCosts unicode parseJson json := by
  have hcost : (OpenRouterExecutor.resultOf unicode parseJson json).cost =
      ((json.index "usage").index "cost").asF64.getD
        (OpenRouterExecutor.answer unicode parseJson json).2.2.1 := rfl
  rw [hcost, SaneCosts]
  cases husage : ((json.index "usage").index "cost").asF64 with
  | some cost => simpa [F64.IsSane] using fun _ => Json.asF64_isFinite husage
  | none =>
    simp only [Option.getD_none, OpenRouterExecutor.answer]
    cases hparsed : parseJson (OpenRouterExecutor.content json) with
    | some parsed =>
      dsimp only
      cases hfield : (parsed.get "cost").bind Json.asF64 with
      | none => simp [F64.IsSane, F64.isFinite, F64.isNonneg]
      | some cost =>
        obtain ⟨field, -, hnumber⟩ := Option.bind_eq_some_iff.mp hfield
        simpa [F64.IsSane] using fun _ => Json.asF64_isFinite hnumber
    | none =>
      cases parseEffortCost unicode (OpenRouterExecutor.content json).toList with
      | none => simp [F64.IsSane, F64.isFinite, F64.isNonneg, F64.zero]
      | some stated => simp

theorem effort_resultOf {r : Int} (h : StatesEffort parseJson json r) :
    (OpenRouterExecutor.resultOf unicode parseJson json).effort.val = max (readEffort r).val 3 := by
  obtain ⟨parsed, hparsed, heffort⟩ := h
  have hresult : (OpenRouterExecutor.resultOf unicode parseJson json).effort =
      (OpenRouterExecutor.answer unicode parseJson json).2.1.max (.wrap 3) := rfl
  rw [hresult, I32.val_max, OpenRouterExecutor.answer]
  simp only [hparsed, heffort, Option.bind_some]
  rfl

/-- A response is turned into sane accounting exactly if the cost that it states is sane and the effort
that it states fits. -/
theorem saneAccounting_iff (unicode : Unicode) (parseJson : String → Option Json) (json : Json) :
    SaneAccounting unicode parseJson json ↔
      SaneCosts unicode parseJson json ∧ ∀ r, StatesEffort parseJson json r → EffortFits r := by
  rw [saneAccounting_iff_resultOf]
  constructor
  · intro h
    refine ⟨cost_resultOf_iff.mp h.cost, fun r hr => ?_⟩
    rw [← max_readEffort_iff, ← effort_resultOf hr]
    exact h.capped r hr
  · rintro ⟨hcost, heffort⟩
    refine ⟨cost_resultOf_iff.mpr hcost, I32.le_max_right _ (.wrap 3), fun r hr => ?_⟩
    rw [effort_resultOf hr]
    exact (max_readEffort_iff r).mpr (heffort r hr)

end result

/-- An answer in JSON with an effort of 2^32 + 5, and its text. -/
def wrappingText : String := "\x7b\"effort\": 4294967301\x7d"

def wrappingBody : Json :=
  .obj [("choices", .arr [.obj [("message", .obj [("content", .str wrappingText)])]])]

def wrappingParser (text : String) : Option Json :=
  if text = wrappingText then some (.obj [("effort", .int 4294967301)]) else none

theorem statesEffort_wrapping : StatesEffort wrappingParser wrappingBody 4294967301 := by
  have hcontent : OpenRouterExecutor.content wrappingBody = wrappingText := by decide +kernel
  refine ⟨.obj [("effort", .int 4294967301)], ?_, rfl⟩
  rw [hcontent, wrappingParser, if_pos rfl]

/-- The result of that response has an effort of 5. -/
theorem not_saneAccounting_wrapping :
    ¬ SaneAccounting asciiUnicode wrappingParser wrappingBody := by
  rw [saneAccounting_iff_resultOf]
  intro h
  have hcapped := h.capped _ statesEffort_wrapping
  rw [effort_resultOf statesEffort_wrapping] at hcapped
  exact absurd hcapped (by decide)

end SamtaDashboard

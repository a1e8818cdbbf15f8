import SamtaDashboard.Data.Text
import SamtaDashboard.Domain.Entities

/-!
# `application::planner` and `application::dispatcher`

The planner cuts the words of an objective into at most twelve chunks, one work item each; the
dispatcher deals the items out to the agents in turn. The ids of new items are an argument.
-/

namespace SamtaDashboard

structure Planner where
  defaultTargetItemCount : Nat
  maxTargetItems : Nat
  maxAgents : Nat

namespace Planner

/-- `Planner::new`. -/
def new : Planner := ⟨4, 12, 16⟩

def resolveTargetItemCount (planner : Planner) (requestedItemCount : Option UInt16) : Nat :=
  min (max ((requestedItemCount.map (·.toNat)).getD planner.defaultTargetItemCount) 1)
    planner.maxTargetItems

def resolveAgentCount (planner : Planner) (requestedAgentCount : Option UInt16) : Nat :=
  min (max ((requestedAgentCount.map (·.toNat)).getD 1) 1) planner.maxAgents

/-- `words.chunks(width)` with the chunk read so far. -/
def chunksAux {α : Type} (width : Nat) : List α → List α → List (List α)
  | [], chunk => if chunk.isEmpty then [] else [chunk]
  | x :: xs, chunk =>
    if chunk.length + 1 = width then (chunk ++ [x]) :: chunksAux width xs []
    else chunksAux width xs (chunk ++ [x])

/-- `words.chunks(width)`, for a positive width. -/
def chunks {α : Type} (width : Nat) (words : List α) : List (List α) := chunksAux width words []

/-- The fixed plan of an objective without words. -/
def fallback : List String :=
  ["Understand objective", "Execute supporting checks", "Design follow-up actions",
    "Evaluate risks", "Summarize outcome", "Post results"]

/-- A new item of the plan. -/
def newItem (runId id : Uuid) (description : String) : WorkItem where
  id := id
  runId := runId
  description := description
  assignedAgentId := none
  status := "unassigned"

/-- The `chunks` of `decompose_objective_with_target`. -/
def objectiveChunks (objective : String) (itemTargetCount : Nat) : List String :=
  let objectiveWords := (Text.splitWhitespace objective.toList).filter (!·.isEmpty)
  let chunkWidth := max ((objectiveWords.length + (itemTargetCount - 1)) / itemTargetCount) 1
  (((chunks chunkWidth objectiveWords).take itemTargetCount).filter (!·.isEmpty)).map
    fun chunk => String.ofList ([' '].intercalate chunk)

def decomposeObjectiveWithTarget (planner : Planner) (itemId : Nat → Uuid) (runId : Uuid)
    (objective : String) (requestedItemCount : Nat) : List WorkItem :=
  let itemTargetCount := min (max requestedItemCount 1) planner.maxTargetItems
  match objectiveChunks objective itemTargetCount with
  | [] =>
    let fallbackCount :=
      min (min planner.defaultTargetItemCount itemTargetCount) planner.maxTargetItems
    (fallback.take fallbackCount).mapIdx fun index description =>
      newItem runId (itemId index) description
  | chunks =>
    (chunks.mapIdx fun index chunk =>
      newItem runId (itemId index) s!"Step {index + 1}: {chunk}").take itemTargetCount

end Planner

/-- `Dispatcher::assign_items`. -/
def assignItems (fallbackAgentId : Uuid) (items : List WorkItem) (agents : List AgentInstance) :
    List WorkItem :=
  items.mapIdx fun index item =>
    { item with
      status := "assigned"
      assignedAgentId := some (match agents[index % agents.length]? with
        | some agent => agent.id
        | none => fallbackAgentId) }

/-! ### The items of a plan -/

theorem length_decompose_pos (itemId : Nat → Uuid) (runId : Uuid) (objective : String)
    (requestedItemCount : Nat) :
    0 < (Planner.new.decomposeObjectiveWithTarget itemId runId objective
      requestedItemCount).length := by
  simp only [Planner.decomposeObjectiveWithTarget]
  split
  · simp [Planner.new, Planner.fallback]
  · next chunks h =>
    have := List.length_pos_iff.mpr h
    rw [List.length_take, List.length_mapIdx]
    simp only [Planner.new] at this ⊢
    omega

theorem map_id_decompose (planner : Planner) (itemId : Nat → Uuid) (runId : Uuid)
    (objective : String) (requestedItemCount : Nat) :
    ∃ n, (planner.decomposeObjectiveWithTarget itemId runId objective requestedItemCount).map
      (·.id) = (List.range n).map itemId := by
  have hindexed : ∀ (texts : List String) (f : Nat → String → String),
      (texts.mapIdx fun index text => Planner.newItem runId (itemId index) (f index text)).map
        (·.id) = (List.range texts.length).map itemId := by
    intro texts f
    apply List.ext_getElem <;> simp [Planner.newItem]
  simp only [Planner.decomposeObjectiveWithTarget]
  split
  · exact ⟨_, hindexed _ fun _ text => text⟩
  · rw [List.map_take, hindexed _ fun index text => s!"Step {index + 1}: {text}",
      ← List.map_take, List.take_range]
    exact ⟨_, rfl⟩

theorem assignedAgentId_of_mem_assignItems {fallbackAgentId : Uuid} {items : List WorkItem}
    {agents : List AgentInstance} (hagents : agents ≠ []) {item : WorkItem}
    (hitem : item ∈ assignItems fallbackAgentId items agents) :
    ∃ agent ∈ agents, item.assignedAgentId = some agent.id := by
  obtain ⟨k, hk, rfl⟩ := List.mem_mapIdx.mp hitem
  have hindex : k % agents.length < agents.length := Nat.mod_lt _ (List.length_pos_iff.mpr hagents)
  refine ⟨agents[k % agents.length], List.getElem_mem hindex, ?_⟩
  simp only [List.getElem?_eq_getElem hindex]

theorem map_id_assignItems (fallbackAgentId : Uuid) (items : List WorkItem)
    (agents : List AgentInstance) :
    (assignItems fallbackAgentId items agents).map (·.id) = items.map (·.id) := by
  unfold assignItems
  apply List.ext_getElem <;> simp

end SamtaDashboard

import SamtaDashboard.Data.Text
import Mathlib.Data.List.Nodup
import Mathlib.Data.List.TakeWhile

/-!
# `run-agent-harness.sh`

`resolve_worker_ids` takes the ids of the workers from the first line of `WORKER_AGENT_IDS`, or for a
single worker from `WORKER_AGENT_ID`, and fills up with ids generated from 1 on. It neither looks for an
entry that is listed twice nor for a listed id that is generated again (`resolveWorkerIds_iff`).

`is_valid_uuid` and `agent_id_from_seed` are parameters: which ids the first one takes depends on the locale,
as its range `a-F` is one only where `a` collates before `F`.
-/

namespace SamtaDashboard

open Text

/-- The variables that `resolve_worker_ids` reads; one that is not set is empty. -/
structure HarnessEnv where
  workerAgentIds : List Char
  workerAgentId : List Char
  workerAgentIdPrefix : List Char

namespace Harness

/-- What `echo "${value}"` prints, without the newline: a value that looks like options is not printed. -/
def echo : List Char → List Char
  | '-' :: c :: cs => if (c :: cs).all (· ∈ ['n', 'e', 'E']) then [] else '-' :: c :: cs
  | value => value

/-- The class `[:space:]` of `tr`. -/
def isSpace (c : Char) : Bool := c = ' ' || 9 ≤ c.toNat && c.toNat ≤ 13

/-- `normalize_uuid`. A command substitution drops the newlines at the end. -/
def normalizeUuid (value : List Char) : List Char :=
  trimEndMatches '\n' ((echo value).map asciiLowercase)

/-- `read` takes the first line. -/
def firstLine (text : List Char) : List Char := text.takeWhile (· ≠ '\n')

/-- `IFS=',' read -r -a`: an empty field at the end does not count. -/
def readArray (line : List Char) : List (List Char) :=
  let fields := line.splitOn ','
  if fields.getLast? = some [] then fields.dropLast else fields

section resolve

variable (isValidUuid : List Char → Bool) (agentIdFromSeed : List Char → Nat → List Char)

/-- The id that an entry adds to `WORKER_IDS`. -/
def entryId (entry : List Char) : Option (List Char) :=
  let candidate := (echo entry).filter fun c => !isSpace c
  if candidate.isEmpty then none
  else if isValidUuid candidate then some (normalizeUuid candidate)
  else none

/-- The ids of the entries that `read` takes. -/
def readIds (text : List Char) : List (List Char) :=
  (readArray (firstLine text)).filterMap (entryId isValidUuid)

/-- The ids that `WORKER_IDS` is filled up with. -/
def generatedId (env : HarnessEnv) (index : Nat) : List Char :=
  let seed :=
    if env.workerAgentIdPrefix.isEmpty then "harness-worker".toList else env.workerAgentIdPrefix
  normalizeUuid (agentIdFromSeed seed index)

/-- The loop that adds the missing ids, from `nextIndex` on. -/
def fillUp (nextId : Nat → List Char) : (missing nextIndex : Nat) → List (List Char) →
    List (List Char)
  | 0, _, ids => ids
  | missing + 1, nextIndex, ids => fillUp nextId missing (nextIndex + 1) (ids ++ [nextId nextIndex])

/-- The end of `resolve_worker_ids`: missing ids are added, ids over the count are dropped. -/
def fitToCount (count : Nat) (env : HarnessEnv) (ids : List (List Char)) : List (List Char) :=
  let ids :=
    if ids.length < count then
      fillUp (generatedId agentIdFromSeed env) (count - ids.length) 1 ids
    else ids
  if count < ids.length then ids.take count else ids

/-- `resolve_worker_ids`: the contents of `WORKER_IDS`. -/
def resolveWorkerIds (count : Nat) (env : HarnessEnv) : List (List Char) :=
  let ids := if env.workerAgentIds.isEmpty then [] else readIds isValidUuid env.workerAgentIds
  let ids :=
    if 0 < ids.length then
      if count < ids.length then ids.take count else ids
    else if count = 1 ∧ ¬ env.workerAgentId.isEmpty ∧ isValidUuid env.workerAgentId then
      [env.workerAgentId]
    else ids
  fitToCount agentIdFromSeed count env ids

/-! ### The ids in one list -/

/-- The ids that are not generated. -/
def givenIds (count : Nat) (env : HarnessEnv) : List (List Char) :=
  if readIds isValidUuid env.workerAgentIds = [] ∧ count = 1 ∧ env.workerAgentId ≠ [] ∧
      isValidUuid env.workerAgentId then
    [env.workerAgentId]
  else readIds isValidUuid env.workerAgentIds

/-- The first `n` generated ids. -/
def generatedIds (env : HarnessEnv) (n : Nat) : List (List Char) :=
  (List.range' 1 n).map (generatedId agentIdFromSeed env)

variable {isValidUuid agentIdFromSeed} {count : Nat} {env : HarnessEnv}

theorem fillUp_eq (nextId : Nat → List Char) (missing nextIndex : Nat) (ids : List (List Char)) :
    fillUp nextId missing nextIndex ids =
      ids ++ (List.range' nextIndex missing).map nextId := by
  induction missing generalizing nextIndex ids with
  | zero => simp [fillUp]
  | succ missing ih => rw [fillUp, ih, List.range'_succ]; simp

theorem length_generatedIds (n : Nat) : (generatedIds agentIdFromSeed env n).length = n := by
  rw [generatedIds, List.length_map, List.length_range']

theorem mem_generatedIds {n : Nat} {id : List Char} :
    id ∈ generatedIds agentIdFromSeed env n ↔
      ∃ i, (1 ≤ i ∧ i ≤ n) ∧ generatedId agentIdFromSeed env i = id := by
  have hrange : ∀ i, i ∈ List.range' 1 n ↔ 1 ≤ i ∧ i ≤ n := by
    intro i
    rw [List.mem_range'_1]
    omega
  simp only [generatedIds, List.mem_map, hrange]

theorem take_generatedIds {m n : Nat} (h : m ≤ n) :
    (generatedIds agentIdFromSeed env n).take m = generatedIds agentIdFromSeed env m := by
  rw [generatedIds, ← List.map_take, List.take_range'_of_length_ge h, generatedIds]

theorem take_append_generatedIds (ids : List (List Char)) :
    (ids ++ generatedIds agentIdFromSeed env count).take count =
      ids.take count ++ generatedIds agentIdFromSeed env (count - ids.length) := by
  rw [List.take_append, take_generatedIds (Nat.sub_le _ _)]

theorem fitToCount_eq (ids : List (List Char)) :
    fitToCount agentIdFromSeed count env ids =
      (ids ++ generatedIds agentIdFromSeed env count).take count := by
  rw [take_append_generatedIds, fitToCount]
  by_cases hshort : ids.length < count
  · have hlength : ¬ count < (ids ++ generatedIds agentIdFromSeed env (count - ids.length)).length := by
      rw [List.length_append, length_generatedIds]
      omega
    simp only [if_pos hshort, fillUp_eq]
    rw [← generatedIds, if_neg hlength, List.take_of_length_le (Nat.le_of_lt hshort)]
  · have hnone : count - ids.length = 0 := by omega
    simp only [if_neg hshort, hnone, generatedIds, List.range'_zero, List.map_nil, List.append_nil]
    split
    · rfl
    · rw [List.take_of_length_le (by omega)]

theorem readIds_nil : readIds isValidUuid [] = [] := rfl

theorem resolveWorkerIds_eq : resolveWorkerIds isValidUuid agentIdFromSeed count env =
    (givenIds isValidUuid count env ++ generatedIds agentIdFromSeed env count).take count := by
  have hread : (if env.workerAgentIds.isEmpty then [] else readIds isValidUuid env.workerAgentIds) =
      readIds isValidUuid env.workerAgentIds := by
    split
    · next hempty => rw [List.isEmpty_iff.mp hempty, readIds_nil]
    · rfl
  rw [resolveWorkerIds]
  simp only [hread, fitToCount_eq]
  cases hids : readIds isValidUuid env.workerAgentIds with
  | nil => simp [givenIds, hids]
  | cons id ids =>
    have hgiven : givenIds isValidUuid count env = id :: ids := by simp [givenIds, hids]
    rw [hgiven, if_pos (by simp)]
    split
    · next hmany =>
      have hle : count ≤ ((id :: ids).take count).length := by
        rw [List.length_take_of_le (Nat.le_of_lt hmany)]
      rw [List.take_append_of_le_length hle, List.take_append_of_le_length (Nat.le_of_lt hmany),
        List.take_take, Nat.min_self]
    · rfl

theorem givenIds_cases :
    givenIds isValidUuid count env = readIds isValidUuid env.workerAgentIds ∨
      readIds isValidUuid env.workerAgentIds = [] ∧ count = 1 ∧
        ∃ id, givenIds isValidUuid count env = [id] := by
  unfold givenIds
  split
  · next h => exact Or.inr ⟨h.1, h.2.1, _, rfl⟩
  · exact Or.inl rfl

/-! ### Identities -/

/-- What is relied on of the generator: different indices give different ids, in lower case. -/
structure Documented (agentIdFromSeed : List Char → Nat → List Char) : Prop where
  injective : ∀ seed, Function.Injective (agentIdFromSeed seed)
  lower : ∀ seed index, normalizeUuid (agentIdFromSeed seed index) = agentIdFromSeed seed index

theorem nodup_generatedIds (h : Documented agentIdFromSeed) (n : Nat) :
    (generatedIds agentIdFromSeed env n).Nodup := by
  refine List.Nodup.map (fun i j hij => ?_) List.nodup_range'
  simp only [generatedId, h.lower] at hij
  exact h.injective _ hij

/-- The ids that the entries of a text list, on whatever line. -/
def listedIds (isValidUuid : List Char → Bool) (text : List Char) : List (List Char) :=
  (text.splitOn ',').filterMap (entryId isValidUuid)

/-- Every worker has an id of its own, and the listed ids are used first. -/
structure OwnIds (isValidUuid : List Char → Bool) (count : Nat) (env : HarnessEnv)
    (ids : List (List Char)) : Prop where
  length : ids.length = count
  nodup : ids.Nodup
  listed : (listedIds isValidUuid env.workerAgentIds).eraseDups.take count <+: ids

/-- No entry is listed twice among the first `count`, no id that has to be generated is listed, and
what is listed on further lines does not come before other ids. -/
structure ListedOnce (isValidUuid : List Char → Bool) (agentIdFromSeed : List Char → Nat → List Char)
    (count : Nat) (env : HarnessEnv) : Prop where
  once : ((readIds isValidUuid env.workerAgentIds).take count).Nodup
  fresh : ∀ i, 1 ≤ i → i ≤ count - (readIds isValidUuid env.workerAgentIds).length →
    generatedId agentIdFromSeed env i ∉ readIds isValidUuid env.workerAgentIds
  lines : '\n' ∈ env.workerAgentIds →
    (listedIds isValidUuid env.workerAgentIds).eraseDups.take count <+:
      givenIds isValidUuid count env ++ generatedIds agentIdFromSeed env count

theorem entryId_nil : entryId isValidUuid [] = none := rfl

theorem readIds_eq_listedIds {text : List Char} (h : '\n' ∉ text) :
    readIds isValidUuid text = listedIds isValidUuid text := by
  have hline : firstLine text = text := by
    rw [firstLine, List.takeWhile_eq_self_iff]
    intro c hc
    simpa using fun heq : c = '\n' => h (heq ▸ hc)
  rw [readIds, listedIds, hline, readArray]
  split
  · next hlast =>
    obtain ⟨fields, hfields⟩ := List.getLast?_eq_some_iff.mp hlast
    rw [hfields, List.dropLast_concat, List.filterMap_append]
    simp [entryId_nil]
  · rfl

theorem eraseDups_of_nodup {ids : List (List Char)} (h : ids.Nodup) : ids.eraseDups = ids := by
  induction ids with
  | nil => rfl
  | cons id ids ih =>
    rw [List.nodup_cons] at h
    have hfilter : ids.filter (fun x => !x == id) = ids := by
      rw [List.filter_eq_self]
      intro x hx
      simpa using fun heq : x = id => h.1 (heq ▸ hx)
    rw [List.eraseDups_cons, hfilter, ih h.2]

theorem take_eraseDups {ids : List (List Char)} {n : Nat} (h : (ids.take n).Nodup) :
    ids.eraseDups.take n = ids.take n := by
  conv_lhs => rw [← List.take_append_drop n ids, List.eraseDups_append, eraseDups_of_nodup h]
  rcases Nat.le_total n ids.length with hle | hle
  · rw [List.take_append_of_le_length (List.length_take_of_le hle).ge, List.take_take, Nat.min_self]
  · rw [List.drop_of_length_le hle]
    simp [List.take_take]

theorem nodup_resolveWorkerIds_iff (h : Documented agentIdFromSeed) :
    (resolveWorkerIds isValidUuid agentIdFromSeed count env).Nodup ↔
      ((readIds isValidUuid env.workerAgentIds).take count).Nodup ∧
        ∀ i, 1 ≤ i → i ≤ count - (readIds isValidUuid env.workerAgentIds).length →
          generatedId agentIdFromSeed env i ∉ readIds isValidUuid env.workerAgentIds := by
  rw [resolveWorkerIds_eq, take_append_generatedIds]
  rcases @givenIds_cases isValidUuid count env with
    hgiven | ⟨hread, rfl, id, hgiven⟩
  · rw [hgiven, List.nodup_append]
    generalize readIds isValidUuid env.workerAgentIds = ids
    constructor
    · rintro ⟨hids, -, hne⟩
      refine ⟨hids, fun i hlow hhigh hlisted => ?_⟩
      have htake : ids.take count = ids := List.take_of_length_le (by omega)
      have hgenerated : generatedId agentIdFromSeed env i ∈
          generatedIds agentIdFromSeed env (count - ids.length) :=
        mem_generatedIds.mpr ⟨i, ⟨hlow, hhigh⟩, rfl⟩
      exact hne _ (by rwa [htake]) _ hgenerated rfl
    · rintro ⟨hids, hfresh⟩
      refine ⟨hids, nodup_generatedIds h _, fun id hid id' hid' heq => ?_⟩
      obtain ⟨i, ⟨hlow, hhigh⟩, rfl⟩ := mem_generatedIds.mp hid'
      exact hfresh i hlow hhigh (heq ▸ List.mem_of_mem_take hid)
  · simp [hgiven, hread, generatedIds]

theorem length_resolveWorkerIds :
    (resolveWorkerIds isValidUuid agentIdFromSeed count env).length = count := by
  rw [resolveWorkerIds_eq, List.length_take, List.length_append, length_generatedIds]
  omega

theorem take_prefix_take_iff {ids ids' : List (List Char)} {n : Nat} :
    ids.take n <+: ids'.take n ↔ ids.take n <+: ids' := by
  rw [List.prefix_take_iff]
  exact and_iff_left (List.length_take_le n ids)

/-- The workers have ids of their own, the listed ones first, exactly if no entry is listed twice, no
listed id has to be generated and the listed ids are on one line. -/
theorem resolveWorkerIds_iff (h : Documented agentIdFromSeed) (isValidUuid : List Char → Bool)
    (count : Nat) (env : HarnessEnv) :
    OwnIds isValidUuid count env (resolveWorkerIds isValidUuid agentIdFromSeed count env) ↔
      ListedOnce isValidUuid agentIdFromSeed count env := by
  constructor
  · rintro ⟨-, hnodup, hlisted⟩
    obtain ⟨honce, hfresh⟩ := (nodup_resolveWorkerIds_iff h).mp hnodup
    rw [resolveWorkerIds_eq, take_prefix_take_iff] at hlisted
    exact ⟨honce, hfresh, fun _ => hlisted⟩
  · rintro ⟨honce, hfresh, hlines⟩
    refine ⟨length_resolveWorkerIds, (nodup_resolveWorkerIds_iff h).mpr ⟨honce, hfresh⟩, ?_⟩
    rw [resolveWorkerIds_eq, take_prefix_take_iff]
    by_cases hline : '\n' ∈ env.workerAgentIds
    · exact hlines hline
    · rw [← readIds_eq_listedIds hline, take_eraseDups honce]
      rcases @givenIds_cases isValidUuid count env with hgiven | ⟨hread, -⟩
      · rw [hgiven]
        exact (List.take_prefix _ _).trans (List.prefix_append _ _)
      · simp [hread]

end resolve

/-- The ids with the numbers 1 and 2 that are generated from `harness-worker`. -/
def workerUuid (index : Nat) : List Char :=
  if index = 1 then "a3739e04-f227-5553-a531-6eb615453c34".toList
  else if index = 2 then "502087be-0770-5972-bba0-a10e931e8c8a".toList
  else List.replicate (37 + index) 'a'

theorem length_workerUuid (i : Nat) :
    (workerUuid i).length = if i = 1 ∨ i = 2 then 36 else 37 + i := by
  unfold workerUuid
  split_ifs <;> first | omega | simp

theorem normalizeUuid_replicate (n : Nat) :
    normalizeUuid (List.replicate (n + 1) 'a') = List.replicate (n + 1) 'a' := by
  have hecho : echo (List.replicate (n + 1) 'a') = List.replicate (n + 1) 'a' := rfl
  rw [normalizeUuid, hecho, List.map_replicate, trimEndMatches, List.reverse_replicate,
    show asciiLowercase 'a' = 'a' from rfl, List.replicate_succ, List.dropWhile_cons_of_neg (by decide),
    ← List.replicate_succ, List.reverse_replicate]

theorem documented_workerUuid : Documented fun _ => workerUuid where
  injective := by
    intro _ i j hij
    have hlength := congrArg List.length hij
    rw [length_workerUuid, length_workerUuid] at hlength
    by_contra hne
    have hsmall : (i = 1 ∧ j = 2) ∨ (i = 2 ∧ j = 1) := by
      split_ifs at hlength <;> omega
    rcases hsmall with ⟨rfl, rfl⟩ | ⟨rfl, rfl⟩ <;> exact absurd hij (by decide)
  lower := by
    intro _ i
    unfold workerUuid
    split_ifs
    · decide
    · decide
    · rw [show 37 + i = 36 + i + 1 by omega, normalizeUuid_replicate]

/-- Where it is valid, the listed id is generated again for the second worker. -/
theorem not_ownIds_listedFirst :
    let env : HarnessEnv := ⟨workerUuid 1, [], []⟩
    Documented (fun _ => workerUuid) ∧ ¬ OwnIds (· == workerUuid 1) 2 env
      (resolveWorkerIds (· == workerUuid 1) (fun _ => workerUuid) 2 env) := by
  refine ⟨documented_workerUuid, fun h => ?_⟩
  have hnodup := h.nodup
  revert hnodup
  decide

theorem resolveWorkerIds_iff_listedSecond :
    let env : HarnessEnv := ⟨workerUuid 2, [], []⟩
    OwnIds (· == workerUuid 2) 2 env
      (resolveWorkerIds (· == workerUuid 2) (fun _ => workerUuid) 2 env) := by
  intro env
  refine (resolveWorkerIds_iff documented_workerUuid _ 2 env).mpr ⟨by decide, ?_, by decide⟩
  intro i hlow hhigh
  have hlength : (readIds (· == workerUuid 2) env.workerAgentIds).length = 1 := by decide
  obtain rfl : i = 1 := by omega
  decide

end Harness

end SamtaDashboard

import SamtaDashboard.Application.Planner
import SamtaDashboard.Data.Words
import SamtaDashboard.Lib.Chunks

/-!
# The words of a plan

The planner cuts the words of the objective into blocks of `L ⌈/⌉ n` and takes the first `n` blocks,
twice. That many words a block leave at most `n` blocks, so neither `take` drops anything and every
word of the objective stands in the description of one item.
-/

namespace SamtaDashboard

open Text

namespace Planner

theorem chunksAux_chunking {α : Type} {width : Nat} (xs chunk : List α)
    (hchunk : chunk.length < width) : Chunking width (chunk ++ xs) (chunksAux width xs chunk) := by
  induction xs generalizing chunk with
  | nil =>
    rw [chunksAux, List.append_nil]
    split
    · next hempty =>
      rw [List.isEmpty_iff.mp hempty]
      exact .nil
    · next hempty =>
      have := List.length_pos_iff.mpr (mt List.isEmpty_iff.mpr hempty)
      exact .singleton (by omega) (by omega)
  | cons x xs ih =>
    have hsnoc : chunk ++ x :: xs = (chunk ++ [x]) ++ xs := by simp
    rw [chunksAux, hsnoc]
    split
    · next hfull => exact .cons (by omega) (by simpa using hfull) (ih [] (by simp; omega))
    · next hfull => exact ih (chunk ++ [x]) (by rw [List.length_append, List.length_singleton]; omega)

theorem chunks_chunking {α : Type} {width : Nat} (hwidth : 0 < width) (words : List α) :
    Chunking width words (chunks width words) := by
  exact chunksAux_chunking words [] hwidth

theorem chunkWidth_eq {L n : Nat} (hn : 0 < n) (hL : 0 < L) :
    max ((L + (n - 1)) / n) 1 = L ⌈/⌉ n := by
  have hpos := ceilDiv_pos hn hL
  have hsub : L + (n - 1) = L + n - 1 := by omega
  rw [hsub, ← Nat.ceilDiv_eq_add_pred_div]
  exact max_eq_left hpos

theorem length_chunks_le {words : List (List Char)} {n : Nat} (hn : 0 < n) (hL : 0 < words.length) :
    (chunks (words.length ⌈/⌉ n) words).length ≤ n := by
  have hwidth := ceilDiv_pos hn hL
  rw [(chunks_chunking hwidth words).length_eq hwidth]
  exact ceilDiv_ceilDiv_le hn hL

theorem filter_chunks {width : Nat} (hwidth : 0 < width) (words : List (List Char)) :
    (chunks width words).filter (!·.isEmpty) = chunks width words := by
  rw [List.filter_eq_self]
  intro block hblock
  have hpos := ((chunks_chunking hwidth words).block_pos hwidth hblock).1
  simpa using List.length_pos_iff.mp hpos

theorem filter_splitWhitespace (text : List Char) :
    (splitWhitespace text).filter (!·.isEmpty) = splitWhitespace text := by
  rw [List.filter_eq_self]
  intro word hword
  simpa using (isWord_of_mem_splitWhitespace hword).1

/-- The texts are the blocks of words that the width gives: neither `take` nor `filter` drops
one. -/
theorem objectiveChunks_eq (objective : String) {n : Nat} (hn : 0 < n)
    (hwords : splitWhitespace objective.toList ≠ []) :
    objectiveChunks objective n =
      (chunks ((splitWhitespace objective.toList).length ⌈/⌉ n)
        (splitWhitespace objective.toList)).map
          fun chunk => String.ofList ([' '].intercalate chunk) := by
  have hL := List.length_pos_iff.mpr hwords
  simp only [objectiveChunks, filter_splitWhitespace]
  rw [chunkWidth_eq hn hL, List.take_of_length_le (length_chunks_le hn hL),
    filter_chunks (ceilDiv_pos hn hL)]

theorem splitWhitespace_chunk {objective : String} {width : Nat} (hwidth : 0 < width)
    {chunk : List (List Char)} (hchunk : chunk ∈ chunks width (splitWhitespace objective.toList)) :
    splitWhitespace (String.ofList ([' '].intercalate chunk)).toList = chunk := by
  rw [String.toList_ofList]
  refine splitWhitespace_intercalate chunk fun word hword => ?_
  have hmem : word ∈ splitWhitespace objective.toList := by
    rw [← (chunks_chunking hwidth (splitWhitespace objective.toList)).flatten]
    exact List.mem_flatten_of_mem hchunk hword
  exact isWord_of_mem_splitWhitespace hmem

theorem map_description_steps (itemId : Nat → Uuid) (runId : Uuid) (texts : List String) :
    (texts.mapIdx fun index text =>
      newItem runId (itemId index) s!"Step {index + 1}: {text}").map (·.description) =
        texts.mapIdx fun index text => s!"Step {index + 1}: {text}" := by
  apply List.ext_getElem <;> simp [newItem]

end Planner

theorem decompose_of_words (itemId : Nat → Uuid) (runId : Uuid) (objective : String) (r : Nat)
    (hwords : splitWhitespace objective.toList ≠ []) :
    Planner.new.decomposeObjectiveWithTarget itemId runId objective r =
      (Planner.objectiveChunks objective (min 12 (max 1 r))).mapIdx fun index text =>
        Planner.newItem runId (itemId index) s!"Step {index + 1}: {text}" := by
  have hn : 0 < min 12 (max 1 r) := by omega
  have hL := List.length_pos_iff.mpr hwords
  have hwidth := ceilDiv_pos hn hL
  have htexts := Planner.objectiveChunks_eq objective hn hwords
  have htarget : min (max r 1) 12 = min 12 (max 1 r) := by omega
  simp only [Planner.decomposeObjectiveWithTarget, Planner.new, htarget]
  split
  · next hnil =>
    have hchunking := Planner.chunks_chunking hwidth (splitWhitespace objective.toList)
    have hlength := hchunking.length_eq hwidth
    have hpos := ceilDiv_pos hwidth hL
    rw [htexts, List.map_eq_nil_iff] at hnil
    rw [hnil, List.length_nil] at hlength
    omega
  · rw [List.take_of_length_le]
    rw [List.length_mapIdx, htexts, List.length_map]
    exact Planner.length_chunks_le hn hL

/-- Every word of the objective stands in one item, in order, and all items but the last have
equally many words; without words the plan is fixed. -/
theorem decomposeObjective_lossless (itemId : Nat → Uuid) (runId : Uuid) (objective : String)
    (r : Nat) :
    let W := splitWhitespace objective.toList
    let n := min 12 (max 1 r)
    let w := W.length ⌈/⌉ n
    let items := Planner.new.decomposeObjectiveWithTarget itemId runId objective r
    (W ≠ [] →
      items.length = W.length ⌈/⌉ w ∧ 1 ≤ items.length ∧ items.length ≤ min n W.length ∧
        ∃ texts : List String,
          items.map (·.description) = texts.mapIdx (fun i text => s!"Step {i + 1}: {text}") ∧
            Chunking w W (texts.map fun text => splitWhitespace text.toList)) ∧
      (W = [] → items.length = min 4 n) := by
  intro W n w items
  have hn : 0 < n := by omega
  constructor
  · intro hwords
    have hL := List.length_pos_iff.mpr hwords
    have hw : 0 < w := ceilDiv_pos hn hL
    have hchunking : Chunking w W (Planner.chunks w W) := Planner.chunks_chunking hw W
    have htexts : Planner.objectiveChunks objective n = _ :=
      Planner.objectiveChunks_eq objective hn hwords
    have hitems : items = _ := decompose_of_words itemId runId objective r hwords
    have hlength : items.length = W.length ⌈/⌉ w := by
      rw [hitems, List.length_mapIdx, htexts, List.length_map, hchunking.length_eq hw]
    refine ⟨hlength, ?_, ?_, Planner.objectiveChunks objective n, ?_, ?_⟩
    · rw [hlength]
      exact ceilDiv_pos hw hL
    · rw [hlength]
      exact le_min (ceilDiv_ceilDiv_le hn hL) (ceilDiv_le_self hw)
    · rw [hitems]
      exact Planner.map_description_steps itemId runId _
    · have hblocks : (Planner.chunks w W).map (fun chunk =>
          splitWhitespace (String.ofList ([' '].intercalate chunk)).toList) = Planner.chunks w W :=
        (List.map_congr_left fun chunk hchunk => Planner.splitWhitespace_chunk hw hchunk).trans
          (List.map_id _)
      rw [htexts, List.map_map]
      exact hblocks.symm ▸ hchunking
  · intro hwords
    have hnone : Planner.objectiveChunks objective n = [] := by
      simp [Planner.objectiveChunks, show splitWhitespace objective.toList = [] from hwords,
        Planner.chunks, Planner.chunksAux]
    have htarget : min (max r 1) 12 = n := by omega
    simp only [items, Planner.decomposeObjectiveWithTarget, Planner.new, htarget, hnone,
      List.length_mapIdx, List.length_take, Planner.fallback]
    simp only [List.length_cons, List.length_nil]
    omega

end SamtaDashboard

import Mathlib.Algebra.Order.Floor.Div

/-!
# Cutting a list into blocks

`Chunking width xs blocks` says that the blocks, put together again, are the list, and that all of
them but the last are full. The width fixes the number of blocks (`Chunking.length_eq`); a width
of `L ⌈/⌉ n` cuts a list of length `L` into at most `n` blocks (`ceilDiv_ceilDiv_le`), so nothing is
lost by taking the first `n` of them.
-/

/-- The blocks are the list cut into pieces of the width; the last one may be shorter. -/
structure Chunking {α : Type} (width : Nat) (xs : List α) (blocks : List (List α)) : Prop where
  flatten : blocks.flatten = xs
  full : ∀ block ∈ blocks.dropLast, block.length = width
  last : ∀ block ∈ blocks.getLast?, 1 ≤ block.length ∧ block.length ≤ width

namespace Chunking

variable {α : Type} {width : Nat} {xs block : List α} {blocks : List (List α)}

theorem nil : Chunking width ([] : List α) [] where
  flatten := rfl
  full := by simp
  last := by simp

theorem singleton (hpos : 1 ≤ block.length) (hle : block.length ≤ width) :
    Chunking width block [block] where
  flatten := by simp
  full := by simp
  last := by
    intro b hb
    obtain rfl : block = b := by simpa using hb
    exact ⟨hpos, hle⟩

theorem cons (hwidth : 0 < width) (hblock : block.length = width) (h : Chunking width xs blocks) :
    Chunking width (block ++ xs) (block :: blocks) := by
  rcases blocks with _ | ⟨next, blocks⟩
  · have hxs : xs = [] := h.flatten.symm
    rw [hxs, List.append_nil]
    exact singleton (by omega) hblock.le
  · refine ⟨by rw [List.flatten_cons, h.flatten], ?_, ?_⟩
    · intro b hb
      rw [List.dropLast_cons_cons, List.mem_cons] at hb
      rcases hb with rfl | hb
      · exact hblock
      · exact h.full b hb
    · intro b hb
      rw [List.getLast?_cons_cons] at hb
      exact h.last b hb

theorem block_pos (hwidth : 0 < width) (h : Chunking width xs blocks) {b : List α}
    (hb : b ∈ blocks) : 1 ≤ b.length ∧ b.length ≤ width := by
  obtain ⟨front, z, rfl⟩ : ∃ front z, blocks = front ++ [z] :=
    ⟨_, _, (List.dropLast_concat_getLast (List.ne_nil_of_mem hb)).symm⟩
  rcases List.mem_append.mp hb with hfront | hlast
  · have := h.full b (by simpa using hfront)
    omega
  · obtain rfl := List.mem_singleton.mp hlast
    exact h.last b (by simp)

theorem length_eq (hwidth : 0 < width) (h : Chunking width xs blocks) :
    blocks.length = xs.length ⌈/⌉ width := by
  rcases List.eq_nil_or_concat' blocks with rfl | ⟨front, z, rfl⟩
  · rw [← h.flatten]
    simp
  · have hfront : (front.map List.length).sum = front.length * width := by
      rw [List.map_eq_replicate_iff.mpr fun b hb => h.full b (by simpa using hb),
        List.sum_replicate_nat]
    have hlength : xs.length = front.length * width + z.length := by
      rw [← h.flatten, List.length_flatten, List.map_append, List.sum_append, hfront]
      simp
    obtain ⟨hpos, hle⟩ := h.last z (by simp)
    have hdiv : xs.length + width - 1 = (z.length - 1) + (front.length + 1) * width := by
      rw [Nat.add_mul]
      omega
    rw [Nat.ceilDiv_eq_add_pred_div, hdiv, Nat.add_mul_div_right _ _ hwidth,
      Nat.div_eq_of_lt (by omega), Nat.zero_add, List.length_append, List.length_singleton]

end Chunking

/-- A list of length `L` cut into blocks of `L ⌈/⌉ n` has at most `n` of them. -/
theorem ceilDiv_ceilDiv_le {L n : Nat} (hn : 0 < n) (hL : 0 < L) : L ⌈/⌉ (L ⌈/⌉ n) ≤ n := by
  have hle : L ≤ n * (L ⌈/⌉ n) := (ceilDiv_le_iff_le_mul hn).mp le_rfl
  have hpos : 0 < L ⌈/⌉ n := Nat.pos_of_mul_pos_left (lt_of_lt_of_le hL hle)
  rw [ceilDiv_le_iff_le_mul hpos, Nat.mul_comm]
  exact hle

theorem ceilDiv_pos {L n : Nat} (hn : 0 < n) (hL : 0 < L) : 0 < L ⌈/⌉ n := by
  by_contra h
  have := (ceilDiv_le_iff_le_mul hn).mp (Nat.le_zero.mp (Nat.not_lt.mp h)).le
  omega

theorem ceilDiv_le_self {L n : Nat} (hn : 0 < n) : L ⌈/⌉ n ≤ L :=
  (ceilDiv_le_iff_le_mul hn).mpr (Nat.le_mul_of_pos_left L hn)

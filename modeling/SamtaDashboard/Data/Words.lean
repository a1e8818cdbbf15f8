import SamtaDashboard.Data.Text

/-!
# The words of a text

`splitWhitespace` reads a text from the left with the word read so far. A word is a text without
white space that is not empty; joining words with spaces and splitting again gives the words back
(`splitWhitespace_intercalate`). A trimmed text begins with no trimmed character (`head?_trimMatches`).
-/

namespace SamtaDashboard

namespace Text

theorem forall_mem_of_all {p : Char → Prop} [DecidablePred p] {text : List Char}
    (h : text.all fun c => decide (p c)) : ∀ c ∈ text, p c :=
  fun c hc => of_decide_eq_true (List.all_eq_true.mp h c hc)

def IsWord (word : List Char) : Prop := word ≠ [] ∧ ∀ c ∈ word, isWhitespace c = false

theorem splitWhitespaceAux_append {word : List Char} (hword : ∀ c ∈ word, isWhitespace c = false)
    (rest read : List Char) :
    splitWhitespaceAux (word ++ rest) read = splitWhitespaceAux rest (read ++ word) := by
  induction word generalizing read with
  | nil => simp
  | cons c cs ih =>
    rw [List.forall_mem_cons] at hword
    rw [List.cons_append, splitWhitespaceAux, hword.1, if_neg (by simp), ih hword.2]
    simp

theorem splitWhitespaceAux_space {c : Char} (hc : isWhitespace c = true) (rest : List Char)
    {read : List Char} (hread : read ≠ []) :
    splitWhitespaceAux (c :: rest) read = read :: splitWhitespace rest := by
  rw [splitWhitespaceAux, hc, if_pos rfl, if_neg (by simpa using hread), splitWhitespace]

theorem splitWhitespace_cons {c : Char} (hc : isWhitespace c = true) (rest : List Char) :
    splitWhitespace (c :: rest) = splitWhitespace rest := by
  rw [splitWhitespace, splitWhitespaceAux, hc, if_pos rfl, if_pos (by simp), splitWhitespace]

theorem splitWhitespace_append_left {spaces : List Char}
    (hspaces : ∀ c ∈ spaces, isWhitespace c = true) (rest : List Char) :
    splitWhitespace (spaces ++ rest) = splitWhitespace rest := by
  induction spaces with
  | nil => rfl
  | cons c cs ih =>
    rw [List.forall_mem_cons] at hspaces
    rw [List.cons_append, splitWhitespace_cons hspaces.1, ih hspaces.2]

theorem splitWhitespace_word {word rest : List Char} (hword : IsWord word)
    (hrest : ∀ c ∈ rest.head?, isWhitespace c = true) :
    splitWhitespace (word ++ rest) = word :: splitWhitespace rest := by
  rw [splitWhitespace, splitWhitespaceAux_append hword.2, List.nil_append]
  cases rest with
  | nil => simp [splitWhitespaceAux, splitWhitespace, hword.1]
  | cons c cs =>
    have hc := hrest c (by simp)
    rw [splitWhitespaceAux_space hc cs hword.1, splitWhitespace_cons hc]

theorem isWord_of_mem_splitWhitespaceAux {text read : List Char}
    (hread : ∀ c ∈ read, isWhitespace c = false) :
    ∀ word ∈ splitWhitespaceAux text read, IsWord word := by
  induction text generalizing read with
  | nil =>
    intro word hmem
    rw [splitWhitespaceAux] at hmem
    split at hmem
    · simp at hmem
    · next hempty =>
      obtain rfl : word = read := by simpa using hmem
      exact ⟨by simpa using hempty, hread⟩
  | cons c cs ih =>
    intro word hmem
    rw [splitWhitespaceAux] at hmem
    split at hmem
    · split at hmem
      · exact ih (by simp) word hmem
      · next hempty =>
        rcases List.mem_cons.mp hmem with rfl | hmem
        · exact ⟨by simpa using hempty, hread⟩
        · exact ih (by simp) word hmem
    · next hc =>
      refine ih ?_ word hmem
      intro d hd
      rcases List.mem_append.mp hd with hd | hd
      · exact hread d hd
      · obtain rfl : d = c := by simpa using hd
        simpa using hc

theorem isWord_of_mem_splitWhitespace {text word : List Char}
    (hmem : word ∈ splitWhitespace text) : IsWord word :=
  isWord_of_mem_splitWhitespaceAux (by simp) word hmem

theorem splitWhitespace_intercalate (words : List (List Char))
    (hwords : ∀ word ∈ words, IsWord word) :
    splitWhitespace ([' '].intercalate words) = words := by
  induction words with
  | nil => rfl
  | cons word rest ih =>
    rw [List.forall_mem_cons] at hwords
    cases rest with
    | nil =>
      have h : splitWhitespace (word ++ []) = _ := splitWhitespace_word hwords.1 (by simp)
      simpa [splitWhitespace, splitWhitespaceAux] using h
    | cons next rest =>
      rw [List.intercalate_cons_cons, List.append_assoc,
        splitWhitespace_word hwords.1 (by simp [isWhitespace]),
        splitWhitespace_append_left (by simp [isWhitespace]), ih hwords.2]

/-! ### Trimming -/

theorem dropWhile_of_forall {p : Char → Bool} {text : List Char} (h : ∀ c ∈ text, p c = false) :
    text.dropWhile p = text := by
  cases text with
  | nil => rfl
  | cons c cs => exact List.dropWhile_cons_of_neg (by simp [h c])

theorem trimMatches_of_forall {p : Char → Bool} {text : List Char} (h : ∀ c ∈ text, p c = false) :
    trimMatches p text = text := by
  have hreverse : ∀ c ∈ text.reverse, p c = false := fun c hc => h c (List.mem_reverse.mp hc)
  rw [trimMatches, dropWhile_of_forall h, dropWhile_of_forall hreverse, List.reverse_reverse]

theorem head?_trimMatches {p : Char → Bool} {text : List Char} {c : Char}
    (h : (trimMatches p text).head? = some c) : p c = false := by
  have hle : trimMatches p text <+: text.dropWhile p := by
    rw [← List.reverse_reverse (text.dropWhile p)]
    exact List.reverse_prefix.mpr (List.dropWhile_suffix p)
  have hhead : (text.dropWhile p).head? = some c := by
    obtain ⟨rest, hrest⟩ := hle
    rw [← hrest, List.head?_append, h, Option.some_or]
  simpa [hhead] using List.head?_dropWhile_not p text

end Text

end SamtaDashboard

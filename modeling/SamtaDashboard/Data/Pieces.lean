import SamtaDashboard.Data.Words

/-!
# The text behind a keyword

`split` cuts a text at the occurrences of a keyword from the left. A keyword that ends with a character
that it has nowhere else cannot overlap with itself, so a text in front of it in which it does not occur
is the first piece (`split_append`), and the word behind it is the first word of the second piece
(`wordAfter_eq`).
-/

namespace SamtaDashboard

namespace Text

/-! ### Cutting a text -/

theorem splitAux_skip (pattern a b piece : List Char) :
    splitAux pattern (a ++ b) a.length piece = splitAux pattern b 0 piece := by
  induction a with
  | nil => rfl
  | cons c a ih => rw [List.cons_append, List.length_cons, splitAux, ih]

/-- No match begins in `a`. -/
def NoMatch (pattern a b : List Char) : Prop :=
  ∀ front rest, a = front ++ rest → rest ≠ [] → ¬ pattern <+: rest ++ b

theorem splitAux_append {pattern a b : List Char} (h : NoMatch pattern a b) (piece : List Char) :
    splitAux pattern (a ++ b) 0 piece = splitAux pattern b 0 (piece ++ a) := by
  induction a generalizing piece with
  | nil => simp
  | cons c a ih =>
    have hnot : pattern.isPrefixOf (c :: (a ++ b)) = false := by
      rw [Bool.eq_false_iff, ne_eq, List.isPrefixOf_iff_prefix]
      exact h [] (c :: a) rfl (by simp)
    have hrest : NoMatch pattern a b := fun front rest hsplit =>
      h (c :: front) rest (by rw [hsplit, List.cons_append])
    rw [List.cons_append, splitAux, hnot, if_neg (by simp), ih hrest]
    simp

theorem split_append {pattern a b : List Char} (hpattern : pattern ≠ [])
    (h : NoMatch pattern a (pattern ++ b)) :
    split pattern (a ++ (pattern ++ b)) = a :: split pattern b := by
  obtain ⟨c, cs, rfl⟩ := List.exists_cons_of_ne_nil hpattern
  have hmatch : (c :: cs).isPrefixOf (c :: (cs ++ b)) = true :=
    List.isPrefixOf_iff_prefix.mpr (List.prefix_append (c :: cs) b)
  rw [split, splitAux_append h, List.nil_append, List.cons_append, splitAux, hmatch, if_pos rfl,
    List.length_cons, Nat.add_sub_cancel, splitAux_skip, split]

theorem split_eq_singleton {pattern text : List Char} (h : ¬ pattern <:+: text) :
    split pattern text = [text] := by
  have hnone : NoMatch pattern text [] := by
    intro front rest hsplit _ hpattern
    rw [List.append_nil] at hpattern
    exact h (hpattern.isInfix.trans (hsplit ▸ (List.suffix_append front rest).isInfix))
  rw [split, ← List.append_nil text, splitAux_append hnone]
  simp [splitAux]

theorem head?_splitAux (pattern text piece : List Char) :
    ∃ t, (splitAux pattern text 0 piece).head? = some (piece ++ t) ∧ t <+: text := by
  induction text generalizing piece with
  | nil => exact ⟨[], by simp [splitAux], List.nil_prefix⟩
  | cons c cs ih =>
    rw [splitAux]
    split
    · exact ⟨[], by simp, List.nil_prefix⟩
    · obtain ⟨t, ht, hle⟩ := ih (piece ++ [c])
      exact ⟨c :: t, by simpa using ht, by simpa using hle⟩

/-! ### Keywords -/

theorem append_cons_eq {stop : Char} {x y a b : List Char} (h : x ++ stop :: y = a ++ stop :: b)
    (honce : stop ∉ x ∨ stop ∉ b) : x = a ∧ y = b ∨ ∃ z, a = x ++ stop :: z := by
  rcases List.append_eq_append_iff.mp h with ⟨a', rfl, ha⟩ | ⟨x', rfl, hx⟩
  · cases a' with
    | nil => exact Or.inl ⟨by simp, (List.cons.inj ha).2⟩
    | cons c z =>
      obtain ⟨rfl, -⟩ := List.cons.inj ha
      exact Or.inr ⟨z, rfl⟩
  · cases x' with
    | nil => exact Or.inl ⟨by simp, (List.cons.inj hx).2.symm⟩
    | cons c z =>
      obtain ⟨rfl, rfl⟩ := List.cons.inj hx
      simp at honce

/-- A keyword: a word and a character at its end that the word does not have. -/
structure Keyword where
  word : List Char
  stop : Char
  once : stop ∉ word
  visible : (word ++ [stop]).all fun c => !isWhitespace c

def Keyword.text (key : Keyword) : List Char := key.word ++ [key.stop]

namespace Keyword

variable {key other : Keyword} {a b front rest : List Char}

theorem text_ne_nil (key : Keyword) : key.text ≠ [] := by simp [text]

theorem isWhitespace_of_mem {c : Char} (hc : c ∈ key.text) : isWhitespace c = false := by
  simpa using List.all_eq_true.mp key.visible c hc

theorem isWhitespace_stop (key : Keyword) : isWhitespace key.stop = false :=
  key.isWhitespace_of_mem (by simp [text])

theorem noMatch (h : ¬ key.text <:+: a) (b : List Char) : NoMatch key.text a (key.text ++ b) := by
  rintro front rest rfl hrest ⟨t, ht⟩
  have hcut : key.word ++ key.stop :: t = (rest ++ key.word) ++ key.stop :: b := by
    simpa [text] using ht
  rcases append_cons_eq hcut (Or.inl key.once) with ⟨heq, -⟩ | ⟨z, hz⟩
  · exact hrest (by simpa using heq)
  · rcases List.append_eq_append_iff.mp hz with ⟨a', -, ha⟩ | ⟨c', rfl, hc⟩
    · exact key.once (ha ▸ by simp)
    · cases c' with
      | nil => exact key.once (by rw [← show _ = key.word from hc]; simp)
      | cons c z' =>
        obtain ⟨rfl, -⟩ := List.cons.inj hc
        exact h ⟨front, z', by simp [text]⟩

/-- Behind another keyword and text without the character a keyword does not occur, if it did not occur
in front of it and is no end of it. -/
theorem not_infix_append (hfront : ¬ key.text <:+: front) (hstop : key.stop = other.stop)
    (hrest : key.stop ∉ rest) (hword : ¬ key.word <:+ front ++ other.word) :
    ¬ key.text <:+: front ++ other.text ++ rest := by
  rintro ⟨x, y, hxy⟩
  have hcut : (x ++ key.word) ++ key.stop :: y = (front ++ other.word) ++ key.stop :: rest := by
    simpa [text, hstop] using hxy
  rcases append_cons_eq hcut (Or.inr hrest) with ⟨heq, -⟩ | ⟨z, hz⟩
  · exact hword ⟨x, heq⟩
  · rcases List.append_eq_append_iff.mp hz with ⟨a', -, ha⟩ | ⟨c', rfl, hc⟩
    · exact other.once (by rw [← hstop, ha]; simp)
    · cases c' with
      | nil => exact other.once (by rw [← hstop, ← show _ = other.word from hc]; simp)
      | cons c z' =>
        obtain ⟨rfl, -⟩ := List.cons.inj hc
        exact hfront ⟨x, z', by simp [text]⟩

end Keyword

/-- `text.split(keyword).nth(1)` and the first word of it. -/
def wordAfter (keyword text : List Char) : Option (List Char) :=
  (split keyword text)[1]?.bind fun s => (splitWhitespace s).head?

theorem wordAfter_eq {keyword a spaces word rest : List Char} (hkeyword : keyword ≠ [])
    (hfirst : ∀ b, NoMatch keyword a (keyword ++ b)) (hspaces : ∀ c ∈ spaces, isWhitespace c = true)
    (hword : IsWord word) (hstart : ∀ c ∈ spaces ++ word, keyword.head? ≠ some c)
    (hrest : ∀ c ∈ rest.head?, isWhitespace c = true) :
    wordAfter keyword (a ++ (keyword ++ (spaces ++ word ++ rest))) = some word := by
  have hnone : NoMatch keyword (spaces ++ word) rest := by
    intro front tail hsplit htail hmatch
    obtain ⟨c, cs, rfl⟩ := List.exists_cons_of_ne_nil htail
    obtain ⟨k, ks, rfl⟩ := List.exists_cons_of_ne_nil hkeyword
    obtain ⟨rfl, -⟩ := List.cons_prefix_cons.mp hmatch
    exact hstart k (by rw [hsplit]; simp) rfl
  obtain ⟨t, ht, hle⟩ := head?_splitAux keyword rest (spaces ++ word)
  have hpiece : (split keyword (spaces ++ word ++ rest)).head? = some (spaces ++ word ++ t) := by
    rw [split, splitAux_append hnone, List.nil_append, ht]
  have htspace : ∀ c ∈ t.head?, isWhitespace c = true := by
    intro c hc
    obtain ⟨t', rfl⟩ := hle
    cases t with
    | nil => cases hc
    | cons d ds => exact hrest c hc
  have hsecond : (split keyword (a ++ (keyword ++ (spaces ++ word ++ rest))))[1]? =
      some (spaces ++ word ++ t) := by
    rw [split_append hkeyword (hfirst _), List.getElem?_cons_succ, ← List.head?_eq_getElem?, hpiece]
  rw [wordAfter, hsecond, Option.bind_some, List.append_assoc,
    splitWhitespace_append_left hspaces, splitWhitespace_word hword htspace, List.head?_cons]

/-- A keyword, white space and a value: a word without the characters that the keyword begins and ends
with. -/
structure Field (key : Keyword) where
  spaces : List Char
  value : List Char
  isSpace : ∀ c ∈ spaces, isWhitespace c = true
  isWord : IsWord value
  start : ∀ c ∈ value, key.text.head? ≠ some c
  stop : key.stop ∉ value

def Field.text {key : Keyword} (field : Field key) : List Char :=
  key.text ++ (field.spaces ++ field.value)

namespace Field

variable {key other : Keyword} {front gap rest : List Char}

theorem stop_not_mem (field : Field key) : key.stop ∉ field.spaces ++ field.value := by
  intro hmem
  rcases List.mem_append.mp hmem with hspace | hvalue
  · exact absurd (field.isSpace _ hspace) (by simp [key.isWhitespace_stop])
  · exact field.stop hvalue

theorem wordAfter_text (field : Field key) (hfront : ¬ key.text <:+: front)
    (hrest : ∀ c ∈ rest.head?, isWhitespace c = true) :
    wordAfter key.text (front ++ field.text ++ rest) = some field.value := by
  have hstart : ∀ c ∈ field.spaces ++ field.value, key.text.head? ≠ some c := by
    intro c hc hhead
    rcases List.mem_append.mp hc with hspace | hvalue
    · have hvisible := key.isWhitespace_of_mem (List.mem_of_mem_head? hhead)
      exact absurd (field.isSpace c hspace) (by simp [hvisible])
    · exact field.start c hvalue hhead
  rw [text, List.append_assoc, List.append_assoc]
  exact wordAfter_eq key.text_ne_nil (key.noMatch hfront) field.isSpace field.isWord hstart hrest

/-- Behind each of two keywords stands the value of its field. -/
theorem wordAfter_pair (first : Field key) (second : Field other) (hstop : other.stop = key.stop)
    (hword : ¬ other.word <:+ front ++ key.word) (hkey : ¬ key.text <:+: front)
    (hother : ¬ other.text <:+: front) (hgap : ∀ c ∈ gap, isWhitespace c = true) (hne : gap ≠ [])
    (hrest : ∀ c ∈ rest.head?, isWhitespace c = true) :
    wordAfter key.text (front ++ (first.text ++ gap ++ second.text) ++ rest) = some first.value ∧
      wordAfter other.text (front ++ (first.text ++ gap ++ second.text) ++ rest) =
        some second.value := by
  constructor
  · have hspace : ∀ c ∈ (gap ++ second.text ++ rest).head?, isWhitespace c = true := by
      obtain ⟨d, ds, rfl⟩ := List.exists_cons_of_ne_nil hne
      intro c hc
      obtain rfl : d = c := by simpa using hc
      exact hgap d List.mem_cons_self
    simpa using first.wordAfter_text hkey hspace
  · have hbetween : other.stop ∉ first.spaces ++ first.value ++ gap := by
      rw [hstop]
      intro hmem
      rcases List.mem_append.mp hmem with hfield | hspace
      · exact first.stop_not_mem hfield
      · exact absurd (hgap _ hspace) (by simp [key.isWhitespace_stop])
    have hfront := Keyword.not_infix_append hother hstop hbetween hword
    simpa [text] using second.wordAfter_text hfront hrest

end Field

theorem wordAfter_eq_none {keyword text : List Char} (h : ¬ keyword <:+: text) :
    wordAfter keyword text = none := by
  rw [wordAfter, split_eq_singleton h]
  rfl

end Text

end SamtaDashboard

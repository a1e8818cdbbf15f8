import SamtaDashboard.Data.Numerals

/-!
# Lower case

What is documented of the two Unicode functions is a structure (`Unicode.Documented`). Lower case is
taken letter by letter, except that a capital sigma becomes one of two letters, which depends on its
neighbours: two texts are compared with the two letters identified (`foldSigma`). Around a part in
ASCII, the lower case of a text is the lower case of what is around it (`toLowercase_embed`).
-/

namespace SamtaDashboard

namespace Text

/-- The small sigma at the end of a word is a small sigma. -/
def foldSigma (c : Char) : Char := if c = 'ς' then 'σ' else c

def NoSigma (text : List Char) : Prop := ∀ c ∈ text, c ≠ 'σ' ∧ c ≠ 'ς'

theorem map_foldSigma {text : List Char} (h : NoSigma text) : text.map foldSigma = text := by
  have hself : ∀ c ∈ text, foldSigma c = id c := fun c hc => if_neg (h c hc).2
  rw [List.map_congr_left hself, List.map_id]

theorem eq_of_foldSigma {c d : Char} (h : foldSigma c = d) (hd : d ≠ 'σ') : c = d := by
  unfold foldSigma at h
  split at h
  · exact absurd h.symm hd
  · exact h

theorem eq_of_map_foldSigma {text word : List Char} (h : text.map foldSigma = word)
    (hword : NoSigma word) : text = word := by
  have hself : ∀ c ∈ text, foldSigma c = id c := by
    intro c hc
    have hmem : foldSigma c ∈ word := h ▸ List.mem_map_of_mem hc
    exact (eq_of_foldSigma rfl (hword _ hmem).1).symm
  rw [← h, List.map_congr_left hself, List.map_id]

theorem infix_of_map_foldSigma {a b word : List Char} (h : a.map foldSigma = b.map foldSigma)
    (hword : NoSigma word) (ha : word <:+: a) : word <:+: b := by
  obtain ⟨x, y, rfl⟩ := ha
  rw [List.map_append, List.map_append, map_foldSigma hword] at h
  obtain ⟨x', y', rfl, hx, -⟩ := List.map_eq_append_iff.mp h.symm
  obtain ⟨-, word', rfl, -, hmiddle⟩ := List.map_eq_append_iff.mp hx
  rw [eq_of_map_foldSigma hmiddle hword]
  exact (List.suffix_append _ _).isInfix.trans (List.prefix_append _ _).isInfix

/-- A character of ASCII or white space. -/
def IsPlain (c : Char) : Prop := c.toNat < 128 ∨ isWhitespace c = true

theorem asciiLowercase_of_isWhitespace {c : Char} (hc : isWhitespace c = true) :
    asciiLowercase c = c := by
  refine if_neg fun hcapital => ?_
  have hle : 65 ≤ c.toNat ∧ c.toNat ≤ 90 := hcapital
  simp only [isWhitespace, Bool.or_eq_true, Bool.and_eq_true, decide_eq_true_eq, beq_iff_eq] at hc
  omega

theorem IsPlain.asciiLowercase {c : Char} (hc : IsPlain c) : IsPlain (asciiLowercase c) := by
  rcases hc with hascii | hspace
  · refine Or.inl ?_
    exact forall_asciiLowercase (P := fun c d => c.toNat < 128 → d.toNat < 128) (fun _ _ => id)
      (by decide) c hascii
  · rw [asciiLowercase_of_isWhitespace hspace]
    exact Or.inr hspace

theorem IsPlain.ne_sigma {c : Char} (hc : IsPlain c) : c ≠ 'σ' ∧ c ≠ 'ς' := by
  rcases hc with hascii | hspace
  · constructor <;> rintro rfl <;> exact absurd hascii (by decide)
  · constructor <;> rintro rfl <;> exact absurd hspace (by decide)

theorem noSigma_map {text : List Char} (h : ∀ c ∈ text, IsPlain c) :
    NoSigma (text.map asciiLowercase) := by
  intro c hc
  obtain ⟨d, hd, rfl⟩ := List.mem_map.mp hc
  exact (h d hd).asciiLowercase.ne_sigma

end Text

/-- What the standard library documents of the two functions. -/
structure Unicode.Documented (unicode : Unicode) : Prop where
  /-- the letters around a capital sigma decide which small sigma it becomes, and nothing else -/
  append : ∀ a b, (unicode.toLowercase (a ++ b)).map Text.foldSigma =
    (unicode.toLowercase a ++ unicode.toLowercase b).map Text.foldSigma
  ascii : ∀ c : Char, c.toNat < 128 → unicode.toLowercase [c] = [Text.asciiLowercase c]
  space : ∀ c, Text.isWhitespace c = true → unicode.toLowercase [c] = [c]
  digit : ∀ c : Char, c.isDigit → unicode.isNumeric c = true
  sign : unicode.isNumeric '-' = false

namespace Unicode.Documented

open Text

variable {unicode : Unicode} (hu : unicode.Documented)

include hu

theorem toLowercase_nil : unicode.toLowercase [] = [] := by
  have h := congrArg List.length (hu.append [] [])
  simp only [List.append_nil, List.length_map, List.length_append] at h
  exact List.length_eq_zero_iff.mp (by omega)

theorem toLowercase_singleton {c : Char} (hc : IsPlain c) :
    unicode.toLowercase [c] = [asciiLowercase c] := by
  rcases hc with hascii | hspace
  · exact hu.ascii c hascii
  · rw [hu.space c hspace, asciiLowercase_of_isWhitespace hspace]

theorem toLowercase_plain {text : List Char} (h : ∀ c ∈ text, IsPlain c) :
    (unicode.toLowercase text).map foldSigma = text.map asciiLowercase := by
  induction text with
  | nil => rw [hu.toLowercase_nil]; rfl
  | cons c cs ih =>
    rw [List.forall_mem_cons] at h
    have hsigma : NoSigma ([c].map asciiLowercase) := noSigma_map (by simpa using h.1)
    have hfirst : [asciiLowercase c].map foldSigma = [asciiLowercase c] := map_foldSigma hsigma
    rw [← List.singleton_append, hu.append, List.map_append, hu.toLowercase_singleton h.1, hfirst,
      ih h.2]
    rfl

theorem head?_toLowercase {text : List Char} (h : ∀ c ∈ text.head?, isWhitespace c = true)
    {lower : List Char} (hlower : lower.map foldSigma = (unicode.toLowercase text).map foldSigma) :
    ∀ c ∈ lower.head?, isWhitespace c = true := by
  cases text with
  | nil =>
    rw [hu.toLowercase_nil, List.map_nil, List.map_eq_nil_iff] at hlower
    simp [hlower]
  | cons c cs =>
    have hc : isWhitespace c = true := h c rfl
    rw [← List.singleton_append, hu.append, hu.space c hc, List.singleton_append, List.map_cons]
      at hlower
    obtain ⟨d, ds, rfl, hd, -⟩ := List.map_eq_cons_iff.mp hlower
    have hne : c ≠ 'σ' ∧ c ≠ 'ς' := IsPlain.ne_sigma (Or.inr hc)
    rw [show foldSigma c = c from if_neg hne.2] at hd
    rw [eq_of_foldSigma hd hne.1]
    exact h

/-- Around a plain part in front of white space, the lower case of a text is the lower case of what is
around it, up to the choice of small sigmas. -/
theorem toLowercase_embed (front : List Char) {middle rest : List Char} (hmiddle : ∀ c ∈ middle, IsPlain c)
    (hrest : ∀ c ∈ rest.head?, isWhitespace c = true) :
    ∃ front' rest', unicode.toLowercase (front ++ middle ++ rest) =
        front' ++ middle.map asciiLowercase ++ rest' ∧
      front'.map foldSigma = (unicode.toLowercase front).map foldSigma ∧
      ∀ c ∈ rest'.head?, isWhitespace c = true := by
  have hlower : (unicode.toLowercase (front ++ middle ++ rest)).map foldSigma =
      ((unicode.toLowercase front).map foldSigma ++ middle.map asciiLowercase) ++
        (unicode.toLowercase rest).map foldSigma := by
    rw [hu.append (front ++ middle), List.map_append, hu.append front, List.map_append,
      hu.toLowercase_plain hmiddle]
  obtain ⟨left, rest', heq, hleft, hright⟩ := List.map_eq_append_iff.mp hlower
  obtain ⟨front', middle', rfl, hfront, hmid⟩ := List.map_eq_append_iff.mp hleft
  refine ⟨front', rest', ?_, hfront, hu.head?_toLowercase hrest hright⟩
  rw [heq, eq_of_map_foldSigma hmid (noSigma_map hmiddle)]

end Unicode.Documented

end SamtaDashboard

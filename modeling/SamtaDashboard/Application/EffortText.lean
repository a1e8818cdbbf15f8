import SamtaDashboard.Application.Executors
import SamtaDashboard.Data.Lowercase
import SamtaDashboard.Data.Pieces

/-!
# An effort and a cost stated in a text

Where an answer is not JSON, `parse_effort_cost` looks for `EFFORT: 12 COST: 0.002` in it, in either order
and case (`StatesPair`). It reads its own format back from any text around it, needs both keywords, and
never reads a negative effort (`parseEffortCost_reads`).
-/

namespace SamtaDashboard

open Text

/-- `effort:`. -/
def effortKeyword : Keyword := ⟨"effort".toList, ':', by decide, by decide⟩

/-- `cost:`. -/
def costKeyword : Keyword := ⟨"cost".toList, ':', by decide, by decide⟩

/-- A keyword in capital or small letters. -/
def Text.Keyword.Writes (key : Keyword) (word : List Char) : Prop :=
  word.map asciiLowercase = key.text

instance (key : Keyword) (word : List Char) : Decidable (key.Writes word) :=
  inferInstanceAs (Decidable (_ = _))

/-- A number in decimal notation: digits, points, exponents and their signs. -/
def IsDecimal (text : List Char) : Prop :=
  ∀ c ∈ text, c.isDigit ∨ c ∈ ['.', 'e', 'E', '+', '-']

instance (text : List Char) : Decidable (IsDecimal text) :=
  List.decidableBAll _ _

/-- Text without a keyword, in any letter case. -/
def FreeOfKeywords (unicode : Unicode) (text : List Char) : Prop :=
  ¬ effortKeyword.text <:+: unicode.toLowercase text ∧
    ¬ costKeyword.text <:+: unicode.toLowercase text

instance (unicode : Unicode) (text : List Char) : Decidable (FreeOfKeywords unicode text) :=
  inferInstanceAs (Decidable (_ ∧ _))

def IsBlank (text : List Char) : Prop := ∀ c ∈ text, isWhitespace c = true

instance (text : List Char) : Decidable (IsBlank text) := List.decidableBAll _ _

/-- The end of a text, or white space in front of anything. -/
def EndsWord (text : List Char) : Prop := ∀ c ∈ text.head?, isWhitespace c = true

instance (text : List Char) : Decidable (EndsWord text) :=
  text.head?.decidableForallMem

/-- A text states the effort `e` and the cost `c`: the two fields in either order, with white space
between them. -/
inductive StatesPair (unicode : Unicode) (e : Nat) (c : List Char) : List Char → Prop where
  | effortFirst {front key s₁ gap key' s₂ rest : List Char} (hfront : FreeOfKeywords unicode front)
      (hkey : effortKeyword.Writes key) (hs₁ : IsBlank s₁) (hgap : IsBlank gap) (hne : gap ≠ [])
      (hkey' : costKeyword.Writes key') (hs₂ : IsBlank s₂) (hrest : EndsWord rest) :
      StatesPair unicode e c
        (front ++ (key ++ s₁ ++ Nat.toDigits 10 e ++ gap ++ key' ++ s₂ ++ c) ++ rest)
  | costFirst {front key s₁ gap key' s₂ rest : List Char} (hfront : FreeOfKeywords unicode front)
      (hkey : costKeyword.Writes key) (hs₁ : IsBlank s₁) (hgap : IsBlank gap) (hne : gap ≠ [])
      (hkey' : effortKeyword.Writes key') (hs₂ : IsBlank s₂) (hrest : EndsWord rest) :
      StatesPair unicode e c
        (front ++ (key ++ s₁ ++ c ++ gap ++ key' ++ s₂ ++ Nat.toDigits 10 e) ++ rest)

/-- The effort in a word: the part from its first to its last numeric character. -/
def effortOf (unicode : Unicode) (word : List Char) : Option I32 :=
  parseI32 (trimMatches (fun c => !unicode.isNumeric c) word)

theorem parseEffortCost_eq_some_iff {unicode : Unicode} {text : List Char} {e : I32} {c : F64} :
    parseEffortCost unicode text = some (e, c) ↔
      (wordAfter effortKeyword.text (unicode.toLowercase text)).bind (effortOf unicode) = some e ∧
        (wordAfter costKeyword.text (unicode.toLowercase text)).bind parseF64 = some c := by
  unfold parseEffortCost
  dsimp only
  split
  · next effort cost heffort hcost =>
    have heffort' : (wordAfter effortKeyword.text (unicode.toLowercase text)).bind
        (effortOf unicode) = some effort := heffort
    have hcost' : (wordAfter costKeyword.text (unicode.toLowercase text)).bind parseF64 =
        some cost := hcost
    rw [heffort', hcost']
    simp
  · next hnone =>
    constructor
    · intro h
      cases h
    · rintro ⟨heffort, hcost⟩
      exact (hnone e c heffort hcost).elim

/-! ### The fields in lower case -/

theorem isDecimal_toDigits (e : Nat) : IsDecimal (Nat.toDigits 10 e) :=
  fun _ hc => Or.inl (isDigit_of_mem_toDigits hc)

theorem IsDecimal.char {text : List Char} (h : IsDecimal text) {c : Char} (hc : c ∈ text) :
    c.toNat < 128 ∧ isWhitespace c = false ∧ c ≠ ':' ∧ c ≠ 'c' := by
  rcases h c hc with hdigit | hsign
  · have hrange : 48 ≤ c.toNat ∧ c.toNat ≤ 57 := by
      simpa [Char.isDigit, UInt32.le_iff_toNat_le] using hdigit
    refine ⟨by omega, ?_, ?_, ?_⟩
    · simp only [isWhitespace, Bool.or_eq_false_iff, Bool.and_eq_false_iff, decide_eq_false_iff_not,
        beq_eq_false_iff_ne]
      omega
    · rintro rfl
      exact absurd hdigit (by decide)
    · rintro rfl
      exact absurd hdigit (by decide)
  · exact forall_mem_of_all (p := fun c => c.toNat < 128 ∧ isWhitespace c = false ∧ c ≠ ':' ∧ c ≠ 'c')
      (by decide) c hsign

theorem asciiLowercase_of_isDigit {c : Char} (hc : c.isDigit) : asciiLowercase c = c := by
  refine if_neg fun hcapital => ?_
  have hle : 65 ≤ c.toNat ∧ c.toNat ≤ 90 := hcapital
  have hrange : 48 ≤ c.toNat ∧ c.toNat ≤ 57 := by
    simpa [Char.isDigit, UInt32.le_iff_toNat_le] using hc
  omega

theorem IsDecimal.map {text : List Char} (h : IsDecimal text) :
    IsDecimal (text.map asciiLowercase) := by
  intro c hc
  obtain ⟨d, hd, rfl⟩ := List.mem_map.mp hc
  rcases h d hd with hdigit | hsign
  · rw [asciiLowercase_of_isDigit hdigit]
    exact Or.inl hdigit
  · refine Or.inr ?_
    exact forall_mem_of_all (p := fun d => asciiLowercase d ∈ ['.', 'e', 'E', '+', '-']) (by decide)
      d hsign

def effortField {spaces : List Char} (hspaces : IsBlank spaces) (e : Nat) : Field effortKeyword where
  spaces := spaces
  value := Nat.toDigits 10 e
  isSpace := hspaces
  isWord := ⟨by simp, fun _ hc => ((isDecimal_toDigits e).char hc).2.1⟩
  start := by
    intro c hc hhead
    obtain rfl : 'e' = c := Option.some.inj hhead
    exact absurd (isDigit_of_mem_toDigits hc) (by decide)
  stop := fun hmem => ((isDecimal_toDigits e).char hmem).2.2.1 rfl

def costField {spaces c : List Char} (hspaces : IsBlank spaces) (hc : IsDecimal c) (hne : c ≠ []) :
    Field costKeyword where
  spaces := spaces
  value := c.map asciiLowercase
  isSpace := hspaces
  isWord := ⟨by simpa using hne, fun _ hmem => (hc.map.char hmem).2.1⟩
  start := by
    intro d hd hhead
    exact (hc.map.char hd).2.2.2 (Option.some.inj hhead).symm
  stop := fun hmem => (hc.map.char hmem).2.2.1 rfl

theorem map_toDigits (e : Nat) : (Nat.toDigits 10 e).map asciiLowercase = Nat.toDigits 10 e := by
  rw [List.map_congr_left fun c hc => asciiLowercase_of_isDigit (isDigit_of_mem_toDigits hc)]
  exact List.map_id _

theorem IsBlank.map {text : List Char} (h : IsBlank text) : text.map asciiLowercase = text := by
  rw [List.map_congr_left fun c hc => asciiLowercase_of_isWhitespace (h c hc)]
  exact List.map_id _

theorem IsBlank.isPlain {text : List Char} (h : IsBlank text) : ∀ c ∈ text, IsPlain c :=
  fun c hc => Or.inr (h c hc)

theorem IsDecimal.isPlain {text : List Char} (h : IsDecimal text) : ∀ c ∈ text, IsPlain c :=
  fun _ hc => Or.inl (h.char hc).1

theorem Text.Keyword.Writes.isPlain {key : Keyword} {word : List Char} (h : key.Writes word)
    (hkey : ∀ c ∈ key.text, c.toNat < 128) : ∀ c ∈ word, IsPlain c := by
  intro c hc
  have hmem : asciiLowercase c ∈ key.text := by
    rw [← show word.map asciiLowercase = key.text from h]
    exact List.mem_map_of_mem hc
  refine Or.inl ?_
  exact forall_asciiLowercase (P := fun c d => d.toNat < 128 → c.toNat < 128) (fun _ _ => id)
    (by decide) c (hkey _ hmem)

/-- In any text around two fields, in any letter case, behind each keyword stands its value. -/
theorem Unicode.Documented.wordAfter_pair {unicode : Unicode} (hu : unicode.Documented)
    {key other : Keyword} (first : Field key) (second : Field other)
    {front fields gap rest : List Char} (hplain : ∀ c ∈ fields, IsPlain c)
    (hfields : fields.map asciiLowercase = first.text ++ gap ++ second.text)
    (hkey : NoSigma key.text) (hother : NoSigma other.text) (hstop : other.stop = key.stop)
    (hword : ∀ front, ¬ other.word <:+ front ++ key.word)
    (hkeyFront : ¬ key.text <:+: unicode.toLowercase front)
    (hotherFront : ¬ other.text <:+: unicode.toLowercase front)
    (hgap : IsBlank gap) (hne : gap ≠ []) (hrest : EndsWord rest) :
    wordAfter key.text (unicode.toLowercase (front ++ fields ++ rest)) = some first.value ∧
      wordAfter other.text (unicode.toLowercase (front ++ fields ++ rest)) = some second.value := by
  obtain ⟨front', rest', hlower, hfront', hrest'⟩ :=
    hu.toLowercase_embed front hplain hrest
  rw [hlower, hfields]
  exact first.wordAfter_pair second hstop (hword front')
    (fun h => hkeyFront (infix_of_map_foldSigma hfront' hkey h))
    (fun h => hotherFront (infix_of_map_foldSigma hfront' hother h)) hgap hne hrest'

/-! ### The words as numbers -/

theorem effortOf_toDigits {unicode : Unicode} (hu : unicode.Documented) (e : Nat) :
    effortOf unicode (Nat.toDigits 10 e) = parseI32 (Nat.toDigits 10 e) := by
  have hnumeric : ∀ c ∈ Nat.toDigits 10 e, (!unicode.isNumeric c) = false := by
    intro c hc
    rw [hu.digit c (isDigit_of_mem_toDigits hc)]
    rfl
  rw [effortOf, trimMatches_of_forall hnumeric]

theorem effortOf_nonneg {unicode : Unicode} (hu : unicode.Documented) {word : List Char} {e : I32}
    (h : effortOf unicode word = some e) : 0 ≤ e.val := by
  refine parseI32_nonneg (fun hsign => ?_) h
  have hnumeric : (!unicode.isNumeric '-') = false := head?_trimMatches hsign
  rw [hu.sign] at hnumeric
  cases hnumeric

/-! ### Reading the pair -/

section reads

variable {unicode : Unicode} {e : Nat} {c text : List Char} {v : F64}

theorem ne_nil_of_parseF64 (h : parseF64 c = some v) : c ≠ [] := by
  rintro rfl
  cases h

theorem not_suffix_append (front : List Char) :
    ¬ costKeyword.word <:+ front ++ effortKeyword.word ∧
      ¬ effortKeyword.word <:+ front ++ costKeyword.word := by
  have hends : ¬ costKeyword.word <:+ effortKeyword.word := by decide
  exact ⟨fun h => hends (List.suffix_of_suffix_length_le h (List.suffix_append _ _) (by decide)),
    fun h => hends (List.suffix_of_suffix_length_le (List.suffix_append _ _) h (by decide))⟩

theorem StatesPair.words (hu : unicode.Documented) (hc : IsDecimal c) (hne : c ≠ [])
    (h : StatesPair unicode e c text) :
    wordAfter effortKeyword.text (unicode.toLowercase text) = some (Nat.toDigits 10 e) ∧
      wordAfter costKeyword.text (unicode.toLowercase text) = some (c.map asciiLowercase) := by
  have hsigma : NoSigma effortKeyword.text ∧ NoSigma costKeyword.text :=
    ⟨forall_mem_of_all (by decide), forall_mem_of_all (by decide)⟩
  have hascii : (∀ c ∈ effortKeyword.text, c.toNat < 128) ∧ ∀ c ∈ costKeyword.text, c.toNat < 128 :=
    ⟨forall_mem_of_all (by decide), forall_mem_of_all (by decide)⟩
  cases h with
  | @effortFirst front key s₁ gap key' s₂ rest hfront hkey hs₁ hgap hgapNe hkey' hs₂ hrest =>
    refine hu.wordAfter_pair (effortField hs₁ e) (costField hs₂ hc hne) ?_ ?_ hsigma.1 hsigma.2 rfl
      (fun front => (not_suffix_append front).1) hfront.1 hfront.2 hgap hgapNe hrest
    · simp only [List.forall_mem_append]
      exact ⟨⟨⟨⟨⟨⟨hkey.isPlain hascii.1, hs₁.isPlain⟩, (isDecimal_toDigits e).isPlain⟩,
        hgap.isPlain⟩, hkey'.isPlain hascii.2⟩, hs₂.isPlain⟩, hc.isPlain⟩
    · rw [Keyword.Writes] at hkey hkey'
      simp only [List.map_append, hkey, hkey', hs₁.map, hs₂.map, hgap.map, map_toDigits]
      simp [Field.text, effortField, costField]
  | @costFirst front key s₁ gap key' s₂ rest hfront hkey hs₁ hgap hgapNe hkey' hs₂ hrest =>
    refine (hu.wordAfter_pair (costField hs₁ hc hne) (effortField hs₂ e) ?_ ?_ hsigma.2 hsigma.1 rfl
      (fun front => (not_suffix_append front).2) hfront.2 hfront.1 hgap hgapNe hrest).symm
    · simp only [List.forall_mem_append]
      exact ⟨⟨⟨⟨⟨⟨hkey.isPlain hascii.2, hs₁.isPlain⟩, hc.isPlain⟩, hgap.isPlain⟩,
        hkey'.isPlain hascii.1⟩, hs₂.isPlain⟩, (isDecimal_toDigits e).isPlain⟩
    · rw [Keyword.Writes] at hkey hkey'
      simp only [List.map_append, hkey, hkey', hs₁.map, hs₂.map, hgap.map, map_toDigits]
      simp [Field.text, effortField, costField]

/-- The parser reads its own format back from any text around it, reads nothing where a keyword is
missing, and reads no negative effort. -/
theorem parseEffortCost_reads (hu : unicode.Documented) :
    (∀ (e : Nat) (c text : List Char) (v : F64), e < 2 ^ 31 → IsDecimal c → parseF64 c = some v →
      StatesPair unicode e c text →
        ∃ r : I32, r.val = e ∧ parseEffortCost unicode text = some (r, v)) ∧
    (∀ text, ¬ effortKeyword.text <:+: unicode.toLowercase text ∨
      ¬ costKeyword.text <:+: unicode.toLowercase text → parseEffortCost unicode text = none) ∧
    ∀ text e c, parseEffortCost unicode text = some (e, c) → 0 ≤ e.val := by
  refine ⟨fun e c text v he hc hv h => ?_, fun text h => ?_, fun text e c h => ?_⟩
  · obtain ⟨heffort, hcost⟩ := h.words hu hc (ne_nil_of_parseF64 hv)
    refine ⟨⟨e, by omega⟩, rfl, parseEffortCost_eq_some_iff.mpr ⟨?_, ?_⟩⟩
    · rw [heffort, Option.bind_some, effortOf_toDigits hu, parseI32_toDigits he]
    · rw [hcost, Option.bind_some, parseF64_map_asciiLowercase, hv]
  · rw [Option.eq_none_iff_forall_ne_some]
    rintro ⟨e, c⟩ hsome
    obtain ⟨heffort, hcost⟩ := parseEffortCost_eq_some_iff.mp hsome
    rcases h with h | h
    · rw [wordAfter_eq_none h] at heffort
      cases heffort
    · rw [wordAfter_eq_none h] at hcost
      cases hcost
  · obtain ⟨word, -, hword⟩ := Option.bind_eq_some_iff.mp (parseEffortCost_eq_some_iff.mp h).1
    exact effortOf_nonneg hu hword

end reads

theorem documented_asciiUnicode : asciiUnicode.Documented where
  append a b := congrArg (List.map foldSigma) List.map_append
  ascii _ _ := rfl
  space _ hc := congrArg (fun d => [d]) (asciiLowercase_of_isWhitespace hc)
  digit _ hc := hc
  sign := by decide

theorem parseEffortCost_reads_done :
    ∃ r : I32, r.val = 12 ∧
      parseEffortCost asciiUnicode "Done. cost: 2.5E-1 EFFORT: 12\nbye".toList =
        some (r, .finite (1 / 4)) := by
  have hstates : StatesPair asciiUnicode 12 "2.5E-1".toList
      "Done. cost: 2.5E-1 EFFORT: 12\nbye".toList :=
    @StatesPair.costFirst asciiUnicode 12 "2.5E-1".toList "Done. ".toList "cost:".toList [' '] [' ']
      "EFFORT:".toList [' '] "\nbye".toList (by decide) (by decide) (by decide) (by decide) (by decide)
      (by decide) (by decide) (by decide)
  exact (parseEffortCost_reads documented_asciiUnicode).1 12 "2.5E-1".toList _ _ (by decide)
    (by decide) (by decide +kernel) hstates

end SamtaDashboard

import SamtaDashboard.Data.Text

/-!
# Numbers in texts

A natural number is read back from its decimal digits (`parseI32_toDigits`), a number without a minus
sign is not negative (`parseI32_nonneg`), and the letters of a number may be of either case
(`parseF64_map_asciiLowercase`).
-/

namespace SamtaDashboard

namespace Text

/-! ### Digits -/

theorem digit?_digitChar {d : Nat} (hd : d < 10) : digit? d.digitChar = some d := by
  revert d
  decide

theorem digits?_concat (cs : List Char) (c : Char) :
    digits? (cs ++ [c]) = (digits? cs).bind fun n => (digit? c).map (10 * n + ·) := by
  rw [digits?, List.foldl_append]
  rfl

theorem digits?_toDigits (n : Nat) : digits? (Nat.toDigits 10 n) = some n := by
  induction n using Nat.strong_induction_on with
  | _ n ih =>
    rw [Nat.toDigits_eq_if (by decide)]
    split
    · next hlt =>
      rw [← List.nil_append [n.digitChar], digits?_concat, digit?_digitChar hlt]
      simp [digits?]
    · next hge =>
      rw [digits?_concat, ih (n / 10) (by omega), digit?_digitChar (Nat.mod_lt n (by decide))]
      simp only [Option.bind_some, Option.map_some, Option.some.injEq]
      omega

theorem takeSign_of_isDigit {cs : List Char} (h : ∀ c ∈ cs, c.isDigit) :
    takeSign cs = (false, cs) := by
  unfold takeSign
  split
  · exact absurd (h '-' List.mem_cons_self) (by decide)
  · exact absurd (h '+' List.mem_cons_self) (by decide)
  · rfl

theorem isDigit_of_mem_toDigits {n : Nat} {c : Char} (h : c ∈ Nat.toDigits 10 n) : c.isDigit :=
  Nat.isDigit_of_mem_toDigits (by decide) (by decide) h

theorem parseInt_toDigits (n : Nat) : parseInt (Nat.toDigits 10 n) = some (n : Int) := by
  have hempty : (Nat.toDigits 10 n).isEmpty = false := by simp
  rw [parseInt, takeSign_of_isDigit fun c => isDigit_of_mem_toDigits]
  simp only [hempty, digits?_toDigits, Bool.false_eq_true, if_false]
  rfl

theorem parseI32_toDigits {n : Nat} (hn : n < 2 ^ 31) :
    parseI32 (Nat.toDigits 10 n) = some ⟨n, by omega⟩ := by
  rw [parseI32, parseInt_toDigits, Option.bind_some]
  exact dif_pos _

theorem parseI32_nonneg {cs : List Char} (h : cs.head? ≠ some '-') {e : I32}
    (he : parseI32 cs = some e) : 0 ≤ e.val := by
  obtain ⟨n, hn, hrange⟩ := Option.bind_eq_some_iff.mp he
  have hval : e.val = n := by
    unfold I32.ofInt? at hrange
    split at hrange
    · rw [← Option.some.inj hrange]
    · cases hrange
  have hsign : (takeSign cs).1 = false := by
    unfold takeSign
    split
    · exact absurd rfl h
    · rfl
    · rfl
  unfold parseInt at hn
  simp only [hsign, Bool.false_eq_true, if_false] at hn
  split at hn
  · cases hn
  · obtain ⟨k, hk, hkn⟩ := Option.map_eq_some_iff.mp hn
    obtain ⟨m, -, hm⟩ := Option.bind_eq_some_iff.mp hk
    rw [hval, ← hkn, ← Option.some.inj hm]
    exact Int.natCast_nonneg m

/-! ### Lower case -/

theorem forall_asciiLowercase {P : Char → Char → Prop}
    (hself : ∀ c, ¬ ('A' ≤ c ∧ c ≤ 'Z') → P c c)
    (hcapital : ∀ k < 26, P (Char.ofNat (65 + k)) (Char.ofNat (97 + k))) (c : Char) :
    P c (asciiLowercase c) := by
  unfold asciiLowercase
  split
  · next hc =>
    have hle : 65 ≤ c.toNat ∧ c.toNat ≤ 90 := hc
    have hpair := hcapital (c.toNat - 65) (by omega)
    rwa [show 65 + (c.toNat - 65) = c.toNat by omega,
      show 97 + (c.toNat - 65) = c.toNat + 32 by omega, Char.ofNat_toNat] at hpair
  · next hc => exact hself c hc

theorem asciiLowercase_idem (c : Char) : asciiLowercase (asciiLowercase c) = asciiLowercase c :=
  forall_asciiLowercase (P := fun _ d => asciiLowercase d = d) (fun _ hc => if_neg hc)
    (by decide) c

theorem digit?_asciiLowercase (c : Char) : digit? (asciiLowercase c) = digit? c :=
  forall_asciiLowercase (P := fun c d => digit? d = digit? c) (fun _ _ => rfl) (by decide) c

theorem asciiLowercase_eq_iff (c : Char) :
    ((asciiLowercase c = 'e' ∨ asciiLowercase c = 'E') ↔ (c = 'e' ∨ c = 'E')) ∧
      (asciiLowercase c = '.' ↔ c = '.') ∧ (asciiLowercase c = '-' ↔ c = '-') ∧
      (asciiLowercase c = '+' ↔ c = '+') :=
  forall_asciiLowercase (P := fun c d => ((d = 'e' ∨ d = 'E') ↔ (c = 'e' ∨ c = 'E')) ∧
    (d = '.' ↔ c = '.') ∧ (d = '-' ↔ c = '-') ∧ (d = '+' ↔ c = '+'))
    (fun _ _ => ⟨Iff.rfl, Iff.rfl, Iff.rfl, Iff.rfl⟩) (by decide) c

theorem digits?_map (cs : List Char) : digits? (cs.map asciiLowercase) = digits? cs := by
  rw [digits?, digits?, List.foldl_map]
  simp only [digit?_asciiLowercase]

theorem takeSign_map (cs : List Char) :
    takeSign (cs.map asciiLowercase) = ((takeSign cs).1, (takeSign cs).2.map asciiLowercase) := by
  cases cs with
  | nil => rfl
  | cons c cs =>
    obtain ⟨-, -, hminus, hplus⟩ := asciiLowercase_eq_iff c
    by_cases hc : c = '-'
    · subst hc
      rfl
    · by_cases hc' : c = '+'
      · subst hc'
        rfl
      · have hne : ∀ {d : Char} {ds : List Char}, d ≠ '-' → d ≠ '+' →
            takeSign (d :: ds) = (false, d :: ds) := by
          intro d ds hd hd'
          unfold takeSign
          split <;> simp_all
        rw [List.map_cons, hne (mt hminus.mp hc) (mt hplus.mp hc'), hne hc hc', List.map_cons]

theorem parseInt_map (cs : List Char) : parseInt (cs.map asciiLowercase) = parseInt cs := by
  rw [parseInt, parseInt, takeSign_map]
  simp only [List.isEmpty_map, digits?_map]

theorem parseDecimal_map (cs : List Char) :
    parseDecimal (cs.map asciiLowercase) = parseDecimal cs := by
  have hexponent : (fun c => !decide (c = 'e' ∨ c = 'E')) ∘ asciiLowercase =
      fun c => !decide (c = 'e' ∨ c = 'E') :=
    funext fun c => by simp only [Function.comp_apply, decide_eq_decide.mpr (asciiLowercase_eq_iff c).1]
  have hpoint : (fun c => decide (c ≠ '.')) ∘ asciiLowercase = fun c => decide (c ≠ '.') :=
    funext fun c => by
      simp only [Function.comp_apply, ne_eq, (asciiLowercase_eq_iff c).2.1]
  unfold parseDecimal
  simp only [List.takeWhile_map, List.dropWhile_map, hexponent, hpoint, List.isEmpty_map,
    ← List.map_tail, ← List.map_append, digits?_map, List.length_map]
  generalize List.dropWhile (fun c => !decide (c = 'e' ∨ c = 'E')) cs = rest
  cases rest with
  | nil => rfl
  | cons c exponent => simp only [List.map_cons, parseInt_map]

theorem parseF64_map_asciiLowercase (cs : List Char) :
    parseF64 (cs.map asciiLowercase) = parseF64 cs := by
  have hidem : asciiLowercase ∘ asciiLowercase = asciiLowercase := funext asciiLowercase_idem
  rw [parseF64, parseF64, takeSign_map]
  simp only [List.map_map, hidem, parseDecimal_map]

end Text

end SamtaDashboard

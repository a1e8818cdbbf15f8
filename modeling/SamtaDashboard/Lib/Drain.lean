import SamtaDashboard.Lib.Transition

/-!
# Runs that use up a rank

`Drains sys guard gain s n s'`: a guarded run from `s` to `s'` whose steps gain `n` together. What a step
keeps, with the gain so far as a parameter, holds at the end (`Drains.counted`). If every step from a
state that is not done leads to one that is, or pays for its gain out of a rank, the gains of a run before
it is done are bounded by the rank that it starts with (`Drains.spent`), and a run that gains that much is
done (`Drains.done`).
-/

namespace Transition

universe u v

variable {S : Type u} {L : Type v} {sys : System S L} {guard : S → L → Prop} {gain : S → L → Nat}

/-- A guarded run from `s` with the sum of what its steps gain. -/
inductive Drains (sys : System S L) (guard : S → L → Prop) (gain : S → L → Nat) (s : S) : Nat → S → Prop
  | refl : Drains sys guard gain s 0 s
  | step {n : Nat} {s' s'' : S} (l : L) : Drains sys guard gain s n s' → sys.step s' l s'' →
      guard s' l → Drains sys guard gain s (n + gain s' l) s''

namespace Drains

variable {s s' : S} {n : Nat}

theorem simulate {S' : Type u} {L' : Type v} {sys' : System S' L'} {guard' : S' → L' → Prop}
    {gain' : S' → L' → Nat} (f : S → S') (g : L → L')
    (hstep : ∀ s l s', sys.step s l s' → sys'.step (f s) (g l) (f s'))
    (hguard : ∀ s l, guard s l → guard' (f s) (g l)) (hgain : ∀ s l, gain' (f s) (g l) = gain s l)
    (h : Drains sys guard gain s n s') : Drains sys' guard' gain' (f s) n (f s') := by
  induction h with
  | refl => exact .refl
  | step l _ hs hl ih =>
    rw [← hgain]
    exact .step (g l) ih (hstep _ l _ hs) (hguard _ l hl)

/-- What holds at the beginning and is kept by every guarded step, with the gain up to there, holds at the
end. -/
theorem counted {I : Nat → S → Prop} (h : Drains sys guard gain s n s') (hs : I 0 s)
    (hstep : ∀ n s l s', I n s → sys.step s l s' → guard s l → I (n + gain s l) s') : I n s' := by
  induction h with
  | refl => exact hs
  | step l _ hs' hguard ih => exact hstep _ _ l _ ih hs' hguard

theorem invariant {I : S → Prop} (h : Drains sys guard gain s n s') (hs : I s)
    (hstep : ∀ s l s', I s → sys.step s l s' → guard s l → I s') : I s' :=
  h.counted (I := fun _ => I) hs fun _ => hstep

theorem spent (K Done : S → Prop) (rank : S → Nat) (h : Drains sys guard gain s n s') (hs : K s)
    (hkeeps : ∀ s l s', K s → sys.step s l s' → guard s l → K s')
    (hdone : ∀ s l s', K s → Done s → sys.step s l s' → guard s l → Done s')
    (hfalls : ∀ s l s', K s → ¬ Done s → sys.step s l s' → guard s l →
      Done s' ∨ rank s' + gain s l ≤ rank s) :
    K s' ∧ (Done s' ∨ rank s' + n ≤ rank s) := by
  refine h.counted (I := fun n s' => K s' ∧ (Done s' ∨ rank s' + n ≤ rank s))
    ⟨hs, Or.inr (Nat.le_refl _)⟩ fun n s' l s'' hs' hstep hguard => ?_
  obtain ⟨hK, hpaid⟩ := hs'
  refine ⟨hkeeps _ l _ hK hstep hguard, ?_⟩
  by_cases hopen : Done s'
  · exact Or.inl (hdone _ l _ hK hopen hstep hguard)
  · have hrank := hpaid.resolve_left hopen
    rcases hfalls _ l _ hK hopen hstep hguard with hend | hfall
    · exact Or.inl hend
    · right
      omega

/-- If a state that is not done has a rank above zero, a run that gains the first rank is done. -/
theorem done (K Done : S → Prop) (rank : S → Nat) (h : Drains sys guard gain s n s') (hs : K s)
    (hkeeps : ∀ s l s', K s → sys.step s l s' → guard s l → K s')
    (hdone : ∀ s l s', K s → Done s → sys.step s l s' → guard s l → Done s')
    (hfalls : ∀ s l s', K s → ¬ Done s → sys.step s l s' → guard s l →
      Done s' ∨ rank s' + gain s l ≤ rank s)
    (hpos : ∀ s, K s → ¬ Done s → 0 < rank s) (hn : rank s ≤ n) : Done s' := by
  obtain ⟨hK, hspent⟩ := h.spent K Done rank hs hkeeps hdone hfalls
  by_cases hdone' : Done s'
  · exact hdone'
  · have hpaid := hspent.resolve_left hdone'
    have hrank := hpos s' hK hdone'
    omega

end Drains

end Transition

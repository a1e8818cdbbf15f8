/-!
# Guarded runs of a labelled transition system

`Reach sys guard s`: some run from an initial state to `s` takes only steps that the guard allows in
the state they are taken in. With the guard that allows everything these are the reachable states.
A property of all these states is proved with `Reach.invariant`, or with `Reach.invariant_of` when
the proof of a step needs another property of the reached states. `Reach.of_necessary` finds the
guard in the states that a run has led to, and `Reach.iff_of_exact` turns a guard that is exactly what
the steps need into a property of the states, among the runs under a first guard if there is one.
-/

namespace Transition

universe u v

/-- A labelled transition system. -/
structure System (S : Type u) (L : Type v) where
  init : S → Prop
  step : S → L → S → Prop

/-- The same system, started in state `s`. -/
def System.startingAt {S : Type u} {L : Type v} (sys : System S L) (s : S) : System S L where
  init := (· = s)
  step := sys.step

variable {S : Type u} {L : Type v} {sys : System S L} {guard guard' : S → L → Prop}

/-- The states at the end of a run all of whose steps satisfy the guard. -/
inductive Reach (sys : System S L) (guard : S → L → Prop) : S → Prop
  | init {s : S} : sys.init s → Reach sys guard s
  | step {s s' : S} (l : L) : Reach sys guard s → sys.step s l s' → guard s l → Reach sys guard s'

abbrev Reachable (sys : System S L) : S → Prop := Reach sys fun _ _ => True

namespace Reach

theorem mono {s : S} (h : Reach sys guard s) (himp : ∀ s l, guard s l → guard' s l) :
    Reach sys guard' s := by
  induction h with
  | init hinit => exact .init hinit
  | step l _ hstep hguard ih => exact .step l ih hstep (himp _ l hguard)

theorem reachable {s : S} (h : Reach sys guard s) : Reachable sys s := h.mono fun _ _ _ => trivial

theorem trans {s s' : S} (h : Reach sys guard s) (h' : Reach (sys.startingAt s) guard s') :
    Reach sys guard s' := by
  induction h' with
  | init hinit => exact hinit ▸ h
  | step l _ hstep hguard ih => exact .step l ih hstep hguard

theorem simulate {S' : Type u} {L' : Type v} {sys' : System S' L'} {guard' : S' → L' → Prop} (f : S → S')
    (g : L → L') (hinit : ∀ s, sys.init s → sys'.init (f s))
    (hstep : ∀ s l s', sys.step s l s' → sys'.step (f s) (g l) (f s'))
    (hguard : ∀ s l, guard s l → guard' (f s) (g l)) {s : S} (h : Reach sys guard s) :
    Reach sys' guard' (f s) := by
  induction h with
  | init hs => exact .init (hinit _ hs)
  | step l _ hs hl ih => exact .step (g l) ih (hstep _ l _ hs) (hguard _ l hl)

theorem foldlM_guarded {play : S → L → Option S}
    (hplay : ∀ s l s', play s l = some s' → sys.step s l s' ∧ guard s l) {ls : List L} {s s' : S}
    (h : Reach sys guard s) (hls : ls.foldlM play s = some s') : Reach sys guard s' := by
  induction ls generalizing s with
  | nil =>
    obtain rfl := Option.some.inj hls
    exact h
  | cons l ls ih =>
    rw [List.foldlM_cons, Option.bind_eq_bind, Option.bind_eq_some_iff] at hls
    obtain ⟨next, hnext, hrest⟩ := hls
    obtain ⟨hstep, hguard⟩ := hplay s l next hnext
    exact ih (.step l h hstep hguard) hrest

theorem foldlM {play : S → L → Option S} (hplay : ∀ s l s', play s l = some s' → sys.step s l s')
    {ls : List L} {s s' : S} (h : Reachable sys s) (hls : ls.foldlM play s = some s') :
    Reachable sys s' :=
  h.foldlM_guarded (fun s l s' hl => ⟨hplay s l s' hl, trivial⟩) hls

theorem invariant {I : S → Prop} {s : S} (h : Reach sys guard s)
    (hinit : ∀ s, sys.init s → I s)
    (hstep : ∀ s l s', I s → sys.step s l s' → guard s l → I s') : I s := by
  induction h with
  | init hs => exact hinit _ hs
  | step l _ hs hguard ih => exact hstep _ l _ ih hs hguard

theorem invariant_of {K I : S → Prop} {s : S} (h : Reach sys guard s)
    (hknown : ∀ s, Reach sys guard s → K s) (hinit : ∀ s, sys.init s → I s)
    (hstep : ∀ s l s', K s → I s → sys.step s l s' → guard s l → I s') : I s := by
  induction h with
  | init hs => exact hinit _ hs
  | step l hreach hs hguard ih => exact hstep _ l _ (hknown _ hreach) ih hs hguard

/-- A state is reached under the guard if it has a property that only steps under the guard lead to
and that the states before them have as well. -/
theorem of_necessary {I : S → Prop} {s : S} (h : Reachable sys s) (hI : I s)
    (hstep : ∀ s l s', Reachable sys s → sys.step s l s' → I s' → I s ∧ guard s l) :
    Reach sys guard s := by
  induction h with
  | init hs => exact .init hs
  | step l hreach hs _ ih =>
    obtain ⟨hI, hguard⟩ := hstep _ l _ hreach hs hI
    exact .step l (ih hI) hs hguard

theorem imp {s : S} (h : Reach sys guard s)
    (himp : ∀ s l s', Reach sys guard s → sys.step s l s' → guard s l → guard' s l) :
    Reach sys guard' s := by
  induction h with
  | init hs => exact .init hs
  | step l hreach hs hguard ih => exact .step l ih hs (himp _ l _ hreach hs hguard)

/-- Among the runs under one guard, a property that a step keeps exactly if it is taken under a second
guard holds in the end of exactly those runs that are under both. -/
theorem iff_of_exact_within {I : S → Prop} (hinit : ∀ s, sys.init s → I s)
    (hstep : ∀ s l s', Reach sys guard s → sys.step s l s' → guard s l →
      (I s' ↔ I s ∧ guard' s l)) {s : S} :
    Reach sys (fun s l => guard s l ∧ guard' s l) s ↔ Reach sys guard s ∧ I s := by
  have hleft : ∀ s, Reach sys (fun s l => guard s l ∧ guard' s l) s → Reach sys guard s :=
    fun s h => h.mono fun _ _ => And.left
  constructor
  · intro h
    refine ⟨hleft s h, h.invariant_of (K := Reach sys guard) hleft hinit ?_⟩
    exact fun s l s' hreach hI hs hguard => (hstep s l s' hreach hs hguard.1).mpr ⟨hI, hguard.2⟩
  · rintro ⟨h, hI⟩
    induction h with
    | init hs => exact .init hs
    | step l hreach hs hguard ih =>
      obtain ⟨hI, hguard'⟩ := (hstep _ l _ hreach hs hguard).mp hI
      exact .step l (ih hI) hs ⟨hguard, hguard'⟩

/-- A property that a step keeps exactly if it is taken under the guard holds of exactly those
reachable states that are reached under the guard. -/
theorem iff_of_exact {I : S → Prop} (hinit : ∀ s, sys.init s → I s)
    (hstep : ∀ s l s', Reachable sys s → sys.step s l s' → (I s' ↔ I s ∧ guard s l)) {s : S} :
    Reach sys guard s ↔ Reachable sys s ∧ I s := by
  have h : Reach sys (fun s l => True ∧ guard s l) s ↔ Reachable sys s ∧ I s :=
    iff_of_exact_within hinit fun s l s' hreach hs _ => hstep s l s' hreach hs
  simpa only [true_and] using h

end Reach

end Transition

import SamtaDashboard.Lib.Transition

/-!
# Reading a system that goes on

A reader takes several looks at a running system, and between two looks the system makes any number of
steps (`Watches`). What only grows along the steps grows from look to look (`Watches.mono`).
-/

namespace Transition

universe u v

variable {S : Type u} {L : Type v} {sys : System S L} {seen : Nat → S}

/-- The states that a reader sees, one after the other. -/
structure Watches (sys : System S L) (seen : Nat → S) : Prop where
  first : Reachable sys (seen 0)
  next : ∀ k, Reachable (sys.startingAt (seen k)) (seen (k + 1))

namespace Watches

theorem reachable (h : Watches sys seen) (k : Nat) : Reachable sys (seen k) := by
  induction k with
  | zero => exact h.first
  | succ k ih => exact ih.trans (h.next k)

theorem later (h : Watches sys seen) {j k : Nat} (hle : j ≤ k) :
    Reachable (sys.startingAt (seen j)) (seen k) := by
  induction hle with
  | refl => exact .init rfl
  | @step k _ ih => exact ih.trans (h.next k)

theorem select (h : Watches sys seen) {times : Nat → Nat} (hmono : ∀ k, times k ≤ times (k + 1)) :
    Watches sys fun k => seen (times k) :=
  ⟨h.reachable (times 0), fun k => h.later (hmono k)⟩

/-- What is carried along by every step from a reachable state is carried along from an earlier look
to a later one. -/
theorem mono {R : S → S → Prop} (h : Watches sys seen) (hrefl : ∀ s, R s s)
    (htrans : ∀ s s' s'', R s s' → R s' s'' → R s s'')
    (hstep : ∀ s l s', Reachable sys s → sys.step s l s' → R s s') {j k : Nat} (hle : j ≤ k) :
    R (seen j) (seen k) := by
  have hnext : ∀ i, R (seen i) (seen (i + 1)) := by
    intro i
    have hlook : Reachable sys (seen (i + 1)) ∧ R (seen i) (seen (i + 1)) := by
      refine (h.next i).invariant (I := fun s => Reachable sys s ∧ R (seen i) s) ?_ ?_
      · rintro s rfl
        exact ⟨h.reachable i, hrefl _⟩
      · intro s l s' hs hstep' _
        exact ⟨.step l hs.1 hstep' trivial, htrans _ _ _ hs.2 (hstep s l s' hs.1 hstep')⟩
    exact hlook.2
  induction hle with
  | refl => exact hrefl _
  | step _ ih => exact htrans _ _ _ ih (hnext _)

theorem of_play {play : S → L → Option S} (hplay : ∀ s l s', play s l = some s' → sys.step s l s')
    {s : S} (hs : sys.init s) {ls : List L} (hls : (ls.foldlM play s).isSome) {upTo : Nat → Nat}
    (hupTo : ∀ k, upTo k ≤ upTo (k + 1)) : Watches sys fun k => ((ls.take (upTo k)).foldlM play s).getD s := by
  have hplayed : ∀ n, ∃ s', (ls.take n).foldlM play s = some s' := by
    intro n
    obtain ⟨final, hfinal⟩ := Option.isSome_iff_exists.mp hls
    rw [← List.take_append_drop n ls, List.foldlM_append, Option.bind_eq_bind,
      Option.bind_eq_some_iff] at hfinal
    obtain ⟨s', hs', -⟩ := hfinal
    exact ⟨s', hs'⟩
  have hinit : Reachable sys s := .init hs
  refine ⟨?_, fun k => ?_⟩
  · obtain ⟨first, hfirst⟩ := hplayed (upTo 0)
    show Reachable _ (Option.getD _ _)
    rw [hfirst, Option.getD_some]
    exact hinit.foldlM hplay hfirst
  · obtain ⟨now, hnow⟩ := hplayed (upTo k)
    obtain ⟨later, hlater⟩ := hplayed (upTo (k + 1))
    show Reachable (sys.startingAt (Option.getD _ _)) (Option.getD _ _)
    rw [hnow, hlater, Option.getD_some, Option.getD_some]
    rw [← Nat.add_sub_of_le (hupTo k), List.take_add, List.foldlM_append, hnow] at hlater
    have hstart : Reachable (sys.startingAt now) now := .init rfl
    have hplay' : ∀ s l s', play s l = some s' → (sys.startingAt now).step s l s' := hplay
    exact hstart.foldlM hplay' hlater

end Watches

end Transition

import Mathlib.Data.List.AList

/-!
# Folding a list of events

Facts about `List.foldl` over events, for any event type.

* `lastWrite w evs`: the last value written along `evs`, where `w e` is what the event `e` writes.
  A field of the state that every event either overwrites or keeps is a last write
  (`foldl_register`); one that every event either adds to or keeps is a fold over the amounts
  (`foldl_total`).
* `applyAt key upd`: a fold into a map in which an event only touches the entry at its key. The
  entry at `k` is then the fold over the events with key `k` alone (`lookup_foldl_applyAt`).
-/

namespace EventFold

variable {E V S : Type}

/-! ### Registers -/

/-- The last value that `w` writes along `evs`. -/
def lastWrite (w : E → Option V) (evs : List E) : Option V := (evs.filterMap w).getLast?

@[simp] theorem lastWrite_nil (w : E → Option V) : lastWrite w [] = none := rfl

theorem lastWrite_append (w : E → Option V) (a b : List E) :
    lastWrite w (a ++ b) = (lastWrite w b).or (lastWrite w a) := by
  simp only [lastWrite, List.filterMap_append, List.getLast?_append]

@[simp] theorem lastWrite_singleton (w : E → Option V) (e : E) : lastWrite w [e] = w e := by
  cases h : w e <;> simp [lastWrite, h]

theorem lastWrite_cons (w : E → Option V) (e : E) (evs : List E) :
    lastWrite w (e :: evs) = (lastWrite w evs).or (w e) := by
  rw [← List.singleton_append, lastWrite_append, lastWrite_singleton]

theorem lastWrite_eq_none {w : E → Option V} {evs : List E} :
    lastWrite w evs = none ↔ ∀ e ∈ evs, w e = none := by
  simp [lastWrite]

theorem lastWrite_of_none {w : E → Option V} {evs : List E} (h : ∀ e ∈ evs, w e = none) :
    lastWrite w evs = none :=
  lastWrite_eq_none.mpr h

theorem lastWrite_eq_some {w : E → Option V} {evs : List E} {v : V} :
    lastWrite w evs = some v ↔
      ∃ pre e post, evs = pre ++ e :: post ∧ w e = some v ∧ ∀ x ∈ post, w x = none := by
  constructor
  · intro h
    induction evs with
    | nil => simp at h
    | cons e evs ih =>
      rw [lastWrite_cons] at h
      cases htail : lastWrite w evs with
      | some u =>
        rw [htail, Option.some_or] at h
        obtain ⟨pre, x, post, rfl, hx, hpost⟩ := ih (htail.trans h)
        exact ⟨e :: pre, x, post, rfl, hx, hpost⟩
      | none =>
        rw [htail, Option.none_or] at h
        exact ⟨[], e, evs, rfl, h, lastWrite_eq_none.mp htail⟩
  · rintro ⟨pre, e, post, rfl, he, hpost⟩
    rw [lastWrite_append, lastWrite_cons, lastWrite_of_none hpost, Option.none_or, he,
      Option.some_or]

theorem lastWrite_mem {w : E → Option V} {evs : List E} {v : V} (h : lastWrite w evs = some v) :
    ∃ e ∈ evs, w e = some v := by
  obtain ⟨pre, e, post, rfl, he, -⟩ := lastWrite_eq_some.mp h
  exact ⟨e, by simp, he⟩

theorem lastWrite_eq_of_forall {w : E → Option V} {evs : List E} {v : V}
    (hsome : ∃ e ∈ evs, w e ≠ none) (hall : ∀ e ∈ evs, ∀ v', w e = some v' → v' = v) :
    lastWrite w evs = some v := by
  obtain ⟨e, he, hwrites⟩ := hsome
  obtain ⟨v', hlast⟩ := Option.ne_none_iff_exists'.mp fun hnone =>
    hwrites (lastWrite_eq_none.mp hnone e he)
  obtain ⟨x, hx, hwrite⟩ := lastWrite_mem hlast
  rw [hlast, hall x hx v' hwrite]

theorem lastWrite_filter {w : E → Option V} {p : E → Bool} {evs : List E}
    (h : ∀ e ∈ evs, w e ≠ none → p e = true) : lastWrite w (evs.filter p) = lastWrite w evs := by
  induction evs with
  | nil => rfl
  | cons e evs ih =>
    have htail := ih fun x hx => h x (List.mem_cons_of_mem _ hx)
    rw [lastWrite_cons w e evs]
    cases hp : p e with
    | true => rw [List.filter_cons_of_pos hp, lastWrite_cons, htail]
    | false =>
      have hnone : w e = none := by
        by_contra hne
        simp [h e List.mem_cons_self hne] at hp
      rw [List.filter_cons_of_neg (by simp [hp]), htail, hnone, Option.or_none]

theorem lastWrite_congr {w w' : E → Option V} {evs : List E} (h : ∀ e ∈ evs, w e = w' e) :
    lastWrite w evs = lastWrite w' evs := by
  rw [lastWrite, lastWrite, List.filterMap_congr h]

theorem lastWrite_map {W : Type} (w : E → Option V) (f : V → W) (evs : List E) :
    lastWrite (fun e => (w e).map f) evs = (lastWrite w evs).map f := by
  rw [lastWrite, lastWrite, ← List.map_filterMap, List.getLast?_map]

theorem lastWrite_comap {F : Type} (w : F → Option V) (f : E → F) (evs : List E) :
    lastWrite (fun e => w (f e)) evs = lastWrite w (evs.map f) := by
  rw [lastWrite, lastWrite, List.filterMap_map]
  rfl

/-- A field that every event either overwrites or keeps holds the last write. -/
theorem foldl_register {f : S → E → S} {g : S → V} {w : E → Option V}
    (hstep : ∀ s e, g (f s e) = (w e).getD (g s)) (s : S) (evs : List E) :
    g (evs.foldl f s) = (lastWrite w evs).getD (g s) := by
  induction evs generalizing s with
  | nil => rfl
  | cons e evs ih =>
    rw [List.foldl_cons, ih, hstep, lastWrite_cons]
    cases lastWrite w evs <;> simp

/-- A field that every event either adds an amount to or keeps holds the running total. -/
theorem foldl_total {f : S → E → S} {g : S → V} {A : Type} {a : E → Option A} {c : V → A → V}
    {evs : List E} (hstep : ∀ e ∈ evs, ∀ s, g (f s e) = (a e).elim (g s) (c (g s))) (s : S) :
    g (evs.foldl f s) = (evs.filterMap a).foldl c (g s) := by
  induction evs generalizing s with
  | nil => rfl
  | cons e evs ih =>
    rw [List.foldl_cons, ih fun x hx => hstep x (List.mem_cons_of_mem _ hx),
      hstep e List.mem_cons_self]
    cases h : a e <;> simp [h]

/-! ### Maps -/

section Keyed

variable {K : Type} [DecidableEq K] (key : E → Option K) (upd : E → Option V → V)

/-- One event of a fold into a map: the entry at the event's key becomes `upd e` of the old one. -/
def applyAt (m : AList fun _ : K => V) (e : E) : AList fun _ : K => V :=
  match key e with
  | none => m
  | some k => m.insert k (upd e (m.lookup k))

/-- What one event does to the entry at `k`. -/
def stepAt (k : K) (entry : Option V) (e : E) : Option V :=
  if key e = some k then some (upd e entry) else entry

theorem lookup_applyAt (m : AList fun _ : K => V) (e : E) (k : K) :
    (applyAt key upd m e).lookup k = stepAt key upd k (m.lookup k) e := by
  unfold applyAt stepAt
  cases h : key e with
  | none => simp
  | some k' =>
    by_cases hk : k' = k
    · subst hk
      simp
    · rw [if_neg (by simpa using hk)]
      exact AList.lookup_insert_ne (Ne.symm hk)

theorem lookup_foldl_applyAt (m : AList fun _ : K => V) (evs : List E) (k : K) :
    (evs.foldl (applyAt key upd) m).lookup k = evs.foldl (stepAt key upd k) (m.lookup k) := by
  induction evs generalizing m with
  | nil => rfl
  | cons e evs ih => rw [List.foldl_cons, List.foldl_cons, ih, lookup_applyAt]

theorem foldl_stepAt_filter (k : K) (entry : Option V) (evs : List E) :
    evs.foldl (stepAt key upd k) entry =
      (evs.filter (key · = some k)).foldl (fun entry e => some (upd e entry)) entry := by
  induction evs generalizing entry with
  | nil => rfl
  | cons e evs ih =>
    rw [List.foldl_cons, ih]
    by_cases h : key e = some k
    · simp [stepAt, h]
    · simp [stepAt, h]

theorem lookup_foldl_filter (m : AList fun _ : K => V) (evs : List E) (k : K) :
    (evs.foldl (applyAt key upd) m).lookup k =
      (evs.filter (key · = some k)).foldl (fun entry e => some (upd e entry)) (m.lookup k) := by
  rw [lookup_foldl_applyAt, foldl_stepAt_filter]

end Keyed

end EventFold

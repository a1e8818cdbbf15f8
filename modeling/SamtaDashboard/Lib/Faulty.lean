import Mathlib.Data.List.Basic

/-!
# Programs of storage operations that may fail

A `Program` issues one operation after the other on a storage of type `S`. Each operation is atomic by
itself: it is done, or it fails before it has an effect, or it takes effect and its reply is lost. To
the program the last two are the same failure, and a program without a handler for it ends there.

`Keeps` is the frame rule of such programs and `Succeeds` says that a run ends with a value. A sequence
of writes leaves what those of them leave that took effect (`writeAll_of_fault`).
-/

namespace Faulty

/-- How one operation goes; `D` are the errors of the storage. -/
inductive Fault (D : Type) where
  | none
  /-- the operation fails and has no effect -/
  | before (error : D)
  /-- the operation takes effect and its reply is lost -/
  | after (error : D)

/-- The end of a run; `next` is the number of the next operation. -/
structure Ran (S E α : Type) where
  result : Except E α
  storage : S
  next : Nat

/-- `p.run faults n s` is the run of `p` on storage `s`, in which the operations from number `n` on go
as `faults` says. -/
@[ext] structure Program (S D E α : Type) where
  run : (Nat → Fault D) → Nat → S → Ran S E α

variable {S D E E' α β : Type}

namespace Program

instance : Monad (Program S D E) where
  pure a := ⟨fun _ n s => ⟨.ok a, s, n⟩⟩
  bind p q := ⟨fun faults n s =>
    match p.run faults n s with
    | ⟨.ok a, s', n'⟩ => (q a).run faults n' s'
    | ⟨.error error, s', n'⟩ => ⟨.error error, s', n'⟩⟩

/-- An end with an error. -/
def fail (error : E) : Program S D E α := ⟨fun _ n s => ⟨.error error, s, n⟩⟩

/-- The errors of a part of a program in the form of the whole program. -/
def mapError (f : E → E') (p : Program S D E α) : Program S D E' α := ⟨fun faults n s =>
  let ran := p.run faults n s
  ⟨ran.result.mapError f, ran.storage, ran.next⟩⟩

/-- An operation that does `f`, also in the case that `f` itself fails without an effect. -/
def operation (onError : D → E) (f : S → Except E (α × S)) : Program S D E α := ⟨fun faults n s =>
  match faults n, f s with
  | .none, .ok (a, s') => ⟨.ok a, s', n + 1⟩
  | .none, .error error => ⟨.error error, s, n + 1⟩
  | .before error, _ => ⟨.error (onError error), s, n + 1⟩
  | .after error, .ok (_, s') => ⟨.error (onError error), s', n + 1⟩
  | .after error, .error _ => ⟨.error (onError error), s, n + 1⟩⟩

/-- An operation without an effect. -/
def read (onError : D → E) (f : S → Except E α) : Program S D E α :=
  operation onError fun s => (f s).map fun a => (a, s)

/-- An operation that cannot fail by itself. -/
def write (onError : D → E) (f : S → S) : Program S D E Unit :=
  operation onError fun s => .ok ((), f s)

/-! ### Running -/

section run

variable {faults : Nat → Fault D} {n n' : Nat} {s s' : S}

@[simp] theorem pure_run (a : α) :
    (pure a : Program S D E α).run faults n s = ⟨.ok a, s, n⟩ := rfl

theorem bind_of_ok {p : Program S D E α} {q : α → Program S D E β} {a : α}
    (h : p.run faults n s = ⟨.ok a, s', n'⟩) : (p >>= q).run faults n s = (q a).run faults n' s' := by
  show (match p.run faults n s with | ⟨.ok a, s', n'⟩ => _ | ⟨.error error, s', n'⟩ => _) = _
  rw [h]

theorem bind_of_error {p : Program S D E α} {q : α → Program S D E β} {error : E}
    (h : p.run faults n s = ⟨.error error, s', n'⟩) :
    (p >>= q).run faults n s = ⟨.error error, s', n'⟩ := by
  show (match p.run faults n s with | ⟨.ok a, s', n'⟩ => _ | ⟨.error error, s', n'⟩ => _) = _
  rw [h]

theorem mapError_of_ok {p : Program S D E α} {f : E → E'} {a : α}
    (h : p.run faults n s = ⟨.ok a, s', n'⟩) : (p.mapError f).run faults n s = ⟨.ok a, s', n'⟩ := by
  simp only [mapError, h]
  rfl

theorem mapError_of_error {p : Program S D E α} {f : E → E'} {error : E}
    (h : p.run faults n s = ⟨.error error, s', n'⟩) :
    (p.mapError f).run faults n s = ⟨.error (f error), s', n'⟩ := by
  simp only [mapError, h]
  rfl

section operation

variable {onError : D → E} {f : S → Except E (α × S)} {a : α} {error : D}

theorem operation_of_ok (hfault : faults n = .none) (h : f s = .ok (a, s')) :
    (operation onError f).run faults n s = ⟨.ok a, s', n + 1⟩ := by
  simp only [operation, hfault, h]

theorem operation_of_error {error : E} (hfault : faults n = .none) (h : f s = .error error) :
    (operation onError f).run faults n s = ⟨.error error, s, n + 1⟩ := by
  simp only [operation, hfault, h]

theorem operation_of_before (hfault : faults n = .before error) :
    (operation onError f).run faults n s = ⟨.error (onError error), s, n + 1⟩ := by
  simp only [operation, hfault]

theorem operation_of_after (hfault : faults n = .after error) (h : f s = .ok (a, s')) :
    (operation onError f).run faults n s = ⟨.error (onError error), s', n + 1⟩ := by
  simp only [operation, hfault, h]

theorem operation_of_failing {error : E} (h : f s = .error error) :
    ∃ error', (operation onError f).run faults n s = ⟨.error error', s, n + 1⟩ := by
  simp only [operation, h]
  cases faults n with
  | none | before error | after error => exact ⟨_, rfl⟩

end operation

section read

variable {onError : D → E} {f : S → Except E α}

theorem read_of_ok {a : α} (hfault : faults n = .none) (h : f s = .ok a) :
    (read onError f).run faults n s = ⟨.ok a, s, n + 1⟩ :=
  operation_of_ok hfault (by rw [h]; rfl)

theorem read_of_error {error : E} (hfault : faults n = .none) (h : f s = .error error) :
    (read onError f).run faults n s = ⟨.error error, s, n + 1⟩ :=
  operation_of_error hfault (by rw [h]; rfl)

theorem read_of_fault (hfault : faults n ≠ .none) :
    ∃ error, (read onError f).run faults n s = ⟨.error error, s, n + 1⟩ := by
  simp only [read, operation]
  cases h : faults n with
  | none => exact absurd h hfault
  | before error => exact ⟨_, rfl⟩
  | after error => cases f s <;> exact ⟨_, rfl⟩

end read

section write

variable {onError : D → E} {f : S → S} {error : D}

theorem write_of_none (h : faults n = .none) :
    (write onError f).run faults n s = ⟨.ok (), f s, n + 1⟩ := operation_of_ok h rfl

theorem write_of_before (h : faults n = .before error) :
    (write onError f).run faults n s = ⟨.error (onError error), s, n + 1⟩ := operation_of_before h

theorem write_of_after (h : faults n = .after error) :
    (write onError f).run faults n s = ⟨.error (onError error), f s, n + 1⟩ :=
  operation_of_after h rfl

end write

end run

instance : LawfulMonad (Program S D E) := LawfulMonad.mk' _
  (fun p => by
    ext faults n s
    rcases h : p.run faults n s with ⟨error | a, s', n'⟩
    · exact bind_of_error h
    · exact bind_of_ok h)
  (fun _ _ => rfl)
  (fun p q r => by
    ext faults n s
    rcases h : p.run faults n s with ⟨error | a, s', n'⟩
    · rw [bind_of_error h, bind_of_error (bind_of_error h)]
    · rw [bind_of_ok h]
      rcases h' : (q a).run faults n' s' with ⟨error | b, s'', n''⟩
      · rw [bind_of_error h', bind_of_error ((bind_of_ok h).trans h')]
      · rw [bind_of_ok h', bind_of_ok ((bind_of_ok h).trans h')])

/-! ### Runs without a fault -/

section returns

variable {s s' s'' : S} {result : Except E α}

/-- If nothing fails, the program ends with this result and leaves this storage. -/
def Returns (p : Program S D E α) (s : S) (result : Except E α) (s' : S) : Prop :=
  ∀ n, ∃ next, p.run (fun _ => .none) n s = ⟨result, s', next⟩

theorem returns_pure (a : α) : Returns (pure a : Program S D E α) s (.ok a) s := fun n => ⟨n, rfl⟩

theorem returns_fail (error : E) : Returns (fail error : Program S D E α) s (.error error) s :=
  fun n => ⟨n, rfl⟩

theorem returns_operation_of_ok {onError : D → E} {f : S → Except E (α × S)} {a : α}
    (h : f s = .ok (a, s')) : Returns (operation onError f) s (.ok a) s' :=
  fun n => ⟨n + 1, operation_of_ok rfl h⟩

theorem returns_operation_of_error {onError : D → E} {f : S → Except E (α × S)} {error : E}
    (h : f s = .error error) : Returns (operation onError f) s (.error error) s :=
  fun n => ⟨n + 1, operation_of_error rfl h⟩

theorem returns_read (onError : D → E) (f : S → Except E α) (s : S) :
    Returns (read onError f) s (f s) s := by
  intro n
  cases h : f s with
  | error error => exact ⟨n + 1, read_of_error rfl h⟩
  | ok a => exact ⟨n + 1, read_of_ok rfl h⟩

theorem returns_write (onError : D → E) (f : S → S) (s : S) :
    Returns (write onError f) s (.ok ()) (f s) := fun n => ⟨n + 1, write_of_none rfl⟩

theorem Returns.bind {p : Program S D E β} {q : β → Program S D E α} {b : β}
    (hp : Returns p s (.ok b) s') (hq : Returns (q b) s' result s'') :
    Returns (p >>= q) s result s'' := by
  intro n
  obtain ⟨next, hrun⟩ := hp n
  rw [bind_of_ok hrun]
  exact hq next

theorem Returns.bind_error {p : Program S D E β} {q : β → Program S D E α} {error : E}
    (hp : Returns p s (.error error) s') : Returns (p >>= q) s (.error error) s' := by
  intro n
  obtain ⟨next, hrun⟩ := hp n
  exact ⟨next, bind_of_error hrun⟩

theorem Returns.mapError {p : Program S D E α} (f : E → E') (hp : Returns p s result s') :
    Returns (p.mapError f) s (result.mapError f) s' := by
  intro n
  obtain ⟨next, hrun⟩ := hp n
  cases result with
  | error error => exact ⟨next, mapError_of_error hrun⟩
  | ok a => exact ⟨next, mapError_of_ok hrun⟩

end returns

/-! ### Programs that keep a part of the storage -/

section keeps

variable {γ : Type} {g : S → γ}

/-- The program leaves `g` of the storage as it was. -/
def Keeps (g : S → γ) (p : Program S D E α) : Prop :=
  ∀ faults n s, g (p.run faults n s).storage = g s

theorem keeps_pure (a : α) : Keeps g (pure a : Program S D E α) := fun _ _ _ => rfl

theorem keeps_operation {onError : D → E} {f : S → Except E (α × S)}
    (h : ∀ s a s', f s = .ok (a, s') → g s' = g s) : Keeps g (operation onError f) := by
  intro faults n s
  cases hf : f s with
  | error error =>
    obtain ⟨error', hrun⟩ : ∃ error', (operation onError f).run faults n s =
        ⟨.error error', s, n + 1⟩ := operation_of_failing hf
    rw [hrun]
  | ok x =>
    obtain ⟨a, s'⟩ := x
    cases hfault : faults n with
    | none => rw [operation_of_ok hfault hf, h s a s' hf]
    | before error => rw [operation_of_before hfault]
    | after error => rw [operation_of_after hfault hf, h s a s' hf]

theorem keeps_read (onError : D → E) (f : S → Except E α) : Keeps g (read onError f) := by
  refine keeps_operation fun s a s' h => ?_
  cases hf : f s with
  | error error => rw [hf] at h; cases h
  | ok b => rw [hf] at h; cases h; rfl

theorem Keeps.bind {p : Program S D E α} {q : α → Program S D E β} (hp : Keeps g p)
    (hq : ∀ a, Keeps g (q a)) : Keeps g (p >>= q) := by
  intro faults n s
  have hstorage := hp faults n s
  rcases h : p.run faults n s with ⟨error | a, s', n'⟩
  · rw [bind_of_error h]
    rwa [h] at hstorage
  · rw [h] at hstorage
    rw [bind_of_ok h, hq a]
    exact hstorage

end keeps

/-! ### Programs that succeed -/

section succeeds

variable {faults : Nat → Fault D} {n : Nat} {s : S}

/-- The run ends with a value. -/
def Succeeds (p : Program S D E α) (faults : Nat → Fault D) (n : Nat) (s : S) : Prop :=
  ∃ a, (p.run faults n s).result = .ok a

theorem not_succeeds_iff {p : Program S D E α} :
    ¬ p.Succeeds faults n s ↔ ∃ error, (p.run faults n s).result = .error error := by
  unfold Succeeds
  cases (p.run faults n s).result <;> simp

theorem succeeds_operation_iff {onError : D → E} {f : S → Except E (α × S)} :
    (operation onError f).Succeeds faults n s ↔ faults n = .none ∧ ∃ x, f s = .ok x := by
  unfold Succeeds
  cases hf : f s with
  | error error =>
    obtain ⟨error', hrun⟩ : ∃ error', (operation onError f).run faults n s =
        ⟨.error error', s, n + 1⟩ := operation_of_failing hf
    rw [hrun]
    simp
  | ok x =>
    obtain ⟨a, s'⟩ := x
    cases hfault : faults n with
    | none => rw [operation_of_ok hfault hf]; simp
    | before error => rw [operation_of_before hfault]; simp
    | after error => rw [operation_of_after hfault hf]; simp

theorem succeeds_bind_pure_iff {p : Program S D E α} {f : α → β} :
    (p >>= fun a => pure (f a)).Succeeds faults n s ↔ p.Succeeds faults n s := by
  unfold Succeeds
  rcases h : p.run faults n s with ⟨error | a, s', n'⟩
  · rw [bind_of_error h]
    simp
  · rw [bind_of_ok h]
    simp

theorem succeeds_read_bind_iff {onError : D → E} {f : S → Except E α} {q : α → Program S D E β} :
    (read onError f >>= q).Succeeds faults n s ↔
      faults n = .none ∧ ∃ a, f s = .ok a ∧ (q a).Succeeds faults (n + 1) s := by
  unfold Succeeds
  by_cases hfault : faults n = .none
  · cases hf : f s with
    | error error => rw [bind_of_error (read_of_error hfault hf)]; simp
    | ok a => rw [bind_of_ok (read_of_ok hfault hf)]; simp [hfault]
  · obtain ⟨error, hrun⟩ : ∃ error, (read onError f).run faults n s = ⟨.error error, s, n + 1⟩ :=
      read_of_fault hfault
    rw [bind_of_error hrun]
    simp [hfault]

end succeeds

/-! ### Sequences of writes -/

section writes

variable {faults : Nat → Fault D} {n : Nat}

def applyAll (writes : List (S → S)) (s : S) : S := writes.foldl (fun s f => f s) s

/-- Of `m` writes from number `n` on, how many take effect. -/
def tookEffect (faults : Nat → Fault D) : Nat → Nat → Nat
  | _, 0 => 0
  | n, m + 1 =>
    match faults n with
    | .none => tookEffect faults (n + 1) m + 1
    | .before _ => 0
    | .after _ => 1

/-- One write after the other. -/
def writeAll (onError : D → E) (writes : List (S → S)) : Program S D E Unit :=
  writes.forM (write onError)

theorem writeAll_cons (onError : D → E) (f : S → S) (writes : List (S → S)) :
    writeAll onError (f :: writes) = write onError f >>= fun _ => writeAll onError writes :=
  List.forM_cons

theorem writeAll_append (onError : D → E) (writes writes' : List (S → S)) :
    writeAll onError (writes ++ writes') =
      writeAll onError writes >>= fun _ => writeAll onError writes' :=
  List.forM_append

theorem writeAll_of_none (onError : D → E) {writes : List (S → S)}
    (h : ∀ j < writes.length, faults (n + j) = .none) (s : S) :
    (writeAll onError writes).run faults n s = ⟨.ok (), applyAll writes s, n + writes.length⟩ := by
  induction writes generalizing n s with
  | nil => rfl
  | cons f writes ih =>
    have hfirst : faults n = .none := h 0 (Nat.succ_pos _)
    have hrest : ∀ j < writes.length, faults (n + 1 + j) = .none := by
      intro j hj
      rw [Nat.add_assoc, Nat.add_comm 1]
      exact h (j + 1) (Nat.succ_lt_succ hj)
    rw [writeAll_cons, bind_of_ok (write_of_none hfirst), ih hrest, List.length_cons,
      Nat.add_assoc n 1, Nat.add_comm 1]
    rfl

theorem writeAll_of_fault (onError : D → E) {writes : List (S → S)}
    (h : ∃ j < writes.length, faults (n + j) ≠ .none) (s : S) :
    ∃ error next, (writeAll onError writes).run faults n s =
      ⟨.error error, applyAll (writes.take (tookEffect faults n writes.length)) s, next⟩ := by
  induction writes generalizing n s with
  | nil =>
    obtain ⟨j, hj, -⟩ := h
    exact absurd hj (Nat.not_lt_zero j)
  | cons f writes ih =>
    rw [writeAll_cons, List.length_cons, tookEffect]
    cases hfirst : faults n with
    | none =>
      obtain ⟨j, hj, hfault⟩ := h
      cases j with
      | zero => exact absurd hfirst hfault
      | succ j =>
        obtain ⟨error, next, hrest⟩ := ih (n := n + 1)
          ⟨j, Nat.lt_of_succ_lt_succ hj, by rwa [Nat.add_assoc, Nat.add_comm 1]⟩ (f s)
        exact ⟨error, next, (bind_of_ok (write_of_none hfirst)).trans hrest⟩
    | before error => exact ⟨_, _, bind_of_error (write_of_before hfirst)⟩
    | after error => exact ⟨_, _, bind_of_error (write_of_after hfirst)⟩

end writes

end Program

end Faulty

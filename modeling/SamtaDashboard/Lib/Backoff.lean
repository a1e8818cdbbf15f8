import Mathlib.Algebra.BigOperators.Group.List.Basic
import Mathlib.Algebra.GroupWithZero.Nat
import Mathlib.Data.Nat.Find

/-!
# Trying again after a delay

A loop makes attempts until one succeeds or `limit` have been made, and sleeps between two attempts; an
attempt may sleep itself. At least one attempt is made. The result is that of the first attempt that
succeeds, or else of the last one (`retry_eq_ok_iff`), and it takes no longer than the longest attempts and
delays (`sum_slept_le`).
-/

namespace Backoff

universe u v

variable {E : Type u} {A : Type v}

/-- The result of a loop, and the delays it has slept. -/
abbrev Slept (E : Type u) (A : Type v) := Except E A × List Nat

/-- From attempt `k` on, with `delay` as the next delay. -/
def retry (limit : Nat) (next : Nat → Nat) (attempt : Nat → Slept E A) (k delay : Nat) : Slept E A :=
  match attempt k with
  | (.ok a, slept) => (.ok a, slept)
  | (.error e, slept) =>
    if k + 1 < limit then
      let rest := retry limit next attempt (k + 1) (next delay)
      (rest.1, slept ++ delay :: rest.2)
    else (.error e, slept)
termination_by limit - k

section retry

variable {limit : Nat} {next : Nat → Nat} {attempt : Nat → Slept E A} {k n delay : Nat} {a : A} {e : E}
  {slept : List Nat}

theorem retry_of_ok (h : attempt k = (.ok a, slept)) :
    retry limit next attempt k delay = (.ok a, slept) := by
  rw [retry, h]

theorem retry_of_last (h : attempt k = (.error e, slept)) (hlimit : limit ≤ k + 1) :
    retry limit next attempt k delay = (.error e, slept) := by
  rw [retry, h]
  exact if_neg (Nat.not_lt.mpr hlimit)

theorem retry_of_error (h : attempt k = (.error e, slept)) (hlimit : k + 1 < limit) :
    retry limit next attempt k delay = ((retry limit next attempt (k + 1) (next delay)).1,
      slept ++ delay :: (retry limit next attempt (k + 1) (next delay)).2) := by
  rw [retry, h]
  exact if_pos hlimit

/-- Attempt `n` is the first one from `k` on that succeeds. -/
structure FirstOk (attempt : Nat → Slept E A) (k n : Nat) (a : A) : Prop where
  le : k ≤ n
  ok : (attempt n).1 = .ok a
  failed : ∀ m, k ≤ m → m < n → (attempt m).1.isOk = false

theorem FirstOk.of_error (h : FirstOk attempt k n a) (herror : (attempt k).1 = .error e) :
    FirstOk attempt (k + 1) n a := by
  have hne : k ≠ n := by
    rintro rfl
    have hok := h.ok
    rw [herror] at hok
    cases hok
  exact ⟨by have := h.le; omega, h.ok, fun m hm => h.failed m (by omega)⟩

theorem FirstOk.cons_error (h : FirstOk attempt (k + 1) n a) (herror : (attempt k).1 = .error e) :
    FirstOk attempt k n a := by
  refine ⟨by have := h.le; omega, h.ok, fun m hm hlt => ?_⟩
  rcases Nat.eq_or_lt_of_le hm with rfl | hlater
  · rw [herror]
    rfl
  · exact h.failed m hlater hlt

/-- Where some attempt succeeds, there is a first one. -/
theorem exists_firstOk (attempt : Nat → Slept E A) (hle : k ≤ n) (h : (attempt n).1 = .ok a) :
    ∃ m ≤ n, ∃ a, FirstOk attempt k m a := by
  have hn : k ≤ n ∧ (attempt n).1.isOk = true := ⟨hle, by rw [h]; rfl⟩
  have hsome : ∃ m, k ≤ m ∧ (attempt m).1.isOk = true := ⟨n, hn⟩
  obtain ⟨hk, hok⟩ := Nat.find_spec hsome
  refine ⟨Nat.find hsome, Nat.find_min' hsome hn, ?_⟩
  cases hfound : (attempt (Nat.find hsome)).1 with
  | error =>
    rw [hfound] at hok
    cases hok
  | ok a' =>
    exact ⟨a', hk, hfound, fun m hm hlt => Bool.eq_false_iff.mpr fun hfirst =>
      Nat.find_min hsome hlt ⟨hm, hfirst⟩⟩

/-- The loop succeeds with the first attempt that does, if there is one before the limit; the first attempt
is always made. -/
theorem retry_eq_ok_iff : (retry limit next attempt k delay).1 = .ok a ↔
    ∃ n, FirstOk attempt k n a ∧ (n = k ∨ n < limit) := by
  fun_induction retry limit next attempt k delay with
  | case1 k delay a' slept hok =>
    have hfirst : (attempt k).1 = .ok a' := by rw [hok]
    constructor
    · intro h
      obtain rfl := Except.ok.inj h
      exact ⟨k, ⟨Nat.le_refl k, hfirst, fun m hm hlt => absurd hlt (Nat.not_lt.mpr hm)⟩, Or.inl rfl⟩
    · rintro ⟨n, hn, -⟩
      rcases Nat.eq_or_lt_of_le hn.le with rfl | hlt
      · exact hfirst.symm.trans hn.ok
      · have hfailed := hn.failed k (Nat.le_refl k) hlt
        rw [hfirst] at hfailed
        cases hfailed
  | case2 k delay e slept herror hlimit rest ih =>
    have hfirst : (attempt k).1 = .error e := by rw [herror]
    rw [ih]
    constructor
    · rintro ⟨n, hn, hlt⟩
      exact ⟨n, hn.cons_error hfirst, Or.inr (by omega)⟩
    · rintro ⟨n, hn, hlt⟩
      have hlater := (hn.of_error hfirst).le
      exact ⟨n, hn.of_error hfirst, by omega⟩
  | case3 k delay e slept herror hlimit =>
    have hfirst : (attempt k).1 = .error e := by rw [herror]
    constructor
    · intro h
      cases h
    · rintro ⟨n, hn, hlt⟩
      have hlater := (hn.of_error hfirst).le
      omega

/-- What the loop sleeps in all: in each attempt at most `inner`, and between two at most `bound`. -/
theorem sum_slept_le {inner bound : Nat} (hinner : ∀ n, (attempt n).2.sum ≤ inner)
    (hnext : ∀ b ≤ bound, next b ≤ bound) (hdelay : delay ≤ bound) :
    (retry limit next attempt k delay).2.sum ≤
      (limit - (k + 1)) * bound + (limit - (k + 1) + 1) * inner := by
  fun_induction retry limit next attempt k delay with
  | case1 k delay a slept hok =>
    have hslept : slept.sum ≤ inner := by
      have hsum := hinner k
      rw [hok] at hsum
      exact hsum
    have hinners : inner ≤ (limit - (k + 1) + 1) * inner := Nat.le_mul_of_pos_left inner (Nat.succ_pos _)
    exact Nat.le_trans hslept (Nat.le_trans hinners (Nat.le_add_left _ _))
  | case2 k delay e slept herror hlimit rest ih =>
    have hslept : slept.sum ≤ inner := by
      have hsum := hinner k
      rw [herror] at hsum
      exact hsum
    have hrest : rest.2.sum ≤ _ := ih (hnext delay hdelay)
    obtain ⟨m, hm⟩ : ∃ m, limit - (k + 1) = m + 1 := ⟨limit - (k + 1) - 1, by omega⟩
    have hm' : limit - (k + 1 + 1) = m := by omega
    rw [hm'] at hrest
    rw [hm, List.sum_append, List.sum_cons]
    rw [Nat.add_one_mul m, Nat.add_one_mul (m + 1)]
    omega
  | case3 k delay e slept herror hlimit =>
    have hslept : slept.sum ≤ inner := by
      have hsum := hinner k
      rw [herror] at hsum
      exact hsum
    have hinners : inner ≤ (limit - (k + 1) + 1) * inner := Nat.le_mul_of_pos_left inner (Nat.succ_pos _)
    exact Nat.le_trans hslept (Nat.le_trans hinners (Nat.le_add_left _ _))

end retry

end Backoff

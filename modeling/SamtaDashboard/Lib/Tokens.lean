import Mathlib.Data.List.Perm.Subperm

/-!
# Tokens and uses

A log contains tokens and uses. If every use spends a token of its own, there are at most as many
uses as tokens. `Accounts log spent` keeps the spent tokens, each of which comes before some use in
an order `le`; a use that spends a token after which no use has come keeps the account
(`Accounts.spend`).
-/

namespace Tokens

variable {E : Type} {token use : E → Bool} {le : E → E → Prop} {log rows spent : List E}

/-- The tokens `spent` account for the uses in the log. -/
structure Accounts (token use : E → Bool) (le : E → E → Prop) (log spent : List E) : Prop where
  nodup : spent.Nodup
  token : ∀ t ∈ spent, t ∈ log ∧ token t
  length : spent.length = log.countP use
  before : ∀ t ∈ spent, ∃ u ∈ log, use u ∧ le t u

namespace Accounts

theorem nil : Accounts token use le [] [] where
  nodup := List.nodup_nil
  token := by simp
  length := rfl
  before := by simp

theorem countP_le (h : Accounts token use le log spent) : log.countP use ≤ log.countP token := by
  rw [← h.length, List.countP_eq_length_filter]
  refine (h.nodup.subperm fun t ht => ?_).length_le
  obtain ⟨hlog, htoken⟩ := h.token t ht
  exact List.mem_filter.mpr ⟨hlog, htoken⟩

theorem append (h : Accounts token use le log spent) (hrows : rows.countP use = 0) :
    Accounts token use le (log ++ rows) spent where
  nodup := h.nodup
  token := fun t ht => ⟨List.mem_append_left _ (h.token t ht).1, (h.token t ht).2⟩
  length := by rw [h.length, List.countP_append, hrows, Nat.add_zero]
  before := fun t ht => by
    obtain ⟨u, hu, huse, hle⟩ := h.before t ht
    exact ⟨u, List.mem_append_left _ hu, huse, hle⟩

theorem spend (h : Accounts token use le log spent) {t u : E} (ht : t ∈ log) (htoken : token t)
    (hunspent : ∀ x ∈ log, use x → ¬ le t x) (hu : u ∈ rows) (huse : use u) (hle : le t u)
    (hrows : rows.countP use = 1) : Accounts token use le (log ++ rows) (t :: spent) where
  nodup := by
    refine List.nodup_cons.mpr ⟨fun hspent => ?_, h.nodup⟩
    obtain ⟨x, hx, hxuse, hxle⟩ := h.before t hspent
    exact hunspent x hx hxuse hxle
  token := by
    rw [List.forall_mem_cons]
    exact ⟨⟨List.mem_append_left _ ht, htoken⟩,
      fun x hx => ⟨List.mem_append_left _ (h.token x hx).1, (h.token x hx).2⟩⟩
  length := by rw [List.length_cons, h.length, List.countP_append, hrows]
  before := by
    rw [List.forall_mem_cons]
    refine ⟨⟨u, List.mem_append_right _ hu, huse, hle⟩, fun x hx => ?_⟩
    obtain ⟨y, hy, hyuse, hyle⟩ := h.before x hx
    exact ⟨y, List.mem_append_left _ hy, hyuse, hyle⟩

end Accounts

end Tokens

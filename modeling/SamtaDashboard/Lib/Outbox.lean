import Mathlib.Data.List.Nodup
import Mathlib.Logic.Function.Basic

/-!
# An outbox

Processes append to a common log, and each passes on what it has appended itself, one value after the
other (`forward`). Between a process's append and the end of its passing on, others append and pass on,
and a process may give up. Whatever they do, what is passed on is in the log and is passed on once
(`Sound`). Values of one class are passed on in the order of the log if a process appends such values
only when all others have been passed on (`InOrder`), and all values are if no process gives up
(`Complete`).
-/

universe u v

structure Outbox (ι : Type u) (α : Type v) where
  log : List α
  sent : List α
  /-- what a process has appended and not passed on yet -/
  unsent : ι → List α

namespace Outbox

section operations

variable {ι : Type u} {α : Type v}

def empty : Outbox ι α := ⟨[], [], fun _ => []⟩

def append (o : Outbox ι α) (rows : List α) : Outbox ι α := { o with log := o.log ++ rows }

def setUnsent [DecidableEq ι] (o : Outbox ι α) (i : ι) (rows : List α) : Outbox ι α :=
  { o with unsent := Function.update o.unsent i rows }

/-- A process appends values that it is going to pass on. -/
def post [DecidableEq ι] (o : Outbox ι α) (i : ι) (rows : List α) : Outbox ι α :=
  (o.append rows).setUnsent i rows

/-- A process passes on a value, with `rest` left. -/
def forward [DecidableEq ι] (o : Outbox ι α) (i : ι) (a : α) (rest : List α) : Outbox ι α :=
  { o.setUnsent i rest with sent := o.sent ++ [a] }

def giveUp [DecidableEq ι] (o : Outbox ι α) (i : ι) : Outbox ι α := o.setUnsent i []

theorem unsent_setUnsent [DecidableEq ι] (o : Outbox ι α) (i j : ι) (rows : List α) :
    (o.setUnsent i rows).unsent j = if j = i then rows else o.unsent j :=
  Function.update_apply ..

end operations

/-! ### What is passed on -/

/-- Everything that was or will be passed on is in the log, and no value twice. -/
structure Sound {ι : Type u} {α : Type v} (o : Outbox ι α) : Prop where
  sent : o.sent ⊆ o.log
  unsent : ∀ i, o.unsent i ⊆ o.log
  once : ∀ i, (o.sent ++ o.unsent i).Nodup
  apart : ∀ i j, i ≠ j → (o.unsent i).Disjoint (o.unsent j)

namespace Sound

variable {ι : Type u} {α : Type v} {o : Outbox ι α} {i : ι} {a : α} {rows rest : List α}

theorem empty : Sound (Outbox.empty : Outbox ι α) where
  sent := List.nil_subset _
  unsent := fun _ => List.nil_subset _
  once := fun _ => List.nodup_nil
  apart := fun _ _ _ => List.disjoint_nil_left _

theorem nodup_sent [Inhabited ι] (h : o.Sound) : o.sent.Nodup := (h.once default).of_append_left

theorem append (h : o.Sound) (rows : List α) : (o.append rows).Sound where
  sent := List.subset_append_of_subset_left _ h.sent
  unsent := fun i => List.subset_append_of_subset_left _ (h.unsent i)
  once := h.once
  apart := h.apart

variable [DecidableEq ι]

theorem setUnsent (h : o.Sound) (i : ι) (hrows : rows ⊆ o.log) (honce : (o.sent ++ rows).Nodup)
    (hapart : ∀ j, j ≠ i → (o.unsent j).Disjoint rows) : (o.setUnsent i rows).Sound := by
  constructor
  · exact h.sent
  · intro j
    rw [unsent_setUnsent]
    split
    · exact hrows
    · exact h.unsent j
  · intro j
    rw [unsent_setUnsent]
    split
    · exact honce
    · exact h.once j
  · intro j k hne
    rw [unsent_setUnsent, unsent_setUnsent]
    split
    · next hj =>
      rw [if_neg fun hk => hne (hj.trans hk.symm)]
      exact fun x hx hk => hapart k (fun hkj => hne (hj.trans hkj.symm)) hk hx
    · next hj =>
      split
      · exact hapart j hj
      · exact h.apart j k hne

theorem post (h : o.Sound) (hlog : (o.log ++ rows).Nodup) (i : ι) : (o.post i rows).Sound := by
  obtain ⟨-, hnodup, hnew⟩ := List.nodup_append.mp hlog
  refine (h.append rows).setUnsent i (List.subset_append_right _ _) ?_ fun j _ a ha hrow =>
    hnew a (h.unsent j ha) a hrow rfl
  refine List.nodup_append.mpr ⟨h.once i |>.of_append_left, hnodup, fun a ha b hb => ?_⟩
  exact hnew a (h.sent ha) b hb

theorem giveUp (h : o.Sound) (i : ι) : (o.giveUp i).Sound :=
  h.setUnsent i (List.nil_subset _) (by simpa using (h.once i).of_append_left) fun _ _ =>
    List.disjoint_nil_right _

theorem forward (h : o.Sound) (hi : o.unsent i = a :: rest) : (o.forward i a rest).Sound := by
  have honce := h.once i
  have hsub := h.unsent i
  rw [hi] at honce hsub
  obtain ⟨hsent, hcons, hnew⟩ := List.nodup_append.mp honce
  obtain ⟨hrest, hnodup⟩ := List.nodup_cons.mp hcons
  have hset : (o.setUnsent i rest).Sound := by
    refine h.setUnsent i (List.subset_of_cons_subset hsub) ?_ fun j hj x hx hxrest => ?_
    · exact honce.sublist ((List.Sublist.refl _).append (List.sublist_cons_self a rest))
    · exact h.apart j i hj hx (hi ▸ List.mem_cons_of_mem a hxrest)
  have hfresh : ∀ j, a ∉ (o.setUnsent i rest).unsent j := by
    intro j
    rw [unsent_setUnsent]
    split
    · exact hrest
    · next hj => exact fun ha => h.apart j i hj ha (hi ▸ List.mem_cons_self)
  refine ⟨?_, hset.unsent, fun j => ?_, hset.apart⟩
  · exact List.append_subset.mpr ⟨h.sent, List.cons_subset.mpr ⟨hsub List.mem_cons_self,
      List.nil_subset _⟩⟩
  · have hj := hset.once j
    show (o.sent ++ [a] ++ (o.setUnsent i rest).unsent j).Nodup
    rw [List.append_assoc, List.singleton_append, List.nodup_append]
    obtain ⟨-, hunsent, hapart⟩ := List.nodup_append.mp hj
    refine ⟨hsent, List.nodup_cons.mpr ⟨hfresh j, hunsent⟩, fun x hx y hy => ?_⟩
    rcases List.mem_cons.mp hy with rfl | hy
    · exact hnew x hx y List.mem_cons_self
    · exact hapart x hx y hy

end Sound

/-- All values with property `p` in the log were or will be passed on. -/
def Complete {ι : Type u} {α : Type v} (p : α → Bool) (o : Outbox ι α) : Prop :=
  ∀ a ∈ o.log, p a → a ∈ o.sent ∨ ∃ i, a ∈ o.unsent i

namespace Complete

variable {ι : Type u} {α : Type v} {p : α → Bool} {o : Outbox ι α} {i : ι} {a : α}
  {rows rest : List α}

theorem empty : Complete p (Outbox.empty : Outbox ι α) := fun _ ha => absurd ha List.not_mem_nil

theorem append (h : o.Complete p) (hrows : ∀ a ∈ rows, ¬ p a) : (o.append rows).Complete p := by
  intro a ha hp
  rcases List.mem_append.mp ha with ha | ha
  · exact h a ha hp
  · exact absurd hp (hrows a ha)

/-- The values with `p` in the log are those that were passed on and those that one process has still to
pass on. -/
theorem mem_iff (h : o.Complete p) (hsound : o.Sound) (hsent : ∀ a ∈ o.sent, p a)
    (hunsent : ∀ i, ∀ a ∈ o.unsent i, p a) (a : α) :
    a ∈ o.log ∧ p a ↔ (a ∈ o.sent ∧ ∀ i, a ∉ o.unsent i) ∨ (a ∉ o.sent ∧ ∃! i, a ∈ o.unsent i) := by
  have honce : ∀ i, a ∈ o.sent → a ∉ o.unsent i := fun i ha hi =>
    (List.nodup_append.mp (hsound.once i)).2.2 a ha a hi rfl
  constructor
  · rintro ⟨ha, hp⟩
    rcases h a ha hp with hpassed | ⟨i, hi⟩
    · exact Or.inl ⟨hpassed, fun i => honce i hpassed⟩
    · refine Or.inr ⟨fun hpassed => honce i hpassed hi, i, hi, fun j hj => ?_⟩
      by_contra hne
      exact hsound.apart j i hne hj hi
  · rintro (⟨ha, -⟩ | ⟨-, i, hi, -⟩)
    · exact ⟨hsound.sent ha, hsent a ha⟩
    · exact ⟨hsound.unsent i hi, hunsent i a hi⟩

variable [DecidableEq ι]

theorem post (h : o.Complete p) (hi : o.unsent i = []) (rows : List α) :
    (o.post i rows).Complete p := by
  intro a ha hp
  have hunsent : ∀ j, (o.post i rows).unsent j = if j = i then rows else o.unsent j :=
    fun j => unsent_setUnsent (o.append rows) i j rows
  rcases List.mem_append.mp ha with ha | ha
  · refine (h a ha hp).imp_right fun ⟨j, hj⟩ => ⟨j, ?_⟩
    rw [hunsent, if_neg fun hji => ?_]
    · exact hj
    · rw [hji, hi] at hj
      cases hj
  · exact Or.inr ⟨i, by rw [hunsent, if_pos rfl]; exact ha⟩

theorem forward (h : o.Complete p) (hi : o.unsent i = a :: rest) :
    (o.forward i a rest).Complete p := by
  intro x hx hp
  have hunsent : ∀ j, (o.forward i a rest).unsent j = if j = i then rest else o.unsent j :=
    fun j => unsent_setUnsent o i j rest
  rcases h x hx hp with hsent | ⟨j, hj⟩
  · exact Or.inl (List.mem_append_left _ hsent)
  · by_cases hji : j = i
    · rw [hji, hi] at hj
      rcases List.mem_cons.mp hj with rfl | hrest
      · exact Or.inl (List.mem_append_right _ List.mem_cons_self)
      · exact Or.inr ⟨i, by rw [hunsent, if_pos rfl]; exact hrest⟩
    · exact Or.inr ⟨j, by rw [hunsent, if_neg hji]; exact hj⟩

end Complete

/-! ### In which order -/

/-- Of the values with property `p` only one process has some still to pass on, and they follow in the log
after those that were passed on. -/
def InOrder {ι : Type u} {α : Type v} (p : α → Bool) (o : Outbox ι α) : Prop :=
  ∃ i, (∀ j, j ≠ i → ∀ a ∈ o.unsent j, ¬ p a) ∧
    o.sent.filter p ++ (o.unsent i).filter p <+: o.log.filter p

namespace InOrder

variable {ι : Type u} {α : Type v} {p : α → Bool} {o : Outbox ι α} {i : ι} {a : α}
  {rows rest : List α}

theorem empty [Inhabited ι] : InOrder p (Outbox.empty : Outbox ι α) :=
  ⟨default, fun _ _ _ ha => absurd ha List.not_mem_nil, List.nil_prefix⟩

theorem sent_prefix (h : o.InOrder p) : o.sent.filter p <+: o.log.filter p := by
  obtain ⟨i, -, hbegins⟩ := h
  exact (List.prefix_append _ _).trans hbegins

theorem append (h : o.InOrder p) (rows : List α) : (o.append rows).InOrder p := by
  obtain ⟨i, hothers, hbegins⟩ := h
  refine ⟨i, hothers, hbegins.trans ?_⟩
  rw [Outbox.append, List.filter_append]
  exact List.prefix_append _ _

variable [DecidableEq ι]

theorem setUnsent (h : o.InOrder p) (hi : rows.filter p <+: (o.unsent i).filter p) :
    (o.setUnsent i rows).InOrder p := by
  obtain ⟨k, hothers, hbegins⟩ := h
  refine ⟨k, fun j hj a ha => ?_, ?_⟩
  · rw [unsent_setUnsent] at ha
    split at ha
    · next hji =>
      rw [← hji, List.filter_eq_nil_iff.mpr (hothers j hj), List.prefix_nil] at hi
      exact List.filter_eq_nil_iff.mp hi a ha
    · exact hothers j hj a ha
  · rw [unsent_setUnsent]
    split
    · next hki =>
      subst hki
      exact ((List.prefix_append_right_inj _).mpr hi).trans hbegins
    · exact hbegins

theorem post_other (h : o.InOrder p) (hrows : ∀ a ∈ rows, ¬ p a) : (o.post i rows).InOrder p := by
  refine (h.append rows).setUnsent ?_
  rw [List.filter_eq_nil_iff.mpr hrows]
  exact List.nil_prefix

theorem post_idle (h : o.InOrder p) (hsound : o.Sound) (hlog : o.log.Nodup)
    (hsent : ∀ a ∈ o.log, p a → a ∈ o.sent) (i : ι) (rows : List α) : (o.post i rows).InOrder p := by
  have hall : o.sent.filter p = o.log.filter p := by
    refine h.sent_prefix.eq_of_length_le ((hlog.filter p).length_le_of_subset fun a ha => ?_)
    obtain ⟨ha, hp⟩ := List.mem_filter.mp ha
    exact List.mem_filter.mpr ⟨hsent a ha hp, hp⟩
  refine ⟨i, fun j hj a ha hp => ?_, ?_⟩
  · rw [Outbox.post, unsent_setUnsent, if_neg hj] at ha
    exact (List.nodup_append.mp (hsound.once j)).2.2 a (hsent a (hsound.unsent j ha) hp) a ha rfl
  · rw [Outbox.post, unsent_setUnsent, if_pos rfl]
    have hrows : (o.log ++ rows).filter p = o.sent.filter p ++ rows.filter p := by
      rw [List.filter_append, hall]
    show o.sent.filter p ++ rows.filter p <+: (o.log ++ rows).filter p
    exact hrows ▸ List.prefix_rfl

theorem forward (h : o.InOrder p) (hi : o.unsent i = a :: rest) : (o.forward i a rest).InOrder p := by
  obtain ⟨k, hothers, hbegins⟩ := h
  have hunsent : ∀ j, (o.forward i a rest).unsent j = if j = i then rest else o.unsent j :=
    fun j => unsent_setUnsent o i j rest
  refine ⟨k, fun j hj x hx => ?_, ?_⟩
  · rw [hunsent] at hx
    split at hx
    · next hji => exact hothers j hj x (by rw [hji, hi]; exact List.mem_cons_of_mem a hx)
    · exact hothers j hj x hx
  · have hsame : (o.sent ++ [a]).filter p ++ ((o.forward i a rest).unsent k).filter p =
        o.sent.filter p ++ (o.unsent k).filter p := by
      rw [hunsent, List.filter_append, List.append_assoc]
      refine congrArg (o.sent.filter p ++ ·) ?_
      split
      · next hki =>
        rw [hki, hi, ← List.filter_append]
        rfl
      · next hki =>
        have hnot : ¬ p a := hothers i (Ne.symm hki) a (hi ▸ List.mem_cons_self)
        rw [List.filter_cons_of_neg hnot]
        rfl
    exact hsame ▸ hbegins

end InOrder

end Outbox

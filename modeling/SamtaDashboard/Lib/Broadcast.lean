import Mathlib.Data.List.TakeDrop

/-!
# A bounded broadcast channel

Every receiver gets what is sent after it subscribed, as long as it keeps up: the channel keeps the last
`capacity` values. A receiver that is further behind is overtaken. It is told so once and goes on with
the oldest value kept (`Channel.recv`). What a receiver has got is a sublist of what was sent since it
subscribed (`Received`).
-/

namespace Broadcast

/-- A channel: the number of values that it keeps, and everything sent. -/
structure Channel (α : Type*) where
  capacity : Nat
  sent : List α

/-- What a receiver finds. -/
inductive Reply (α : Type*)
  | empty
  | lagged
  | value (a : α)

variable {α : Type*}

namespace Channel

variable (channel : Channel α)

def send (a : α) : Channel α := { channel with sent := channel.sent ++ [a] }

def subscribe : Nat := channel.sent.length

/-- Some value that a receiver has not got is not kept any more. -/
def Overtaken (position : Nat) : Prop := channel.capacity < channel.sent.length - position

instance (position : Nat) : Decidable (channel.Overtaken position) :=
  inferInstanceAs (Decidable (_ < _))

def kept (position : Nat) : List α :=
  channel.sent.drop (max position (channel.sent.length - channel.capacity))

/-- What a receiver gets, and its new position. -/
def recv (position : Nat) : Reply α × Nat :=
  if channel.Overtaken position then (.lagged, channel.sent.length - channel.capacity)
  else
    match channel.sent[position]? with
    | some a => (.value a, position + 1)
    | none => (.empty, position)

variable {channel} {position : Nat}

theorem recv_of_overtaken (h : channel.Overtaken position) :
    channel.recv position = (.lagged, channel.sent.length - channel.capacity) := if_pos h

theorem recv_of_not_overtaken (h : ¬ channel.Overtaken position) :
    (∃ a, channel.sent[position]? = some a ∧ channel.recv position = (.value a, position + 1)) ∨
      channel.recv position = (.empty, position) := by
  rw [recv, if_neg h]
  split
  · next a ha => exact Or.inl ⟨a, ha, rfl⟩
  · exact Or.inr rfl

theorem kept_ne_nil (hcapacity : 0 < channel.capacity) (h : channel.Overtaken position) :
    channel.kept (channel.sent.length - channel.capacity) ≠ [] := by
  rw [Overtaken] at h
  rw [kept, Nat.max_self, ne_eq, List.drop_eq_nil_iff]
  omega

end Channel

/-- A receiver that subscribed at `start` has got to `position`, with the values `got`. -/
structure Received (channel : Channel α) (start position : Nat) (got : List α) : Prop where
  start_le : start ≤ position
  le_length : position ≤ channel.sent.length
  sublist : got.Sublist ((channel.sent.take position).drop start)

namespace Received

variable {channel : Channel α} {start position : Nat} {got : List α}

theorem subscribe : Received channel channel.subscribe channel.subscribe [] :=
  ⟨Nat.le_refl _, Nat.le_refl _, List.nil_sublist _⟩

theorem send (h : Received channel start position got) (a : α) :
    Received (channel.send a) start position got where
  start_le := h.start_le
  le_length := by
    rw [Channel.send, List.length_append]
    exact Nat.le_add_right_of_le h.le_length
  sublist := by
    rw [Channel.send, List.take_append_of_le_length h.le_length]
    exact h.sublist

theorem of_sublist (h : Received channel start position got) {got' : List α}
    (hgot : got'.Sublist got) : Received channel start position got' :=
  ⟨h.start_le, h.le_length, hgot.trans h.sublist⟩

theorem skip (h : Received channel start position got) {position' : Nat}
    (hle : position ≤ position') (hlength : position' ≤ channel.sent.length) :
    Received channel start position' got where
  start_le := Nat.le_trans h.start_le hle
  le_length := hlength
  sublist := by
    refine h.sublist.trans (List.Sublist.drop ?_ start)
    exact (List.take_prefix_take_left hle).sublist

theorem next (h : Received channel start position got) {a : α}
    (ha : channel.sent[position]? = some a) :
    Received channel start (position + 1) (got ++ [a]) where
  start_le := Nat.le_succ_of_le h.start_le
  le_length := (List.getElem?_eq_some_iff.mp ha).1
  sublist := by
    have hstart : start ≤ (channel.sent.take position).length := by
      rw [List.length_take_of_le h.le_length]
      exact h.start_le
    rw [List.take_add_one, ha, List.drop_append_of_le_length hstart]
    exact h.sublist.append (List.Sublist.refl _)

theorem lagged (h : Received channel start position got) (hlag : channel.Overtaken position) :
    Received channel start (channel.sent.length - channel.capacity) got := by
  rw [Channel.Overtaken] at hlag
  exact h.skip (by omega) (Nat.sub_le _ _)

theorem sublist_sent (h : Received channel start position got) :
    got.Sublist (channel.sent.drop start) :=
  h.sublist.trans (List.Sublist.drop (List.take_sublist _ _) start)

end Received

end Broadcast

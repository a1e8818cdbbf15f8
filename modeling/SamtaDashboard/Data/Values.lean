import Mathlib.Data.Int.ConditionallyCompleteOrder
import Mathlib.Algebra.Order.Ring.Rat
import Mathlib.Data.List.AList

/-!
# Values of the Rust code: ids, times, machine numbers, hash maps

* `Uuid`: 128 bits; the code compares ids and prints them (`Uuid.toText`), nothing else.
* `Time`: a `DateTime<Utc>` as microseconds.
* `I32`: an `i32`, an integer with its range. Sums of efforts are kept as unbounded integers.
* `F64`: an `f64`, either a finite number or one of the three non-finite values. Finite numbers
  are exact rationals: rounding is not modelled.
* `HashMap V`: a `HashMap<Uuid, V>`. Where the code iterates over one, the order is a parameter.
-/

namespace SamtaDashboard

structure Uuid where
  bits : BitVec 128
  deriving DecidableEq

/-- `Uuid::nil()`. -/
def Uuid.nil : Uuid := ⟨0⟩

def Uuid.isNil (u : Uuid) : Bool := u = Uuid.nil

abbrev Time := Int

abbrev HashMap (V : Type) := AList fun _ : Uuid => V

/-! ### `i32` -/

/-- An `i32`. -/
def I32 : Type := {n : Int // -2 ^ 31 ≤ n ∧ n < 2 ^ 31}

namespace I32

instance : DecidableEq I32 := inferInstanceAs (DecidableEq {_n : Int // _})

/-- The `i32` with value `n`, if it is in range. -/
def ofInt? (n : Int) : Option I32 :=
  if h : -2 ^ 31 ≤ n ∧ n < 2 ^ 31 then some ⟨n, h⟩ else none

theorem ofInt?_val (n : I32) : ofInt? n.val = some n := by
  rw [ofInt?, dif_pos n.property]
  rfl

/-- The cast `n as i32` of a wider integer: it keeps the low 32 bits. -/
def wrap (n : Int) : I32 := ⟨(n + 2 ^ 31) % 2 ^ 32 - 2 ^ 31, by omega⟩

theorem wrap_val (n : I32) : wrap n.val = n := by
  have := n.property
  refine Subtype.ext ?_
  show (n.val + 2 ^ 31) % 2 ^ 32 - 2 ^ 31 = n.val
  omega

/-- `a + b`, which wraps around where it does not panic. -/
def add (a b : I32) : I32 := wrap (a.val + b.val)

/-- `n / k` for a positive literal `k`; Rust's division truncates towards zero. -/
def div (n : I32) (k : Nat) : I32 := ⟨n.val.tdiv k, by
  have h := n.property
  rcases Int.le_total 0 n.val with hn | hn
  · have hle := Int.ediv_le_self (k : Int) hn
    have hnonneg := Int.tdiv_nonneg hn (Int.natCast_nonneg k)
    rw [Int.tdiv_eq_ediv_of_nonneg hn] at hnonneg ⊢
    omega
  · have hneg := Int.tdiv_nonneg (a := -n.val) (by omega) (Int.natCast_nonneg k)
    rw [Int.neg_tdiv] at hneg
    have habs := Int.natAbs_tdiv_le_natAbs n.val k
    omega⟩

/-- `a.max(b)`. -/
def max (a b : I32) : I32 := if a.val ≤ b.val then b else a

theorem val_max (a b : I32) : (a.max b).val = Max.max a.val b.val := by
  unfold max
  split <;> omega

theorem le_max_right (a b : I32) : b.val ≤ (a.max b).val := by
  rw [val_max]
  exact Int.le_max_right ..

theorem val_div {n : I32} (h : 0 ≤ n.val) (k : Nat) : (n.div k).val = n.val / k :=
  Int.tdiv_eq_ediv_of_nonneg h

end I32

/-! ### `f64` -/

inductive F64 where
  | finite (value : ℚ)
  | nan
  | infinite (negative : Bool)
  deriving DecidableEq

namespace F64

/-- `0.0`. -/
def zero : F64 := .finite 0

def isFinite : F64 → Bool
  | .finite _ => true
  | _ => false

/-- `a + b`. -/
def add : F64 → F64 → F64
  | .finite a, .finite b => .finite (a + b)
  | .nan, _ => .nan
  | _, .nan => .nan
  | .infinite a, .infinite b => if a = b then .infinite a else .nan
  | .infinite a, .finite _ => .infinite a
  | .finite _, .infinite b => .infinite b

/-- `a / 2.0`. -/
def half : F64 → F64
  | .finite a => .finite (a / 2)
  | .nan => .nan
  | .infinite a => .infinite a

/-- `a >= 0.0`; every comparison with a NaN is false. -/
def isNonneg : F64 → Bool
  | .finite a => decide (0 ≤ a)
  | .nan => false
  | .infinite negative => !negative

/-- The sum of an iterator of costs. -/
def sum (costs : List F64) : F64 := costs.foldl add zero

theorem isFinite_half (a : F64) : a.half.isFinite = a.isFinite := by
  cases a <;> rfl

end F64

/-! ### Hash maps -/

namespace HashMap

variable {V : Type}

/-- `if let Some(v) = map.get_mut(&key) { f(v) }`. -/
def modify (m : HashMap V) (key : Uuid) (f : V → V) : HashMap V :=
  match m.lookup key with
  | some v => m.insert key (f v)
  | none => m

theorem lookup_modify (m : HashMap V) (key k : Uuid) (f : V → V) :
    (m.modify key f).lookup k = if k = key then (m.lookup key).map f else m.lookup k := by
  unfold modify
  cases h : m.lookup key with
  | some v =>
    by_cases hk : k = key
    · subst hk
      simp
    · simp [hk]
  | none =>
    by_cases hk : k = key
    · subst hk
      simp [h]
    · simp [hk]

/-- The keys of the map, in an order in which the code may iterate over it. -/
def IsOrder (m : HashMap V) (order : List Uuid) : Prop :=
  order.Nodup ∧ ∀ key, key ∈ order ↔ key ∈ m

theorem isOrder_keys (m : HashMap V) : m.IsOrder m.keys := ⟨m.keys_nodup, fun _ => Iff.rfl⟩

/-- `map.values()`. -/
def values (m : HashMap V) : List V := m.entries.map (·.2)

theorem mem_values {m : HashMap V} {v : V} : v ∈ m.values ↔ ∃ k, m.lookup k = some v := by
  simp only [values, List.mem_map, Sigma.exists]
  constructor
  · rintro ⟨k, w, hmem, rfl⟩
    exact ⟨k, AList.mem_lookup_iff.mpr hmem⟩
  · rintro ⟨k, hk⟩
    exact ⟨k, v, AList.mem_lookup_iff.mp hk, rfl⟩

end HashMap

end SamtaDashboard

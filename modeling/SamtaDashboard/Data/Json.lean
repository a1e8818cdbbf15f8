import SamtaDashboard.Data.Values
import Mathlib.Tactic.IntervalCases
import Mathlib.Tactic.NormNum

/-!
# JSON values

`Json` is `serde_json::Value`, with its two kinds of numbers, and the accessors the code uses. The
second part is the text form of a `Uuid`, which is how an id is stored in a JSON value.
-/

namespace SamtaDashboard

/-- `serde_json::Value`; a number is an integer or a finite float. -/
inductive Json where
  | null
  | bool (value : Bool)
  | int (value : Int)
  | float (value : ℚ)
  | str (value : String)
  | arr (values : List Json)
  | obj (fields : List (String × Json))

namespace Json

/-- `value.get(key)`. -/
def get (key : String) : Json → Option Json
  | obj fields => fields.lookup key
  | _ => none

/-- `value[key]`: `null` if there is no such field. -/
def index (j : Json) (key : String) : Json := (j.get key).getD null

/-- `value[n]`: `null` if there is no such element. -/
def element (n : Nat) : Json → Json
  | arr values => values[n]?.getD null
  | _ => null

/-- `value.as_str()`. -/
def asStr : Json → Option String
  | str s => some s
  | _ => none

/-- `value.as_bool()`. -/
def asBool : Json → Option Bool
  | bool b => some b
  | _ => none

/-- `value.as_i64()`: an integer in range, never a float. -/
def asI64 : Json → Option Int
  | int n => if -2 ^ 63 ≤ n ∧ n < 2 ^ 63 then some n else none
  | _ => none

/-- `value.as_f64()`: any number. -/
def asF64 : Json → Option F64
  | int n => some (.finite n)
  | float q => some (.finite q)
  | _ => none

/-- `serde_json::to_value` of an `f64`: a non-finite value becomes `null`. -/
def ofF64 : F64 → Json
  | .finite q => float q
  | _ => null

/-- Deserialising an `f64` field; `null` is an error. -/
def toF64 : Json → Except String F64
  | int n => .ok (.finite n)
  | float q => .ok (.finite q)
  | _ => .error "expected f64"

/-- Deserialising an `i32` field. -/
def toI32 : Json → Except String I32
  | int n =>
    match I32.ofInt? n with
    | some i => .ok i
    | none => .error "expected i32"
  | _ => .error "expected i32"

/-- Deserialising a `String` field. -/
def toStr : Json → Except String String
  | str s => .ok s
  | _ => .error "expected a string"

theorem toF64_ofF64 (x : F64) (h : x.isFinite) : (ofF64 x).toF64 = .ok x := by
  cases x <;> simp_all [ofF64, toF64, F64.isFinite]

theorem toF64_ofF64_of_not_finite (x : F64) (h : x.isFinite = false) :
    (ofF64 x).toF64 = .error "expected f64" := by
  cases x <;> simp_all [ofF64, toF64, F64.isFinite]

theorem toI32_int (n : I32) : (int n.val).toI32 = .ok n := by
  simp only [toI32, I32.ofInt?_val]

theorem asF64_isFinite {j : Json} {x : F64} (h : j.asF64 = some x) : x.isFinite := by
  cases j <;> simp only [asF64, Option.some.injEq, reduceCtorEq] at h <;> subst h <;> rfl

end Json

/-! ### Ids as text -/

def hexDigit (n : Nat) : Char :=
  if n < 10 then Char.ofNat (48 + n) else Char.ofNat (87 + n)

def hexValue (c : Char) : Option Nat :=
  if '0' ≤ c ∧ c ≤ '9' then some (c.toNat - 48)
  else if 'a' ≤ c ∧ c ≤ 'f' then some (c.toNat - 87)
  else if 'A' ≤ c ∧ c ≤ 'F' then some (c.toNat - 55)
  else none

/-- The `count` lowest hexadecimal digits of `n`, highest first. -/
def hexDigits : Nat → Nat → List Char
  | 0, _ => []
  | count + 1, n => hexDigits count (n / 16) ++ [hexDigit (n % 16)]

def parseHex (cs : List Char) : Option Nat :=
  cs.foldl (fun acc c => acc.bind fun a => (hexValue c).map (16 * a + ·)) (some 0)

def hyphenate (cs : List Char) : List Char :=
  cs.take 8 ++ '-' :: (cs.drop 8).take 4 ++ '-' :: (cs.drop 12).take 4 ++
    '-' :: (cs.drop 16).take 4 ++ '-' :: cs.drop 20

theorem hexValue_hexDigit {n : Nat} (h : n < 16) : hexValue (hexDigit n) = some n := by
  interval_cases n <;> decide

theorem hexDigit_ne_hyphen {n : Nat} (h : n < 16) : hexDigit n ≠ '-' := by
  interval_cases n <;> decide

theorem length_hexDigits (count n : Nat) : (hexDigits count n).length = count := by
  induction count generalizing n with
  | zero => rfl
  | succ count ih => simp [hexDigits, ih]

theorem hyphen_not_mem_hexDigits (count n : Nat) : ∀ c ∈ hexDigits count n, c ≠ '-' := by
  induction count generalizing n with
  | zero => simp [hexDigits]
  | succ count ih =>
    intro c hc
    rw [hexDigits, List.mem_append, List.mem_singleton] at hc
    rcases hc with hc | rfl
    · exact ih _ c hc
    · exact hexDigit_ne_hyphen (Nat.mod_lt _ (by decide))

theorem parseHex_hexDigits (count n : Nat) (h : n < 16 ^ count) :
    parseHex (hexDigits count n) = some n := by
  induction count generalizing n with
  | zero =>
    obtain rfl : n = 0 := by simpa using h
    rfl
  | succ count ih =>
    have hdiv : n / 16 < 16 ^ count := by
      rw [Nat.div_lt_iff_lt_mul (by decide), ← pow_succ]
      exact h
    have hread := ih (n / 16) hdiv
    unfold parseHex at hread ⊢
    rw [hexDigits, List.foldl_append, hread]
    simp only [List.foldl_cons, List.foldl_nil, Option.bind_some,
      hexValue_hexDigit (Nat.mod_lt n (by decide : 0 < 16)), Option.map_some, Option.some.injEq]
    omega

theorem filter_hyphenate {cs : List Char} (h : ∀ c ∈ cs, c ≠ '-') :
    (hyphenate cs).filter (· ≠ '-') = cs := by
  have hsub : ∀ part : List Char, part ⊆ cs → part.filter (· ≠ '-') = part := fun part hpart =>
    List.filter_eq_self.mpr fun c hc => by simpa using h c (hpart hc)
  have hmid : ∀ k, (cs.drop k).take 4 ⊆ cs := fun k c hc =>
    List.drop_subset k cs (List.take_subset 4 _ hc)
  simp only [hyphenate, List.filter_append, List.filter_cons]
  rw [hsub _ (List.take_subset _ _), hsub _ (hmid 8), hsub _ (hmid 12), hsub _ (hmid 16),
    hsub _ (List.drop_subset _ _)]
  have hjoin : ∀ k, (cs.drop k).take 4 ++ cs.drop (k + 4) = cs.drop k := fun k => by
    rw [← List.drop_drop, List.take_append_drop]
  simp [hjoin 16, hjoin 12, hjoin 8]

namespace Uuid

def toText (u : Uuid) : String := String.ofList (hyphenate (hexDigits 32 u.bits.toNat))

/-- `Uuid::parse_str` on the hyphenated and the simple form. -/
def parseStr (text : String) : Except String Uuid :=
  let cs := text.toList
  let hex := cs.filter (· ≠ '-')
  if hex.length = 32 ∧ (cs = hex ∨ cs = hyphenate hex) then
    match parseHex hex with
    | some n => .ok ⟨BitVec.ofNat 128 n⟩
    | none => .error "invalid UUID"
  else .error "invalid UUID"

theorem parseStr_toText (u : Uuid) : parseStr u.toText = .ok u := by
  have hlt : u.bits.toNat < 16 ^ 32 := lt_of_lt_of_eq u.bits.isLt (by norm_num)
  have hfilter := filter_hyphenate (hyphen_not_mem_hexDigits 32 u.bits.toNat)
  simp only [parseStr, toText, String.toList_ofList, hfilter, length_hexDigits, true_and, or_true,
    if_true, parseHex_hexDigits 32 _ hlt]
  simp

def toJson (u : Uuid) : Json := .str u.toText

/-- Deserialising a `Uuid` field. -/
def ofJson : Json → Except String Uuid
  | .str s => parseStr s
  | _ => .error "expected a UUID"

theorem ofJson_toJson (u : Uuid) : ofJson u.toJson = .ok u := parseStr_toText u

end Uuid

end SamtaDashboard

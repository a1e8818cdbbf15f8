import SamtaDashboard.Data.Values

/-!
# Text functions of the standard library

The `str` functions that the code calls, on lists of characters. The two that need the tables of the
Unicode database, `to_lowercase` and `char::is_numeric`, are a parameter (`Unicode`).
-/

namespace SamtaDashboard

/-- The tables of the Unicode database. -/
structure Unicode where
  toLowercase : List Char → List Char
  isNumeric : Char → Bool

namespace Text

/-- `char::is_whitespace`: the property `White_Space`. -/
def isWhitespace (c : Char) : Bool :=
  let n := c.toNat
  (9 ≤ n && n ≤ 13) || n == 0x20 || n == 0x85 || n == 0xA0 || n == 0x1680 ||
    (0x2000 ≤ n && n ≤ 0x200A) || n == 0x2028 || n == 0x2029 || n == 0x202F || n == 0x205F ||
    n == 0x3000

/-- `split_whitespace` with the word read so far. -/
def splitWhitespaceAux : List Char → List Char → List (List Char)
  | [], word => if word.isEmpty then [] else [word]
  | c :: cs, word =>
    if isWhitespace c then
      if word.isEmpty then splitWhitespaceAux cs [] else word :: splitWhitespaceAux cs []
    else splitWhitespaceAux cs (word ++ [c])

/-- `text.split_whitespace()`. -/
def splitWhitespace (text : List Char) : List (List Char) := splitWhitespaceAux text []

/-- `split` with the characters of a match still to skip and the piece read so far. -/
def splitAux (pattern : List Char) : List Char → Nat → List Char → List (List Char)
  | [], _, piece => [piece]
  | _ :: cs, skip + 1, piece => splitAux pattern cs skip piece
  | c :: cs, 0, piece =>
    if pattern.isPrefixOf (c :: cs) then piece :: splitAux pattern cs (pattern.length - 1) []
    else splitAux pattern cs 0 (piece ++ [c])

/-- `text.split(pattern)`, for a pattern that is not empty. -/
def split (pattern text : List Char) : List (List Char) := splitAux pattern text 0 []

/-- `text.trim_matches(p)`. -/
def trimMatches (p : Char → Bool) (text : List Char) : List Char :=
  ((text.dropWhile p).reverse.dropWhile p).reverse

/-- `text.trim()`. -/
def trim (text : List Char) : List Char := trimMatches isWhitespace text

/-- `text.trim_end_matches(c)`. -/
def trimEndMatches (c : Char) (text : List Char) : List Char :=
  (text.reverse.dropWhile (· = c)).reverse

/-- `text.contains(pattern)`. -/
def contains (pattern : List Char) : List Char → Bool
  | [] => pattern.isEmpty
  | c :: cs => pattern.isPrefixOf (c :: cs) || contains pattern cs

/-- `char::to_ascii_lowercase`. -/
def asciiLowercase (c : Char) : Char :=
  if 'A' ≤ c ∧ c ≤ 'Z' then Char.ofNat (c.toNat + 32) else c

/-! ### Numbers -/

def digit? (c : Char) : Option Nat :=
  if '0' ≤ c ∧ c ≤ '9' then some (c.toNat - 48) else none

def digits? (cs : List Char) : Option Nat :=
  cs.foldl (fun acc c => acc.bind fun n => (digit? c).map (10 * n + ·)) (some 0)

def takeSign : List Char → Bool × List Char
  | '-' :: rest => (true, rest)
  | '+' :: rest => (false, rest)
  | text => (false, text)

/-- An optional sign and at least one digit. -/
def parseInt (text : List Char) : Option Int :=
  let (negative, digits) := takeSign text
  if digits.isEmpty then none
  else (digits? digits).map fun n => if negative then -(n : Int) else n

/-- `text.parse::<i32>().ok()`. -/
def parseI32 (text : List Char) : Option I32 := (parseInt text).bind I32.ofInt?

/-- `n * 10 ^ e`. -/
def scaleByTen (n : Nat) (e : Int) : ℚ :=
  if 0 ≤ e then ((n * 10 ^ e.toNat : Nat) : ℚ) else mkRat n (10 ^ (-e).toNat)

/-- A decimal number: digits with at most one point and an optional exponent. -/
def parseDecimal (text : List Char) : Option ℚ :=
  let isExponent := fun c => c = 'e' ∨ c = 'E'
  let mantissa := text.takeWhile fun c => !isExponent c
  let exponent? := match text.dropWhile fun c => !isExponent c with
    | [] => some 0
    | _ :: exponent => parseInt exponent
  let whole := mantissa.takeWhile (· ≠ '.')
  let fraction := (mantissa.dropWhile (· ≠ '.')).tail
  if whole.isEmpty && fraction.isEmpty then none
  else exponent?.bind fun exponent =>
    (digits? (whole ++ fraction)).map fun n => scaleByTen n (exponent - fraction.length)

/-- The `f64` nearest to `q`, up to rounding: infinite from half a unit above `f64::MAX` on. -/
def roundF64 (q : ℚ) : F64 :=
  let limit : ℚ := ((2 ^ 1024 - 2 ^ 970 : Nat) : ℚ)
  if limit ≤ q then .infinite false
  else if q ≤ -limit then .infinite true
  else .finite q

/-- `text.parse::<f64>().ok()`. -/
def parseF64 (text : List Char) : Option F64 :=
  let (negative, body) := takeSign text
  let word := body.map asciiLowercase
  if word = "inf".toList ∨ word = "infinity".toList then some (.infinite negative)
  else if word = "nan".toList then some .nan
  else (parseDecimal body).map fun q => roundF64 (if negative then -q else q)

end Text

/-- Lower case and digits of ASCII texts. -/
def asciiUnicode : Unicode := ⟨List.map Text.asciiLowercase, Char.isDigit⟩

end SamtaDashboard

/-!
# Floating-point numbers of 64 bits

Decimal numbers are rounded to the nearest number `m * 2 ^ e` with a mantissa of 53 bits, ties to the
even mantissa, and written with the fewest digits that read back as the same number.
-/

namespace AssetBake.Toml

inductive Binary64
  | nan
  | infinite (negative : Bool)
  | finite (negative : Bool) (mantissa : Nat) (exponent : Int)
deriving DecidableEq

namespace Binary64

/-- The exponent of the smallest numbers. -/
def minExponent : Int := -1074

/-- The largest exponent of a number that is not infinite. -/
def maxExponent : Int := 971

/-- The quotient rounded to the nearest number, a tie to the even one. -/
def divideToEven (num den : Nat) : Nat :=
  let q := num / den
  let r := num % den
  if 2 * r < den then q
  else if den < 2 * r then q + 1
  else q + q % 2

/-- `num / (den * 2 ^ e)` as a quotient of natural numbers. -/
def scaled (num den : Nat) (e : Int) : Nat × Nat :=
  if 0 ≤ e then (num, den <<< e.toNat) else (num <<< (-e).toNat, den)

/-- The number nearest to a quotient. -/
def ofRatio (negative : Bool) (num den : Nat) : Binary64 :=
  if num = 0 then .finite negative 0 minExponent
  else
    let guess : Int := max ((Nat.log2 num : Int) - (Nat.log2 den : Int) - 53) minExponent
    let (n, d) := scaled num den guess
    let e := if n / d < 1 <<< 53 then guess else guess + 1
    let (n, d) := scaled num den e
    let q := divideToEven n d
    let (m, e) := if q = 1 <<< 53 then (1 <<< 52, e + 1) else (q, e)
    if maxExponent < e then .infinite negative else .finite negative m e

/-- The number nearest to `digits * 10 ^ exponent`. A number far beyond the range of the format is
not computed in full. -/
def ofDecimal (negative : Bool) (digits : Nat) (exponent : Int) : Binary64 :=
  let size : Int := (Nat.toDigits 10 digits).length + exponent
  if digits = 0 ∨ size < -400 then .finite negative 0 minExponent
  else if 400 < size then .infinite negative
  else if 0 ≤ exponent then ofRatio negative (digits * Nat.pow 10 exponent.toNat) 1
  else ofRatio negative digits (Nat.pow 10 (-exponent).toNat)

/-- The numbers, in quarters of the last place of the mantissa, that round to a mantissa: from the
first to the last, both included if the mantissa is even. -/
def interval (mantissa : Nat) (exponent : Int) : Nat × Nat :=
  (if mantissa = 1 <<< 52 ∧ minExponent < exponent then 4 * mantissa - 1 else 4 * mantissa - 2,
    4 * mantissa + 2)

/-- Looks for the fewest digits, from `count` digits on, that lie in the interval. The value is
`value / unit`, the ends of the interval are `low / unit` and `high / unit`, and the first digit
stands at the place `10 ^ (top - 1)`. Gives the digits and the place of the last one. -/
def shortestFrom (low value high unit : Nat) (closed : Bool) (top : Int) (count : Nat) :
    Nat → Nat × Int
  | 0 => (0, 0)
  | rounds + 1 =>
    let place := top - count
    -- both sides are multiplied so that the grid of this place becomes the natural numbers
    let (scale, grid) :=
      if 0 ≤ place then (1, unit * Nat.pow 10 place.toNat) else (Nat.pow 10 (-place).toNat, unit)
    let below := value * scale / grid
    let inside (c : Nat) : Bool :=
      if closed then low * scale ≤ c * grid && c * grid ≤ high * scale
      else low * scale < c * grid && c * grid < high * scale
    let belowIn := inside below
    let aboveIn := inside (below + 1)
    let twice := 2 * (value * scale % grid)
    if belowIn ∧ (¬aboveIn ∨ twice < grid ∨ (twice = grid ∧ below % 2 = 0)) then (below, place)
    else if aboveIn then (below + 1, place)
    else shortestFrom low value high unit closed top (count + 1) rounds

/-- The fewest digits that read back as `mantissa * 2 ^ exponent`, and the place of the last one. -/
def shortest (mantissa : Nat) (exponent : Int) : Nat × Int :=
  let (low, high) := interval mantissa exponent
  let e := exponent - 2
  let (factor, unit) := if 0 ≤ e then (1 <<< e.toNat, 1) else (1, 1 <<< (-e).toNat)
  let value := 4 * mantissa * factor
  let top : Int :=
    if unit ≤ value then (Nat.toDigits 10 (value / unit)).length
    else 1 - (Nat.toDigits 10 ((unit - 1) / value)).length
  shortestFrom (low * factor) value (high * factor) unit (mantissa % 2 = 0) top 1 20

/-- Digits with a decimal point; `place` is the place of the last digit. -/
def positional (digits : List Char) (place : Int) : List Char :=
  if 0 ≤ place then digits ++ List.replicate place.toNat '0' ++ ['.', '0']
  else
    let places := (-place).toNat
    let padded := List.replicate (places + 1 - digits.length) '0' ++ digits
    padded.take (padded.length - places) ++ '.' :: padded.drop (padded.length - places)

/-- The number in positional notation, with at least one digit on each side of the point. -/
def text : Binary64 → List Char
  | nan => "NaN".toList
  | infinite negative => (if negative then "-inf" else "inf").toList
  | finite negative mantissa exponent =>
    let sign := if negative then ['-'] else []
    if mantissa = 0 then sign ++ ['0', '.', '0']
    else
      let (digits, place) := shortest mantissa exponent
      sign ++ positional (Nat.toDigits 10 digits) place

end Binary64

end AssetBake.Toml

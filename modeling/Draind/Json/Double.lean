import Draind.Shared.Bytes
import Mathlib.Data.Nat.Log

namespace Draind.Json

-- A finite binary64 number, (-1)^neg * mant * 2^exp. A nonzero number has
-- mant in [2^52, 2^53), or below it with exp = -1074. Infinities and NaN do not
-- arise: stod throws instead.
structure Double where
  neg : Bool
  mant : Nat
  exp : Int
  deriving DecidableEq

-- numerator / denominator divided by base^exponent.
def scaleDown (base : Nat) (exponent : Int) (numerator denominator : Nat) : Nat × Nat :=
  if 0 ≤ exponent then (numerator, denominator * base ^ exponent.toNat)
  else (numerator * base ^ (-exponent).toNat, denominator)

def roundHalfEven (numerator denominator : Nat) : Nat :=
  let quotient := numerator / denominator
  let twice := 2 * (numerator % denominator)
  if denominator < twice ∨ (twice = denominator ∧ quotient % 2 = 1) then quotient + 1 else quotient

-- The largest k with 2^k at most numerator / denominator.
def floorLog2 (numerator denominator : Nat) : Int :=
  let k : Int := Nat.log 2 numerator - Nat.log 2 denominator
  let (n, d) := scaleDown 2 k numerator denominator
  if d ≤ n then k else k - 1

def nearestDouble (neg : Bool) (numerator denominator : Nat) : Double :=
  if numerator = 0 then ⟨neg, 0, -1074⟩
  else
    let exp := max (floorLog2 numerator denominator - 52) (-1074)
    let (n, d) := scaleDown 2 exp numerator denominator
    let mant := roundHalfEven n d
    if mant = 2 ^ 53 then ⟨neg, 2 ^ 52, exp + 1⟩ else ⟨neg, mant, exp⟩

-- A decimal numeral as strtod reads it: (-1)^neg * digits * 10^exp.
structure Numeral where
  neg : Bool
  digits : Nat
  exp : Int

-- The longest prefix strtod converts, on the texts parse_number collects. An
-- exponent mark without digits is left out of the conversion.
def scanNumeral (text : Bytes) : Option Numeral :=
  let neg := text.head? = some 45
  let (whole, text) := (if neg then text.tail else text).span isDigit
  let (fraction, text) := if text.head? = some 46 then text.tail.span isDigit else ([], text)
  let mark := text.head? = some 101 || text.head? = some 69
  let text := if mark then text.tail else []
  let down := text.head? = some 45
  let digits := (if down || text.head? = some 43 then text.tail else text).takeWhile isDigit
  let exponent : Int := if down then -(natOfDecimal digits : Int) else natOfDecimal digits
  if whole ++ fraction = [] then none
  else some ⟨neg, natOfDecimal (whole ++ fraction), exponent - fraction.length⟩

-- Below the smallest normal number, 2^-1022, also when rounded to 53 bits.
def isTiny (numerator denominator : Nat) : Bool :=
  let exp := floorLog2 numerator denominator - 52
  let (n, d) := scaleDown 2 exp numerator denominator
  exp < -1074 && !(exp = -1075 && roundHalfEven n d = 2 ^ 53)

-- Overflow, and an inexact result for a tiny numeral, set ERANGE, which stod turns
-- into out_of_range.
def stod (text : Bytes) : Except Exn Double :=
  match scanNumeral text with
  | none => .error (.invalidArgument (bytes "stod"))
  | some ⟨neg, digits, exp⟩ =>
      let (n, d) := scaleDown 10 (-exp) digits 1
      let value := nearestDouble neg n d
      let (n', d') := scaleDown 2 (-value.exp) value.mant 1
      let exact := n' * d = n * d'
      if 971 < value.exp ∨ (isTiny n d ∧ ¬exact) then .error (.outOfRange (bytes "stod"))
      else .ok value

-- (int64_t)d truncates. Out of range the conversion is undefined; x86-64 gives
-- the smallest integer.
def Double.toInt64 (value : Double) : Int64 :=
  let (n, d) := scaleDown 2 (-value.exp) value.mant 1
  let whole : Int := if value.neg then -(n / d : Nat) else (n / d : Nat)
  if whole < -2 ^ 63 ∨ 2 ^ 63 ≤ whole then Int64.minValue else Int64.ofInt whole

-- The largest k with 10^k at most numerator / denominator.
def floorLog10 (numerator denominator : Nat) : Int :=
  if denominator ≤ numerator then Nat.log 10 (numerator / denominator)
  else -(Nat.clog 10 ((denominator + numerator - 1) / numerator))

def stripZeros (digits : Bytes) : Bytes :=
  (digits.reverse.dropWhile (· = 48)).reverse

def withPoint (whole fraction : Bytes) : Bytes :=
  if fraction = [] then whole else whole ++ 46 :: fraction

-- printf's "%g": six significant digits, trailing zeros removed, in scientific
-- form when the decimal exponent is below -4 or at least 6.
def formatG (value : Double) : Bytes :=
  let sign := if value.neg then [45] else []
  if value.mant = 0 then sign ++ [48]
  else
    let (n, d) := scaleDown 2 (-value.exp) value.mant 1
    let x := floorLog10 n d
    let (n, d) := scaleDown 10 (x - 5) n d
    let rounded := roundHalfEven n d
    let (rounded, x) := if rounded = 10 ^ 6 then (10 ^ 5, x + 1) else (rounded, x)
    let digits := natDecimal rounded
    if x < -4 ∨ 6 ≤ x then
      let exponent := natDecimal x.natAbs
      sign ++ withPoint (digits.take 1) (stripZeros (digits.drop 1)) ++
        [101, if x < 0 then 45 else 43] ++ (if exponent.length < 2 then 48 :: exponent else exponent)
    else if 0 ≤ x then
      sign ++ withPoint (digits.take (x.toNat + 1)) (stripZeros (digits.drop (x.toNat + 1)))
    else
      sign ++ withPoint [48] (List.replicate ((-x).toNat - 1) 48 ++ stripZeros digits)

end Draind.Json

import Mathlib.Data.Nat.Digits.Defs

namespace Draind

-- std::string holds bytes. Nothing in the program decodes them as text.
abbrev Bytes := List UInt8

def bytes (literal : String) : Bytes :=
  literal.toUTF8.data.toList

-- The standard exceptions the program throws, each with the text of what().
-- outOfFuel is no exception of the program: it marks a recursion bound of the
-- model that was too small, and no bound the model uses is.
inductive Exn where
  | runtimeError (what : Bytes)
  | invalidArgument (what : Bytes)
  | outOfRange (what : Bytes)
  | outOfFuel
  deriving DecidableEq

def Exn.what : Exn → Bytes
  | runtimeError text => text
  | invalidArgument text => text
  | outOfRange text => text
  | outOfFuel => []

def isDigit (c : UInt8) : Bool :=
  48 ≤ c && c ≤ 57

-- isspace in the C locale, which strtol and operator>> skip.
def isSpace (c : UInt8) : Bool :=
  c = 32 || (9 ≤ c && c ≤ 13)

def digitValue (c : UInt8) : Nat :=
  c.toNat - 48

def natDecimal (n : Nat) : Bytes :=
  if n = 0 then [48] else (Nat.digits 10 n).reverse.map fun d => (48 + d).toUInt8

-- std::to_string on a signed integer.
def decimal (n : Int) : Bytes :=
  if n < 0 then 45 :: natDecimal n.natAbs else natDecimal n.natAbs

def natOfDecimal (digits : Bytes) : Nat :=
  digits.foldl (fun n c => 10 * n + digitValue c) 0

-- The integer strtol reads: blanks, a sign, then as many digits as follow.
-- Without a digit there is no conversion.
def scanInteger (text : Bytes) : Option Int :=
  let text := text.dropWhile isSpace
  let negative := text.head? = some 45
  let unsigned := if negative || text.head? = some 43 then text.tail else text
  let digits := unsigned.takeWhile isDigit
  if digits = [] then none
  else if negative then some (-(natOfDecimal digits : Int))
  else some (natOfDecimal digits)

def stoll (text : Bytes) : Except Exn Int64 :=
  match scanInteger text with
  | none => .error (.invalidArgument (bytes "stoll"))
  | some n =>
      if n < -2 ^ 63 ∨ 2 ^ 63 ≤ n then .error (.outOfRange (bytes "stoll")) else .ok (Int64.ofInt n)

def stoi (text : Bytes) : Except Exn Int32 :=
  match scanInteger text with
  | none => .error (.invalidArgument (bytes "stoi"))
  | some n =>
      if n < -2 ^ 31 ∨ 2 ^ 31 ≤ n then .error (.outOfRange (bytes "stoi")) else .ok (Int32.ofInt n)

end Draind

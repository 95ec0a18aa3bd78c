import Draind.Json.Value

namespace Draind.Json

abbrev quote : UInt8 := 34
abbrev backslash : UInt8 := 92
abbrev comma : UInt8 := 44
abbrev colon : UInt8 := 58
abbrev openBrace : UInt8 := 123
abbrev closeBrace : UInt8 := 125
abbrev openBracket : UInt8 := 91
abbrev closeBracket : UInt8 := 93
abbrev minus : UInt8 := 45

namespace Parser

-- The cursor p is the input from p on. A cursor past the end reads like one at
-- the end: every read of the source is guarded by p < end.
def isWs (c : UInt8) : Bool :=
  c = 32 || c = 9 || c = 13 || c = 10

def skipWs (p : Bytes) : Bytes :=
  p.dropWhile isWs

def peek (p : Bytes) : UInt8 :=
  p.headD 0

-- The character an escape stands for. An unknown escape is the character itself,
-- so \b, \f and \u lose their meaning.
def unescape (c : UInt8) : UInt8 :=
  if c = 110 then 10
  else if c = 114 then 13
  else if c = 116 then 9
  else c

def unterminated : Exn :=
  .runtimeError (bytes "json: unterminated string")

-- The loop of parse_string, after the opening quote.
def parseChars : Bytes → Except Exn (Bytes × Bytes)
  | [] => .error unterminated
  | c :: p =>
      if c = quote then .ok ([], p)
      else if c = backslash then
        match p with
        | [] => .error unterminated
        | escaped :: p => (parseChars p).map fun (s, p) => (unescape escaped :: s, p)
      else (parseChars p).map fun (s, p) => (c :: s, p)

def parseString (p : Bytes) : Except Exn (Bytes × Bytes) :=
  if peek p = quote then parseChars p.tail
  else .error (.runtimeError (bytes "json: expected '\"'"))

def parseNumber (p : Bytes) : Except Exn (Value × Bytes) :=
  let (sign, p) := if peek p = minus then ([minus], p.tail) else ([], p)
  let (whole, p) := p.span isDigit
  let (fraction, p) :=
    if peek p = 46 then
      let (digits, p) := p.tail.span isDigit
      (46 :: digits, p)
    else ([], p)
  let (exponent, p) :=
    if peek p = 101 ∨ peek p = 69 then
      let (direction, q) := if peek p.tail = 43 ∨ peek p.tail = minus then ([peek p.tail], p.tail.tail)
        else ([], p.tail)
      let (digits, q) := q.span isDigit
      (peek p :: direction ++ digits, q)
    else ([], p)
  let s := sign ++ whole ++ fraction ++ exponent
  if fraction = [] ∧ exponent = [] then (stoll s).map fun n => (.int n, p)
  else (stod s).map fun d => (.double d, p)

-- What parse_object does before its loop.
def parseObject (loop : List (Bytes × Value) → Bytes → Except Exn (Value × Bytes)) (p : Bytes) :
    Except Exn (Value × Bytes) :=
  let p := skipWs p.tail
  if peek p = closeBrace then .ok (.object [], p.tail) else loop [] p

def parseArray (loop : List Value → Bytes → Except Exn (Value × Bytes)) (p : Bytes) :
    Except Exn (Value × Bytes) :=
  let p := skipWs p.tail
  if peek p = closeBracket then .ok (.array [], p.tail) else loop [] p

-- The fuel bounds the recursion.
mutual

def parseValue : Nat → Bytes → Except Exn (Value × Bytes)
  | 0, _ => .error .outOfFuel
  | fuel + 1, p =>
      let p := skipWs p
      if p = [] then .error (.runtimeError (bytes "json: unexpected end"))
      else
        let c := peek p
        if c = quote then (parseString p).map fun (s, p) => (.string s, p)
        else if c = openBrace then parseObject (objectLoop fuel) p
        else if c = openBracket then parseArray (arrayLoop fuel) p
        else if c = 116 then .ok (.bool true, p.drop 4)
        else if c = 102 then .ok (.bool false, p.drop 5)
        else if c = 110 then .ok (.null, p.drop 4)
        else if c = minus ∨ isDigit c then parseNumber p
        else .error (.runtimeError (bytes "json: unexpected char: " ++ [c]))

def objectLoop : Nat → List (Bytes × Value) → Bytes → Except Exn (Value × Bytes)
  | 0, _, _ => .error .outOfFuel
  | fuel + 1, obj, p => do
      let (key, p) ← parseString (skipWs p)
      let p := skipWs p
      if peek p ≠ colon then .error (.runtimeError (bytes "json: expected ':'"))
      else
        let (value, p) ← parseValue fuel p.tail
        let obj := SortedMap.insert key value obj
        let p := skipWs p
        if peek p = closeBrace then .ok (.object obj, p.tail)
        else if peek p ≠ comma then .error (.runtimeError (bytes "json: expected ',' or '\x7d'"))
        else objectLoop fuel obj p.tail

def arrayLoop : Nat → List Value → Bytes → Except Exn (Value × Bytes)
  | 0, _, _ => .error .outOfFuel
  | fuel + 1, arr, p => do
      let (value, p) ← parseValue fuel p
      let arr := arr ++ [value]
      let p := skipWs p
      if peek p = closeBracket then .ok (.array arr, p.tail)
      else if peek p ≠ comma then .error (.runtimeError (bytes "json: expected ',' or ']'"))
      else arrayLoop fuel arr p.tail

end

-- Of two levels one consumes a byte, since a value of an array starts where the loop
-- does. So this much is enough.
def fuelFor (p : Bytes) : Nat :=
  2 * p.length + 1

theorem length_lt_fuelFor (p : Bytes) : p.length < fuelFor p := by
  unfold fuelFor
  omega

end Parser

-- What follows the first value is not looked at.
def parse (s : Bytes) : Except Exn Value :=
  (Parser.parseValue (Parser.fuelFor s) s).map Prod.fst

end Draind.Json

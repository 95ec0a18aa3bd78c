import Draind.Json.Parser

namespace Draind.Json

def escapeChar (c : UInt8) : Bytes :=
  if c = quote then [backslash, quote]
  else if c = backslash then [backslash, backslash]
  else if c = 10 then [backslash, 110]
  else if c = 13 then [backslash, 114]
  else if c = 9 then [backslash, 116]
  else [c]

def escape (s : Bytes) : Bytes :=
  quote :: s.flatMap escapeChar ++ [quote]

mutual

def dump : Value → Bytes
  | .null => bytes "null"
  | .bool b => if b then bytes "true" else bytes "false"
  | .int n => decimal n.toInt
  | .double d => formatG d
  | .string s => escape s
  | .array elements => openBracket :: dumpElements true elements ++ [closeBracket]
  | .object members => openBrace :: dumpMembers true members ++ [closeBrace]

def dumpElements (first : Bool) : List Value → Bytes
  | [] => []
  | e :: rest => (if first then [] else [comma]) ++ dump e ++ dumpElements false rest

def dumpMembers (first : Bool) : List (Bytes × Value) → Bytes
  | [] => []
  | (k, e) :: rest =>
      (if first then [] else [comma]) ++ escape k ++ colon :: dump e ++ dumpMembers false rest

end

def pad (indent depth : Nat) : Bytes :=
  List.replicate (depth * indent) 32

mutual

def dumpPrettyAt (indent depth : Nat) : Value → Bytes
  | .array [] => bytes "[]"
  | .array (e :: rest) =>
      bytes "[\n" ++ dumpPrettyElements indent depth (e :: rest) ++ pad indent depth ++ [closeBracket]
  | .object [] => bytes "\x7b\x7d"
  | .object (m :: rest) =>
      bytes "\x7b\n" ++ dumpPrettyMembers indent depth (m :: rest) ++ pad indent depth ++ [closeBrace]
  | v => dump v

-- Every element stands on a line of its own, with a comma after all but the last.
def dumpPrettyElements (indent depth : Nat) : List Value → Bytes
  | [] => []
  | e :: rest =>
      pad indent (depth + 1) ++ dumpPrettyAt indent (depth + 1) e ++
        (if rest = [] then [] else [comma]) ++ 10 :: dumpPrettyElements indent depth rest

def dumpPrettyMembers (indent depth : Nat) : List (Bytes × Value) → Bytes
  | [] => []
  | (k, v) :: rest =>
      pad indent (depth + 1) ++ escape k ++ bytes ": " ++ dumpPrettyAt indent (depth + 1) v ++
        (if rest = [] then [] else [comma]) ++ 10 :: dumpPrettyMembers indent depth rest

end

def dumpPretty (indent : Nat) (v : Value) : Bytes :=
  dumpPrettyAt indent 0 v ++ [10]

end Draind.Json

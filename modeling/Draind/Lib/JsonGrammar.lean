import Mathlib.Data.List.Basic

namespace Draind.Grammar

abbrev Octets := List UInt8

-- Space, tab, carriage return and line feed.
def isBlank (c : UInt8) : Bool :=
  c = 32 || c = 9 || c = 13 || c = 10

def isDecimal (c : UInt8) : Bool :=
  48 ≤ c && c ≤ 57

def Blank (text : Octets) : Prop :=
  ∀ c ∈ text, isBlank c = true

def Decimals (text : Octets) : Prop :=
  ∀ c ∈ text, isDecimal c = true

-- The parts of a number: no zero leads, and no point or exponent is without digits.
structure NumberForm (sign whole fraction exponent : Octets) : Prop where
  sign : sign = [] ∨ sign = [45]
  whole : whole = [48] ∨ ∃ d digits, whole = d :: digits ∧ d ≠ 48 ∧ Decimals (d :: digits)
  fraction : fraction = [] ∨ ∃ digits, fraction = 46 :: digits ∧ digits ≠ [] ∧ Decimals digits
  exponent : exponent = [] ∨ ∃ e direction digits, exponent = e :: direction ++ digits ∧
    (e = 101 ∨ e = 69) ∧ (direction = [] ∨ direction = [43] ∨ direction = [45]) ∧
    digits ≠ [] ∧ Decimals digits

def Number (text : Octets) : Prop :=
  ∃ sign whole fraction exponent, NumberForm sign whole fraction exponent ∧
    text = sign ++ whole ++ fraction ++ exponent

def Literal (text : Octets) : Prop :=
  text = [116, 114, 117, 101] ∨ text = [102, 97, 108, 115, 101] ∨ text = [110, 117, 108, 108]

-- What strings and containers stand for, and the texts of the tokens: scalars are
-- literals and numbers.
structure Meaning (V K : Type) where
  ofString : K → V
  ofArray : List V → V
  ofObject : List (K × V) → V

structure Tokens (V K : Type) where
  scalar : Octets → V → Prop
  string : Octets → K → Prop

-- An item is a value with the blanks around it.
inductive Part (V K : Type) where
  | value (v : V)
  | item (v : V)
  | elements (vs : List V)
  | members (ms : List (K × V))

variable {V K : Type}

-- The texts of the grammar over these tokens. A document is an item.
inductive Derives (M : Meaning V K) (G : Tokens V K) : Octets → Part V K → Prop where
  | scalar {t : Octets} {v : V} (h : G.scalar t v) : Derives M G t (.value v)
  | string {t : Octets} {k : K} (h : G.string t k) : Derives M G t (.value (M.ofString k))
  | emptyArray {b : Octets} (hb : Blank b) : Derives M G (91 :: b ++ [93]) (.value (M.ofArray []))
  | array {t : Octets} {vs : List V} (h : Derives M G t (.elements vs)) :
      Derives M G (91 :: t ++ [93]) (.value (M.ofArray vs))
  | emptyObject {b : Octets} (hb : Blank b) : Derives M G (123 :: b ++ [125]) (.value (M.ofObject []))
  | object {t : Octets} {ms : List (K × V)} (h : Derives M G t (.members ms)) :
      Derives M G (123 :: t ++ [125]) (.value (M.ofObject ms))
  | item {b t a : Octets} {v : V} (hb : Blank b) (h : Derives M G t (.value v)) (ha : Blank a) :
      Derives M G (b ++ t ++ a) (.item v)
  | element {t : Octets} {v : V} (h : Derives M G t (.item v)) : Derives M G t (.elements [v])
  | elements {t rest : Octets} {v : V} {vs : List V} (h : Derives M G t (.item v))
      (hr : Derives M G rest (.elements vs)) : Derives M G (t ++ 44 :: rest) (.elements (v :: vs))
  | member {b s a t : Octets} {k : K} {v : V} (hb : Blank b) (hk : G.string s k) (ha : Blank a)
      (h : Derives M G t (.item v)) : Derives M G (b ++ s ++ a ++ 58 :: t) (.members [(k, v)])
  | members {b s a t rest : Octets} {k : K} {v : V} {ms : List (K × V)} (hb : Blank b)
      (hk : G.string s k) (ha : Blank a) (h : Derives M G t (.item v))
      (hr : Derives M G rest (.members ms)) :
      Derives M G (b ++ s ++ a ++ 58 :: (t ++ 44 :: rest)) (.members ((k, v) :: ms))

end Draind.Grammar

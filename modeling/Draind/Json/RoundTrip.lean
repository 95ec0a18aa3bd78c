import Draind.Json.Dump
import Draind.Lib.Except
import Draind.Shared.Decimal

namespace Draind.Json

mutual

-- No double at any depth, and the members of every object as a map holds them.
def Plain : Value → Prop
  | .double _ => False
  | .array elements => PlainElements elements
  | .object members => (members.map Prod.fst).Pairwise (· < ·) ∧ PlainMembers members
  | _ => True

def PlainElements : List Value → Prop
  | [] => True
  | e :: rest => Plain e ∧ PlainElements rest

def PlainMembers : List (Bytes × Value) → Prop
  | [] => True
  | (_, v) :: rest => Plain v ∧ PlainMembers rest

end

namespace Parser

-- What may stand behind a value without becoming part of it.
def Ends (rest : Bytes) : Prop :=
  isDigit (peek rest) = false ∧ peek rest ≠ 46 ∧ peek rest ≠ 101 ∧ peek rest ≠ 69

theorem ends_of_head {c : UInt8} (rest : Bytes)
    (h : (isDigit c || c = 46 || c = 101 || c = 69) = false) : Ends (c :: rest) := by
  simpa [Ends, peek, not_or, and_assoc] using h

section Tokens

theorem skipWs_of_head {c : UInt8} (p : Bytes) (h : isWs c = false) : skipWs (c :: p) = c :: p := by
  simp [skipWs, h]

theorem parseChars_quote (p : Bytes) : parseChars (quote :: p) = .ok ([], p) := by
  rw [parseChars.eq_def]
  rfl

theorem parseChars_escaped (escaped : UInt8) (p : Bytes) :
    parseChars (backslash :: escaped :: p) =
      (parseChars p).map fun (s, p) => (unescape escaped :: s, p) := by
  rw [parseChars.eq_def]
  rfl

theorem parseChars_char (c : UInt8) (p : Bytes) (hq : c ≠ quote) (hb : c ≠ backslash) :
    parseChars (c :: p) = (parseChars p).map fun (s, p) => (c :: s, p) := by
  rw [parseChars.eq_def]
  simp [hq, hb]

theorem parseChars_escape (s rest : Bytes) :
    parseChars (s.flatMap escapeChar ++ quote :: rest) = .ok (s, rest) := by
  induction s with
  | nil => exact parseChars_quote rest
  | cons c s ih =>
      have hescaped : ∀ escaped, unescape escaped = c →
          parseChars (backslash :: escaped :: (s.flatMap escapeChar ++ quote :: rest)) =
            .ok (c :: s, rest) := by
        intro escaped he
        rw [parseChars_escaped, ih, ← he]
        rfl
      rw [List.flatMap_cons, List.append_assoc, escapeChar]
      split
      · rename_i h
        exact hescaped quote (by rw [h]; decide)
      split
      · rename_i h
        exact hescaped backslash (by rw [h]; decide)
      split
      · rename_i h
        exact hescaped 110 (by rw [h]; decide)
      split
      · rename_i h
        exact hescaped 114 (by rw [h]; decide)
      split
      · rename_i h
        exact hescaped 116 (by rw [h]; decide)
      · rename_i hq hb _ _ _
        rw [List.singleton_append, parseChars_char _ _ hq hb, ih]
        rfl

theorem parseString_escape (s rest : Bytes) : parseString (escape s ++ rest) = .ok (s, rest) := by
  have h := parseChars_escape s rest
  simpa [parseString, escape, peek] using h

theorem span_digits (digits rest : Bytes) (h : ∀ c ∈ digits, isDigit c = true)
    (hr : isDigit (peek rest) = false) : (digits ++ rest).span isDigit = (digits, rest) := by
  have hrest : rest.takeWhile isDigit = [] ∧ rest.dropWhile isDigit = rest := by
    cases rest with
    | nil => exact ⟨rfl, rfl⟩
    | cons c rest => simp [show isDigit c = false from hr]
  rw [List.span_eq_takeWhile_dropWhile, List.takeWhile_append_of_pos h, List.dropWhile_append_of_pos h,
    hrest.1, hrest.2, List.append_nil]

-- A number without fraction and exponent, with its sign split off.
theorem parseNumber_integer (sign digits rest : Bytes) (n : Int64)
    (hs : sign = [minus] ∨ sign = [] ∧ peek (digits ++ rest) ≠ minus)
    (hd : ∀ c ∈ digits, isDigit c = true) (hr : Ends rest) (hn : stoll (sign ++ digits) = .ok n) :
    parseNumber (sign ++ digits ++ rest) = .ok (.int n, rest) := by
  have hsign : (if peek (sign ++ digits ++ rest) = minus then ([minus], (sign ++ digits ++ rest).tail)
      else ([], sign ++ digits ++ rest)) = (sign, digits ++ rest) := by
    rcases hs with rfl | ⟨rfl, hm⟩
    · rfl
    · exact if_neg hm
  have hexponent : ¬(peek rest = 101 ∨ peek rest = 69) := not_or.mpr hr.2.2
  unfold parseNumber
  rw [hsign]
  dsimp only
  rw [span_digits digits rest hd hr.1]
  dsimp only
  rw [if_neg hr.2.1]
  dsimp only
  rw [if_neg hexponent]
  simp [hn, Except.map]

theorem parseNumber_decimal (n : Int64) (rest : Bytes) (hr : Ends rest) :
    parseNumber (decimal n.toInt ++ rest) = .ok (.int n, rest) := by
  have hll := stoll_decimal n
  obtain ⟨c, digits, hc⟩ := List.exists_cons_of_ne_nil (natDecimal_ne_nil n.toInt.natAbs)
  have hd := natDecimal_digits n.toInt.natAbs
  unfold decimal at hll ⊢
  split
  · rename_i hneg
    rw [if_pos hneg] at hll
    exact parseNumber_integer [minus] (natDecimal n.toInt.natAbs) rest n (.inl rfl) hd hr hll
  · rename_i hpos
    rw [if_neg hpos] at hll
    refine parseNumber_integer [] (natDecimal n.toInt.natAbs) rest n (.inr ⟨rfl, ?_⟩) hd hr hll
    rw [hc]
    exact (isDigit_cases c (hd c (by simp [hc]))).2.1

end Tokens

section Values

theorem decimal_head (n : Int) : ∃ c text, decimal n = c :: text ∧ (c = minus ∨ isDigit c = true) := by
  unfold decimal
  split
  · exact ⟨minus, _, rfl, .inl rfl⟩
  · obtain ⟨c, text, hc⟩ := List.exists_cons_of_ne_nil (natDecimal_ne_nil n.natAbs)
    exact ⟨c, text, hc, .inr (natDecimal_digits n.natAbs c (by simp [hc]))⟩

-- A character that starts a number starts nothing else.
theorem number_head (c : UInt8) (h : c = minus ∨ isDigit c = true) :
    isWs c = false ∧ c ≠ quote ∧ c ≠ openBrace ∧ c ≠ openBracket ∧ c ≠ closeBracket ∧
      c ≠ 116 ∧ c ≠ 102 ∧ c ≠ 110 := by
  rcases h with rfl | h
  · decide
  · have hne : ∀ d, isDigit d = false → c ≠ d := by
      rintro d hd rfl
      rw [hd] at h
      cases h
    refine ⟨?_, hne _ (by decide), hne _ (by decide), hne _ (by decide), hne _ (by decide),
      hne _ (by decide), hne _ (by decide), hne _ (by decide)⟩
    simp [isWs, hne 32 (by decide), hne 9 (by decide), hne 13 (by decide), hne 10 (by decide)]

-- Every text starts with a character of its own.
theorem dump_head (v : Value) (hv : Plain v) :
    ∃ c text, dump v = c :: text ∧ isWs c = false ∧ c ≠ closeBracket := by
  cases v with
  | null => exact ⟨_, _, rfl, by decide, by decide⟩
  | bool b => cases b <;> exact ⟨_, _, rfl, by decide, by decide⟩
  | string s => exact ⟨quote, _, rfl, by decide, by decide⟩
  | array elements => exact ⟨openBracket, _, by rw [dump]; rfl, by decide, by decide⟩
  | object members => exact ⟨openBrace, _, by rw [dump]; rfl, by decide, by decide⟩
  | double d => exact absurd hv id
  | int n =>
      obtain ⟨c, text, hc, h⟩ := decimal_head n.toInt
      obtain ⟨hws, -, -, -, hbracket, -⟩ := number_head c h
      exact ⟨c, text, by rw [dump, hc], hws, hbracket⟩

theorem dumpElements_false (e : Value) (rest : List Value) :
    dumpElements false (e :: rest) = comma :: dumpElements true (e :: rest) := by
  simp [dumpElements]

theorem dumpMembers_false (m : Bytes × Value) (rest : List (Bytes × Value)) :
    dumpMembers false (m :: rest) = comma :: dumpMembers true (m :: rest) := by
  simp [dumpMembers]

-- A member whose key is above all others goes to the end.
theorem insert_last (key : Bytes) (value : Value) (members : List (Bytes × Value))
    (h : ∀ m ∈ members, m.1 < key) : SortedMap.insert key value members = members ++ [(key, value)] := by
  induction members with
  | nil => rfl
  | cons m rest ih =>
      have hm : m.1 < key := h m (by simp)
      have hne : key ≠ m.1 := fun he => List.lt_irrefl _ (he ▸ hm)
      rw [SortedMap.insert, if_neg hne, if_neg (List.lt_asymm hm), ih fun m hm => h m (by simp [hm])]
      rfl

theorem parseValue_succ (fuel : Nat) (c : UInt8) (text : Bytes) (h : isWs c = false) :
    parseValue (fuel + 1) (c :: text) =
      if c = quote then (parseString (c :: text)).map fun (s, p) => (.string s, p)
      else if c = openBrace then parseObject (objectLoop fuel) (c :: text)
      else if c = openBracket then parseArray (arrayLoop fuel) (c :: text)
      else if c = 116 then .ok (.bool true, (c :: text).drop 4)
      else if c = 102 then .ok (.bool false, (c :: text).drop 5)
      else if c = 110 then .ok (.null, (c :: text).drop 4)
      else if c = minus ∨ isDigit c then parseNumber (c :: text)
      else .error (.runtimeError (bytes "json: unexpected char: " ++ [c])) := by
  rw [parseValue]
  simp only [skipWs_of_head text h, reduceCtorEq, if_false]
  rfl

theorem parseArray_loop (loop : List Value → Bytes → Except Exn (Value × Bytes)) (c : UInt8)
    (text : Bytes) (hws : isWs c = false) (hc : c ≠ closeBracket) :
    parseArray loop (openBracket :: c :: text) = loop [] (c :: text) := by
  simp only [parseArray, List.tail_cons, skipWs_of_head text hws, peek, List.headD_cons, if_neg hc]

theorem parseObject_loop (loop : List (Bytes × Value) → Bytes → Except Exn (Value × Bytes)) (c : UInt8)
    (text : Bytes) (hws : isWs c = false) (hc : c ≠ closeBrace) :
    parseObject loop (openBrace :: c :: text) = loop [] (c :: text) := by
  simp only [parseObject, List.tail_cons, skipWs_of_head text hws, peek, List.headD_cons, if_neg hc]

theorem skipWs_escape (s rest : Bytes) : skipWs (escape s ++ rest) = escape s ++ rest :=
  skipWs_of_head _ (by decide)

theorem parseValue_int (n : Int64) (fuel : Nat) (rest : Bytes) (hr : Ends rest) :
    parseValue (fuel + 1) (decimal n.toInt ++ rest) = .ok (.int n, rest) := by
  have hnumber := parseNumber_decimal n rest hr
  obtain ⟨c, text, hc, h⟩ := decimal_head n.toInt
  obtain ⟨hws, hq, hbrace, hbracket, -, ht, hf, hn⟩ := number_head c h
  rw [hc, List.cons_append] at hnumber ⊢
  rw [parseValue_succ fuel c _ hws, if_neg hq, if_neg hbrace, if_neg hbracket, if_neg ht, if_neg hf,
    if_neg hn, if_pos h, hnumber]

-- One turn of the loop over the members.
theorem objectLoop_member (k : Bytes) (v : Value) (fuel : Nat) (obj : List (Bytes × Value))
    (tail : Bytes) (he : parseValue fuel (dump v ++ tail) = .ok (v, tail)) :
    objectLoop (fuel + 1) obj (escape k ++ colon :: (dump v ++ tail)) =
      if peek (skipWs tail) = closeBrace then
        .ok (.object (SortedMap.insert k v obj), (skipWs tail).tail)
      else if peek (skipWs tail) ≠ comma then
        .error (.runtimeError (bytes "json: expected ',' or '\x7d'"))
      else objectLoop fuel (SortedMap.insert k v obj) (skipWs tail).tail := by
  have hcolon : isWs colon = false := by decide
  rw [objectLoop, skipWs_escape, parseString_escape]
  simp only [bind, Except.bind, skipWs_of_head _ hcolon, peek, List.headD_cons, List.tail_cons, he,
    ne_eq, not_true, if_false]

mutual

theorem parseValue_dump (v : Value) (hv : Plain v) (fuel : Nat) (rest : Bytes)
    (hf : (dump v).length < fuel) (hr : Ends rest) : parseValue fuel (dump v ++ rest) = .ok (v, rest) := by
  obtain ⟨fuel, rfl⟩ : ∃ n, fuel = n + 1 := ⟨fuel - 1, by omega⟩
  match v with
  | .null => exact parseValue_succ fuel 110 _ (by decide)
  | .bool true => exact parseValue_succ fuel 116 _ (by decide)
  | .bool false => exact parseValue_succ fuel 102 _ (by decide)
  | .double _ => exact absurd hv id
  | .int n => exact parseValue_int n fuel rest hr
  | .string s =>
    rw [dump, show escape s ++ rest = quote :: (s.flatMap escapeChar ++ [quote] ++ rest) from rfl,
      parseValue_succ fuel quote _ (by decide), if_pos rfl]
    rw [show quote :: (s.flatMap escapeChar ++ [quote] ++ rest) = escape s ++ rest from rfl,
      parseString_escape]
    rfl
  | .array [] => exact parseValue_succ fuel openBracket _ (by decide)
  | .array (e :: es) =>
    have hloop := arrayLoop_dump (e :: es) hv (by simp) fuel [] rest (by simp [dump] at hf ⊢; omega)
    obtain ⟨c, text, hc, hws, hclose⟩ := dump_head e hv.1
    have hdump : dump (.array (e :: es)) ++ rest =
        openBracket :: (dumpElements true (e :: es) ++ closeBracket :: rest) := by simp [dump]
    rw [hdump, parseValue_succ fuel openBracket _ (by decide)]
    simp only [dumpElements, hc, if_true, List.nil_append, List.cons_append] at hloop ⊢
    exact (parseArray_loop _ c _ hws hclose).trans hloop
  | .object [] => exact parseValue_succ fuel openBrace _ (by decide)
  | .object (m :: ms) =>
    have hloop := objectLoop_dump (m :: ms) hv.2 (by simp) fuel [] rest hv.1
      (by simp [dump] at hf ⊢; omega)
    have hdump : dump (.object (m :: ms)) ++ rest =
        openBrace :: (dumpMembers true (m :: ms) ++ closeBrace :: rest) := by simp [dump]
    rw [hdump, parseValue_succ fuel openBrace _ (by decide)]
    simp only [dumpMembers, escape, if_true, List.nil_append, List.cons_append] at hloop ⊢
    exact (parseObject_loop _ quote _ (by decide) (by decide)).trans hloop

theorem arrayLoop_dump (elements : List Value) (hv : PlainElements elements) (hne : elements ≠ [])
    (fuel : Nat) (arr : List Value) (rest : Bytes) (hf : (dumpElements true elements).length + 1 < fuel) :
    arrayLoop fuel arr (dumpElements true elements ++ closeBracket :: rest) =
      .ok (.array (arr ++ elements), rest) := by
  obtain ⟨fuel, rfl⟩ : ∃ n, fuel = n + 1 := ⟨fuel - 1, by omega⟩
  match elements with
  | [e] =>
    have he := parseValue_dump e hv.1 fuel (closeBracket :: rest)
      (by simp [dumpElements] at hf; omega) (ends_of_head rest (by decide))
    simp only [dumpElements, if_true, List.nil_append, List.append_nil]
    rw [arrayLoop, he]
    rfl
  | e :: e' :: es =>
    have he := parseValue_dump e hv.1 fuel (comma :: (dumpElements true (e' :: es) ++ closeBracket :: rest))
      (by simp [dumpElements] at hf; omega) (ends_of_head _ (by decide))
    have ih := arrayLoop_dump (e' :: es) hv.2 (by simp) fuel (arr ++ [e]) rest
      (by rw [dumpElements, dumpElements_false] at hf; simp at hf ⊢; omega)
    rw [dumpElements, dumpElements_false]
    simp only [if_true, List.nil_append, List.append_assoc, List.cons_append] at he ih ⊢
    rw [arrayLoop, he]
    exact ih

theorem objectLoop_dump (members : List (Bytes × Value)) (hv : PlainMembers members)
    (hne : members ≠ []) (fuel : Nat) (obj : List (Bytes × Value)) (rest : Bytes)
    (hs : ((obj ++ members).map Prod.fst).Pairwise (· < ·))
    (hf : (dumpMembers true members).length + 1 < fuel) :
    objectLoop fuel obj (dumpMembers true members ++ closeBrace :: rest) =
      .ok (.object (obj ++ members), rest) := by
  obtain ⟨fuel, rfl⟩ : ∃ n, fuel = n + 1 := ⟨fuel - 1, by omega⟩
  match members with
  | [] => exact absurd rfl hne
  | (k, v) :: ms =>
    have hinsert := insert_last k v obj (by
      simp only [List.map_append, List.pairwise_append] at hs
      exact fun m hm => hs.2.2 m.1 (List.mem_map_of_mem hm) k (by simp))
    cases ms with
    | nil =>
        have he := parseValue_dump v hv.1 fuel (closeBrace :: rest)
          (by simp [dumpMembers] at hf; omega) (ends_of_head rest (by decide))
        have hturn := objectLoop_member k v fuel obj (closeBrace :: rest) he
        simp only [dumpMembers, if_true, List.nil_append, List.append_nil, List.append_assoc,
          List.cons_append] at hturn ⊢
        rw [hturn, hinsert]
        rfl
    | cons m ms =>
        have he := parseValue_dump v hv.1 fuel
          (comma :: (dumpMembers true (m :: ms) ++ closeBrace :: rest))
          (by simp [dumpMembers] at hf; omega) (ends_of_head _ (by decide))
        have hturn := objectLoop_member k v fuel obj _ he
        have ih := objectLoop_dump (m :: ms) hv.2 (by simp) fuel (obj ++ [(k, v)]) rest
          (by simpa using hs) (by rw [dumpMembers, dumpMembers_false] at hf; simp at hf ⊢; omega)
        rw [dumpMembers, dumpMembers_false]
        simp only [if_true, List.nil_append, List.append_assoc, List.cons_append] at hturn ih ⊢
        rw [hturn, hinsert]
        exact ih

end

end Values

end Parser

section Newline

theorem decimal_notMem_newline (n : Int) : 10 ∉ decimal n := by
  have hd : 10 ∉ natDecimal n.natAbs := by
    intro h
    have := natDecimal_digits n.natAbs 10 h
    contradiction
  unfold decimal
  split
  · simpa using hd
  · exact hd

theorem escape_notMem_newline (s : Bytes) : 10 ∉ escape s := by
  have hchar : ∀ c, 10 ∉ escapeChar c := by
    intro c
    unfold escapeChar
    split_ifs with _ _ hnewline <;> first | decide | simpa using Ne.symm hnewline
  have hquote : (10 : UInt8) ≠ quote := by decide
  simp [escape, hchar, hquote]

mutual

-- One line carries the whole text.
theorem dump_notMem_newline (v : Value) (hv : Plain v) : 10 ∉ dump v := by
  match v with
  | .null => decide
  | .bool b => cases b <;> decide
  | .int n => exact decimal_notMem_newline n.toInt
  | .double _ => exact absurd hv id
  | .string s => exact escape_notMem_newline s
  | .array elements =>
    have h := dumpElements_notMem_newline true elements hv
    have hbrackets : (10 : UInt8) ≠ openBracket ∧ (10 : UInt8) ≠ closeBracket := by decide
    simp [dump, h, hbrackets]
  | .object members =>
    have h := dumpMembers_notMem_newline true members hv.2
    have hbraces : (10 : UInt8) ≠ openBrace ∧ (10 : UInt8) ≠ closeBrace := by decide
    simp [dump, h, hbraces]

theorem dumpElements_notMem_newline (first : Bool) (elements : List Value) (hv : PlainElements elements) :
    10 ∉ dumpElements first elements := by
  match elements with
  | [] => simp [dumpElements]
  | e :: rest =>
    have he := dump_notMem_newline e hv.1
    have hrest := dumpElements_notMem_newline false rest hv.2
    have hcomma : (10 : UInt8) ≠ comma := by decide
    cases first <;> simp [dumpElements, he, hrest, hcomma]

theorem dumpMembers_notMem_newline (first : Bool) (members : List (Bytes × Value))
    (hv : PlainMembers members) : 10 ∉ dumpMembers first members := by
  match members with
  | [] => simp [dumpMembers]
  | (k, v) :: rest =>
    have he := dump_notMem_newline v hv.1
    have hrest := dumpMembers_notMem_newline false rest hv.2
    have hk := escape_notMem_newline k
    have hmarks : (10 : UInt8) ≠ comma ∧ (10 : UInt8) ≠ colon := by decide
    cases first <;> simp [dumpMembers, he, hrest, hk, hmarks]

end

end Newline

-- What dump writes is read back, if it holds no double.
theorem parse_dump (v : Value) (hv : Plain v) : parse (dump v) = .ok v := by
  have h := Parser.parseValue_dump v hv (Parser.fuelFor (dump v)) [] (Parser.length_lt_fuelFor _)
    ⟨by decide, by decide, by decide, by decide⟩
  rw [List.append_nil] at h
  rw [parse, h]
  rfl

end Draind.Json

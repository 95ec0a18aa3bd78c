import Draind.Json.Reprint
import Draind.Lib.Descent

namespace Draind.Json

open Grammar

-- The escapes that documents use, each with the character it stands for.
def plainEscapes : List (UInt8 × UInt8) :=
  [(quote, quote), (backslash, backslash), (47, 47), (110, 10), (114, 13), (116, 9)]

-- The inside of a string and the bytes it stands for.
inductive Spelled : Bytes → Bytes → Prop where
  | nil : Spelled [] []
  | char (c : UInt8) {body s : Bytes} (hq : c ≠ quote) (hb : c ≠ backslash) (h : Spelled body s) :
      Spelled (c :: body) (c :: s)
  | escape {e c : UInt8} {body s : Bytes} (he : (e, c) ∈ plainEscapes) (h : Spelled body s) :
      Spelled (backslash :: e :: body) (c :: s)

-- A number without fraction and exponent.
def Integer (text : Bytes) (n : Int) : Prop :=
  ∃ sign whole, NumberForm sign whole [] [] ∧ text = sign ++ whole ∧
    n = if sign = [] then (natOfDecimal whole : Int) else -natOfDecimal whole

def documentTokens : Tokens Value Bytes where
  scalar text v :=
    text = bytes "true" ∧ v = .bool true ∨ text = bytes "false" ∧ v = .bool false ∨
      text = bytes "null" ∧ v = .null ∨
      ∃ n, Integer text n ∧ -2 ^ 63 ≤ n ∧ n < 2 ^ 63 ∧ v = .int (Int64.ofInt n)
  string text s := ∃ body, text = quote :: body ++ [quote] ∧ Spelled body s

namespace Parser

-- An object is the map of its members.
def meaning : Meaning Value Bytes where
  ofString := .string
  ofArray := .array
  ofObject := fun members => .object (SortedMap.ofList members)

-- The branches of parse_value for literals and numbers.
def readScalar (p : Bytes) : Option (Value × Bytes) :=
  if peek p = 116 then some (.bool true, p.drop 4)
  else if peek p = 102 then some (.bool false, p.drop 5)
  else if peek p = 110 then some (.null, p.drop 4)
  else if peek p = minus ∨ isDigit (peek p) then (parseNumber p).toOption
  else none

def readers : Readers Value Bytes where
  scalar := readScalar
  string := fun p => (parseString p).toOption

section Descent

theorem toOption_bind {α β : Type} (x : Except Exn α) (f : α → Except Exn β) :
    (x >>= f).toOption = x.toOption.bind fun a => (f a).toOption := by
  cases x <;> rfl

theorem toOption_map {α β : Type} (f : α → β) (x : Except Exn α) :
    (x.map f).toOption = x.toOption.map f := by
  cases x <;> rfl

theorem toOption_some_iff {α : Type} (x : Except Exn α) (a : α) : x.toOption = some a ↔ x = .ok a := by
  cases x <;> simp [Except.toOption]

theorem peek_eq_iff {p : Bytes} {c : UInt8} (hc : c ≠ 0) : peek p = c ↔ p.head? = some c := by
  cases p with
  | nil => simpa [peek] using hc.symm
  | cons d p => simp [peek]

-- The parser of the source is the one by recursive descent.
theorem descent (fuel : Nat) :
    (∀ p, (parseValue fuel p).toOption = value meaning readers fuel p) ∧
    (∀ ms p, (objectLoop fuel (SortedMap.ofList ms) p).toOption = members meaning readers fuel ms p) ∧
    (∀ vs p, (arrayLoop fuel vs p).toOption = elements meaning readers fuel vs p) := by
  have hskip : ∀ p, skipWs p = skip p := fun p => rfl
  induction fuel with
  | zero => exact ⟨fun p => rfl, fun ms p => rfl, fun vs p => rfl⟩
  | succ n ih =>
      obtain ⟨ihv, iho, iha⟩ := ih
      refine ⟨fun p => ?_, fun ms p => ?_, fun vs p => ?_⟩
      · rw [parseValue, value]
        dsimp only
        rw [hskip]
        cases skip p with
        | nil => rfl
        | cons c q =>
            have hpeek : peek (c :: q) = c := rfl
            rw [if_neg (List.cons_ne_nil c q), hpeek]
            dsimp only
            by_cases hs : c = quote
            · rw [if_pos hs, if_pos hs, toOption_map]
              rfl
            by_cases ho : c = openBrace
            · rw [if_neg hs, if_neg hs, if_pos ho, if_pos ho]
              simp only [parseObject, List.tail_cons, hskip, peek_eq_iff (show closeBrace ≠ 0 by decide), ← iho]
              split <;> rfl
            by_cases ha : c = openBracket
            · rw [if_neg hs, if_neg hs, if_neg ho, if_neg ho, if_pos ha, if_pos ha]
              simp only [parseArray, List.tail_cons, hskip, peek_eq_iff (show closeBracket ≠ 0 by decide), ← iha]
              split <;> rfl
            · rw [if_neg hs, if_neg hs, if_neg ho, if_neg ho, if_neg ha, if_neg ha]
              simp only [readers, readScalar, hpeek]
              split_ifs <;> rfl
      · rw [objectLoop, members, toOption_bind]
        congr 1
        funext r
        obtain ⟨k, p⟩ := r
        simp only [hskip, peek_eq_iff (show colon ≠ 0 by decide), ne_eq, ite_not]
        split
        · rw [toOption_bind, ihv]
          congr 1
          funext r
          obtain ⟨v, p⟩ := r
          simp only [peek_eq_iff (show closeBrace ≠ 0 by decide), peek_eq_iff (show comma ≠ 0 by decide),
            ← iho, SortedMap.ofList_concat]
          split
          · simp only [meaning, SortedMap.ofList_concat]
            rfl
          · split <;> rfl
        · rfl
      · rw [arrayLoop, elements, toOption_bind, ihv]
        congr 1
        funext r
        obtain ⟨v, p⟩ := r
        simp only [hskip, peek_eq_iff (show closeBracket ≠ 0 by decide), peek_eq_iff (show comma ≠ 0 by decide),
          ← iha, ne_eq, ite_not]
        split
        · rfl
        · split <;> rfl

end Descent

section Documents

theorem delimited_ends {rest : Bytes} (h : Delimited rest) : Ends rest := by
  cases rest with
  | nil => exact ⟨rfl, by decide, by decide, by decide⟩
  | cons c rest =>
      have hc : isWs c = true ∨ c = 44 ∨ c = 93 ∨ c = 125 := h c rfl
      simp only [isWs, Bool.or_eq_true, decide_eq_true_eq] at hc
      rcases hc with (((rfl | rfl) | rfl) | rfl) | rfl | rfl | rfl
      all_goals exact ends_of_head rest (by decide)

theorem parseChars_spelled {body s : Bytes} (h : Spelled body s) (rest : Bytes) :
    parseChars (body ++ quote :: rest) = .ok (s, rest) := by
  induction h with
  | nil => exact parseChars_quote rest
  | char c hq hb h ih =>
      rw [List.cons_append, parseChars_char c _ hq hb, ih]
      rfl
  | @escape e c body s he h ih =>
      have hc : unescape e = c := by
        simp only [plainEscapes, List.mem_cons, List.not_mem_nil, or_false, Prod.mk.injEq] at he
        rcases he with ⟨rfl, rfl⟩ | ⟨rfl, rfl⟩ | ⟨rfl, rfl⟩ | ⟨rfl, rfl⟩ | ⟨rfl, rfl⟩ | ⟨rfl, rfl⟩ <;> rfl
      rw [List.cons_append, List.cons_append, parseChars_escaped, ih, ← hc]
      rfl

theorem whole_digits {sign whole fraction exponent : Bytes} (h : NumberForm sign whole fraction exponent) :
    whole ≠ [] ∧ ∀ c ∈ whole, isDigit c = true := by
  rcases h.whole with rfl | ⟨d, digits, rfl, -, hd⟩
  · exact ⟨by simp, by simp [isDigit]⟩
  · exact ⟨by simp, hd⟩

-- What strtoll makes of a sign and digits.
theorem scanInteger_digits {sign digits : Bytes} (hs : sign = [] ∨ sign = [minus]) (hne : digits ≠ [])
    (hd : ∀ c ∈ digits, isDigit c = true) :
    scanInteger (sign ++ digits) =
      some (if sign = [] then (natOfDecimal digits : Int) else -natOfDecimal digits) := by
  have htake : digits.takeWhile isDigit = digits := List.takeWhile_eq_self_iff.mpr hd
  obtain ⟨c, rest, hc⟩ := List.exists_cons_of_ne_nil hne
  obtain ⟨hspace, hminus, hplus, -⟩ := isDigit_cases c (hd c (by simp [hc]))
  unfold scanInteger
  rcases hs with rfl | rfl
  · rw [hc] at htake ⊢
    simp [hspace, hminus, hplus, htake]
  · have hblank : isSpace minus = false := by decide
    simp [hblank, htake, hne]

theorem parseNumber_document {text : Bytes} {n : Int} (h : Integer text n) (hlo : -2 ^ 63 ≤ n)
    (hhi : n < 2 ^ 63) (rest : Bytes) (hr : Ends rest) :
    parseNumber (text ++ rest) = .ok (.int (Int64.ofInt n), rest) := by
  obtain ⟨sign, whole, hn, rfl, rfl⟩ := h
  obtain ⟨hne, hd⟩ := whole_digits hn
  have hstoll : stoll (sign ++ whole) =
      .ok (Int64.ofInt (if sign = [] then (natOfDecimal whole : Int) else -natOfDecimal whole)) := by
    rw [stoll, scanInteger_digits hn.sign hne hd]
    dsimp only
    rw [if_neg (by omega)]
  refine parseNumber_integer sign whole rest _ ?_ hd hr hstoll
  rcases hn.sign with rfl | rfl
  · obtain ⟨c, digits, rfl⟩ := List.exists_cons_of_ne_nil hne
    exact .inr ⟨rfl, (isDigit_cases c (hd c (by simp))).2.1⟩
  · exact .inl rfl

theorem number_starts {text : Bytes} (h : Number text) :
    ∃ c q, text = c :: q ∧ (c = minus ∨ isDigit c = true) := by
  obtain ⟨sign, whole, fraction, exponent, hn, rfl⟩ := h
  obtain ⟨hne, hd⟩ := whole_digits hn
  obtain ⟨c, digits, rfl⟩ := List.exists_cons_of_ne_nil hne
  rcases hn.sign with rfl | rfl
  · exact ⟨c, _, rfl, .inr (hd c (by simp))⟩
  · exact ⟨minus, _, rfl, .inl rfl⟩

theorem integer_number {text : Bytes} {n : Int} (h : Integer text n) : Number text := by
  obtain ⟨sign, whole, hn, rfl, -⟩ := h
  exact ⟨sign, whole, [], [], hn, by simp⟩

theorem readScalar_number {c : UInt8} (hc : c = minus ∨ isDigit c = true) (q : Bytes) :
    readScalar (c :: q) = (parseNumber (c :: q)).toOption := by
  obtain ⟨-, -, -, -, -, ht, hf, hn⟩ := number_head c hc
  have hpeek : peek (c :: q) = c := rfl
  simp [readScalar, hpeek, ht, hf, hn, hc]

theorem documents_complete : Complete readers documentTokens where
  scalar := by
    rintro text v rest (⟨rfl, rfl⟩ | ⟨rfl, rfl⟩ | ⟨rfl, rfl⟩ | ⟨n, hn, hlo, hhi, rfl⟩) hr
    · rfl
    · rfl
    · rfl
    · have hnumber := parseNumber_document hn hlo hhi rest (delimited_ends hr)
      obtain ⟨c, q, rfl, hc⟩ := number_starts (integer_number hn)
      exact (readScalar_number hc _).trans ((toOption_some_iff _ _).mpr hnumber)
  starts := by
    rintro text v (⟨rfl, rfl⟩ | ⟨rfl, rfl⟩ | ⟨rfl, rfl⟩ | ⟨n, hn, -⟩)
    · exact ⟨116, _, rfl, by decide⟩
    · exact ⟨102, _, rfl, by decide⟩
    · exact ⟨110, _, rfl, by decide⟩
    · obtain ⟨c, q, rfl, hc⟩ := number_starts (integer_number hn)
      obtain ⟨hws, hq, ho, ha, hclose, -⟩ := number_head c hc
      exact ⟨c, q, rfl, hws, hq, ho, ha, hclose⟩
  string := by
    rintro text s rest ⟨body, rfl, hs⟩
    refine (toOption_some_iff _ _).mpr ?_
    rw [List.append_assoc, List.cons_append]
    exact (if_pos rfl).trans (parseChars_spelled hs rest)
  quoted := by
    rintro text s ⟨body, rfl, -⟩
    exact ⟨_, rfl⟩

end Documents

end Parser

-- What documents denote. An object is a map with its keys in order, and of several
-- members with the same key the last one counts.
structure Denotation (M : Meaning Value Bytes) : Prop where
  ofString : ∀ s, M.ofString s = .string s
  ofArray : ∀ elements, M.ofArray elements = .array elements
  ofObject : ∀ members, ∃ entries, M.ofObject members = .object entries ∧
    (entries.map Prod.fst).Pairwise (· < ·) ∧ ∀ key, entries.lookup key = members.reverse.lookup key

theorem meaning_denotation : Denotation Parser.meaning where
  ofString _ := rfl
  ofArray _ := rfl
  ofObject members := ⟨_, rfl, SortedMap.ofList_sorted members, SortedMap.lookup_ofList members⟩

-- There is only one.
theorem Denotation.eq_meaning {M : Meaning Value Bytes} (hM : Denotation M) : M = Parser.meaning := by
  obtain ⟨ofString, ofArray, ofObject⟩ := M
  have hstring : ofString = .string := funext hM.ofString
  have harray : ofArray = .array := funext hM.ofArray
  have hobject : ofObject = fun members => .object (SortedMap.ofList members) := by
    funext members
    obtain ⟨entries, hentries, hsorted, hlookup⟩ := hM.ofObject members
    refine hentries.trans (congrArg Value.object (SortedMap.ext hsorted (SortedMap.ofList_sorted members) ?_))
    intro key
    rw [hlookup, SortedMap.lookup_ofList]
  rw [hstring, harray, hobject]
  rfl

-- A document is read as the value it denotes, and the cursor stops behind that value.
theorem document_read (M : Meaning Value Bytes) (hM : Denotation M) (b text a : Bytes) (v : Value)
    (hb : Blank b) (ht : Derives M documentTokens text (.value v)) (ha : Blank a) :
    Parser.parseValue (Parser.fuelFor (b ++ text ++ a)) (b ++ text ++ a) = .ok (v, a) ∧
      parse (b ++ text ++ a) = .ok v := by
  obtain rfl := hM.eq_meaning
  have hend : Delimited a := by
    have hnil : Delimited [] := by simp [Delimited]
    simpa using delimited_blank ha hnil
  have hread := Parser.documents_complete.reads ht (Parser.fuelFor (b ++ text ++ a)) b a hb
    (by simp only [Parser.fuelFor, List.length_append]; omega) hend
  rw [← List.append_assoc, ← (Parser.descent _).1, Parser.toOption_some_iff] at hread
  refine ⟨hread, ?_⟩
  rw [parse, hread]
  rfl

-- Of the two members of one key the second counts. The other key is a line feed.
def twice : Bytes :=
  bytes "\x7b\"a\" : 1,\"\\n\":[ ], \"a\":-0\x7d"

theorem document_read_twice :
    Parser.parseValue 57 (bytes "\n" ++ twice ++ bytes "\r") =
        .ok (.object [([10], .array []), ([97], .int 0)], bytes "\r") ∧
      parse (bytes "\n" ++ twice ++ bytes "\r") = .ok (.object [([10], .array []), ([97], .int 0)]) := by
  have hblank : ∀ c, isBlank c = true → Blank [c] := fun c hc => List.forall_mem_singleton.mpr hc
  have hnone : Blank [] := by simp [Blank]
  have hone : documentTokens.scalar [49] (.int 1) :=
    Or.inr (Or.inr (Or.inr ⟨1, ⟨[], [49], ⟨.inl rfl, .inr ⟨49, [], rfl, by decide,
      List.forall_mem_singleton.mpr rfl⟩, .inl rfl, .inl rfl⟩, rfl, rfl⟩, by decide, by decide, rfl⟩))
  have hzero : documentTokens.scalar [minus, 48] (.int 0) :=
    Or.inr (Or.inr (Or.inr ⟨0, ⟨[minus], [48], ⟨.inr rfl, .inl rfl, .inl rfl, .inl rfl⟩, rfl, rfl⟩,
      by decide, by decide, rfl⟩))
  have ha : documentTokens.string (bytes "\"a\"") [97] :=
    ⟨[97], rfl, .char 97 (by decide) (by decide) .nil⟩
  have hfeed : documentTokens.string (bytes "\"\\n\"") [10] := ⟨[backslash, 110], rfl, .escape (by decide) .nil⟩
  have hlast : Derives Parser.meaning documentTokens (bytes " \"a\":-0") (.members [([97], .int 0)]) :=
    .member (hblank 32 rfl) ha hnone (.item hnone (.scalar hzero) hnone)
  have hmiddle : Derives Parser.meaning documentTokens (bytes "\"\\n\":[ ], \"a\":-0")
      (.members [([10], .array []), ([97], .int 0)]) :=
    .members hnone hfeed hnone (.item hnone (.emptyArray (hblank 32 rfl)) hnone) hlast
  have hall : Derives Parser.meaning documentTokens (bytes "\"a\" : 1,\"\\n\":[ ], \"a\":-0")
      (.members [([97], .int 1), ([10], .array []), ([97], .int 0)]) :=
    .members hnone ha (hblank 32 rfl) (.item (hblank 32 rfl) (.scalar hone) hnone) hmiddle
  exact document_read Parser.meaning meaning_denotation (bytes "\n") twice (bytes "\r") _ (hblank 10 rfl)
    (.object hall) (hblank 13 rfl)

end Draind.Json

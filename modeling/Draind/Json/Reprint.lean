import Draind.Json.Numerals
import Mathlib.Data.List.DropRight

namespace Draind.Json

mutual

-- The members of every object as a map holds them.
def Ordered : Value → Prop
  | .array elements => OrderedElements elements
  | .object members => (members.map Prod.fst).Pairwise (· < ·) ∧ OrderedMembers members
  | _ => True

def OrderedElements : List Value → Prop
  | [] => True
  | e :: rest => Ordered e ∧ OrderedElements rest

def OrderedMembers : List (Bytes × Value) → Prop
  | [] => True
  | (_, v) :: rest => Ordered v ∧ OrderedMembers rest

end

mutual

-- What a value becomes when it is printed and read again. A numeral that strtod
-- finds out of range fails the whole.
def reprint : Value → Except Exn Value
  | .double d => reprintDouble d
  | .array elements => (reprintElements elements).map .array
  | .object members => (reprintMembers members).map .object
  | v => .ok v

def reprintElements : List Value → Except Exn (List Value)
  | [] => .ok []
  | e :: rest => do
      let e ← reprint e
      let rest ← reprintElements rest
      .ok (e :: rest)

def reprintMembers : List (Bytes × Value) → Except Exn (List (Bytes × Value))
  | [] => .ok []
  | (k, v) :: rest => do
      let v ← reprint v
      let rest ← reprintMembers rest
      .ok ((k, v) :: rest)

end

namespace Parser

section Blanks

theorem skipWs_blanks (blanks p : Bytes) (h : ∀ c ∈ blanks, isWs c = true) :
    skipWs (blanks ++ p) = skipWs p :=
  List.dropWhile_append_of_pos h

theorem pad_blank (indent depth : Nat) : ∀ c ∈ pad indent depth, isWs c = true := by
  intro c hc
  rw [(List.mem_replicate.mp hc).2]
  rfl

theorem skipWs_newline (p : Bytes) : skipWs (10 :: p) = skipWs p :=
  skipWs_blanks [10] p (List.forall_mem_singleton.mpr rfl)

theorem skipWs_skipWs (p : Bytes) : skipWs (skipWs p) = skipWs p :=
  List.dropWhile_idempotent isWs p

-- The parser does not see blanks before a value.
theorem parseValue_skip (fuel : Nat) (p : Bytes) :
    parseValue (fuel + 1) p = parseValue (fuel + 1) (skipWs p) := by
  rw [parseValue, parseValue, skipWs_skipWs]

end Blanks

section Pretty

variable (indent : Nat)

theorem dumpPrettyAt_scalar (depth : Nat) (v : Value) (ha : ∀ elements, v ≠ .array elements)
    (ho : ∀ members, v ≠ .object members) : dumpPrettyAt indent depth v = dump v := by
  cases v with
  | array elements => exact absurd rfl (ha elements)
  | object members => exact absurd rfl (ho members)
  | _ => rw [dumpPrettyAt.eq_def]

theorem dumpPrettyAt_head (depth : Nat) (v : Value) :
    ∃ c text, dumpPrettyAt indent depth v = c :: text ∧ isWs c = false ∧ c ≠ closeBracket := by
  cases v with
  | null => exact ⟨_, _, rfl, by decide, by decide⟩
  | bool b => cases b <;> exact ⟨_, _, rfl, by decide, by decide⟩
  | string s => exact ⟨quote, _, rfl, by decide, by decide⟩
  | array elements => cases elements <;> exact ⟨openBracket, _, by rw [dumpPrettyAt]; rfl, by decide, by decide⟩
  | object members => cases members <;> exact ⟨openBrace, _, by rw [dumpPrettyAt]; rfl, by decide, by decide⟩
  | double d =>
      obtain ⟨c, text, hc, h⟩ := formatG_head d
      obtain ⟨hws, -, -, -, hbracket, -⟩ := number_head c h
      refine ⟨c, text, ?_, hws, hbracket⟩
      rw [dumpPrettyAt_scalar indent depth _ (by simp) (by simp), dump, hc]
  | int n =>
      obtain ⟨c, text, hc, h⟩ := decimal_head n.toInt
      obtain ⟨hws, -, -, -, hbracket, -⟩ := number_head c h
      refine ⟨c, text, ?_, hws, hbracket⟩
      rw [dumpPrettyAt_scalar indent depth _ (by simp) (by simp), dump, hc]

theorem parseValue_double (d : Double) (fuel : Nat) (rest : Bytes) (hr : Ends rest) :
    parseValue (fuel + 1) (formatG d ++ rest) = (reprintDouble d).map fun v => (v, rest) := by
  have hnumber := parseNumber_formatG d rest hr
  obtain ⟨c, text, hc, h⟩ := formatG_head d
  obtain ⟨hws, hq, hbrace, hbracket, -, ht, hf, hn⟩ := number_head c h
  rw [hc, List.cons_append] at hnumber ⊢
  rw [parseValue_succ fuel c _ hws, if_neg hq, if_neg hbrace, if_neg hbracket, if_neg ht, if_neg hf,
    if_neg hn, if_pos h, hnumber]

theorem parseValue_string (s : Bytes) (fuel : Nat) (rest : Bytes) :
    parseValue (fuel + 1) (escape s ++ rest) = .ok (.string s, rest) := by
  have hs := parseString_escape s rest
  rw [show escape s ++ rest = quote :: (s.flatMap escapeChar ++ [quote] ++ rest) from rfl] at hs ⊢
  rw [parseValue_succ fuel quote _ (by decide), if_pos rfl, hs]
  rfl

-- One turn of a loop, with the last entry and with another behind it.
theorem arrayLoop_last (fuel : Nat) (arr : List Value) (p tail rest : Bytes) (r : Except Exn Value)
    (hv : parseValue fuel p = r.map fun v => (v, tail)) (ht : skipWs tail = closeBracket :: rest) :
    arrayLoop (fuel + 1) arr p = r.map fun v => (.array (arr ++ [v]), rest) := by
  rw [arrayLoop, hv]
  cases r with
  | error e => rfl
  | ok v => simp [bind, Except.bind, Except.map, ht, peek]

theorem arrayLoop_more (fuel : Nat) (arr : List Value) (p tail rest : Bytes) (r : Except Exn Value)
    (hv : parseValue fuel p = r.map fun v => (v, tail)) (ht : skipWs tail = comma :: rest) :
    arrayLoop (fuel + 1) arr p = r >>= fun v => arrayLoop fuel (arr ++ [v]) rest := by
  have hne : comma ≠ closeBracket := by decide
  rw [arrayLoop, hv]
  cases r with
  | error e => rfl
  | ok v => simp [bind, Except.bind, Except.map, ht, peek, hne]

theorem objectLoop_value (k : Bytes) (fuel : Nat) (obj : List (Bytes × Value)) (p text tail : Bytes)
    (hp : skipWs p = escape k ++ (bytes ": " ++ text)) (v : Value)
    (hv : parseValue fuel (32 :: text) = .ok (v, tail)) :
    objectLoop (fuel + 1) obj p =
      if peek (skipWs tail) = closeBrace then
        .ok (.object (SortedMap.insert k v obj), (skipWs tail).tail)
      else if peek (skipWs tail) ≠ comma then
        .error (.runtimeError (bytes "json: expected ',' or '\x7d'"))
      else objectLoop fuel (SortedMap.insert k v obj) (skipWs tail).tail := by
  have hcolon : skipWs (bytes ": " ++ text) = colon :: 32 :: text := skipWs_of_head _ (by decide)
  rw [objectLoop, hp, parseString_escape]
  simp only [bind, Except.bind, hcolon, peek, List.headD_cons, List.tail_cons, hv, ne_eq, not_true,
    if_false]

theorem objectLoop_error (k : Bytes) (fuel : Nat) (obj : List (Bytes × Value)) (p text : Bytes)
    (hp : skipWs p = escape k ++ (bytes ": " ++ text)) (e : Exn)
    (hv : parseValue fuel (32 :: text) = .error e) : objectLoop (fuel + 1) obj p = .error e := by
  have hcolon : skipWs (bytes ": " ++ text) = colon :: 32 :: text := skipWs_of_head _ (by decide)
  rw [objectLoop, hp, parseString_escape]
  simp only [bind, Except.bind, hcolon, peek, List.headD_cons, List.tail_cons, hv, ne_eq, not_true,
    if_false]

theorem objectLoop_last (k : Bytes) (fuel : Nat) (obj : List (Bytes × Value)) (p text tail rest : Bytes)
    (hp : skipWs p = escape k ++ (bytes ": " ++ text)) (r : Except Exn Value)
    (hv : parseValue fuel (32 :: text) = r.map fun v => (v, tail))
    (ht : skipWs tail = closeBrace :: rest) :
    objectLoop (fuel + 1) obj p = r.map fun v => (.object (SortedMap.insert k v obj), rest) := by
  cases r with
  | error e => exact objectLoop_error k fuel obj p text hp e hv
  | ok v =>
      rw [objectLoop_value k fuel obj p text tail hp v hv, ht]
      rfl

theorem objectLoop_more (k : Bytes) (fuel : Nat) (obj : List (Bytes × Value)) (p text tail rest : Bytes)
    (hp : skipWs p = escape k ++ (bytes ": " ++ text)) (r : Except Exn Value)
    (hv : parseValue fuel (32 :: text) = r.map fun v => (v, tail)) (ht : skipWs tail = comma :: rest) :
    objectLoop (fuel + 1) obj p = r >>= fun v => objectLoop fuel (SortedMap.insert k v obj) rest := by
  cases r with
  | error e => exact objectLoop_error k fuel obj p text hp e hv
  | ok v =>
      rw [objectLoop_value k fuel obj p text tail hp v hv, ht]
      rfl

-- The text of the loop from the text of one element, and what follows it.
theorem dumpPrettyElements_skip (depth : Nat) (e : Value) (rest : List Value) (after : Bytes) :
    skipWs (dumpPrettyElements indent depth (e :: rest) ++ after) =
      dumpPrettyAt indent (depth + 1) e ++
        ((if rest = [] then [] else [comma]) ++ 10 :: (dumpPrettyElements indent depth rest ++ after)) := by
  obtain ⟨c, text, hc, hws, -⟩ := dumpPrettyAt_head indent (depth + 1) e
  rw [dumpPrettyElements]
  simp only [List.append_assoc]
  rw [skipWs_blanks _ _ (pad_blank indent (depth + 1)), hc]
  exact skipWs_of_head _ hws

theorem dumpPrettyMembers_skip (depth : Nat) (k : Bytes) (v : Value) (rest : List (Bytes × Value))
    (after : Bytes) :
    skipWs (dumpPrettyMembers indent depth ((k, v) :: rest) ++ after) =
      escape k ++ (bytes ": " ++ (dumpPrettyAt indent (depth + 1) v ++
        ((if rest = [] then [] else [comma]) ++ 10 :: (dumpPrettyMembers indent depth rest ++ after)))) := by
  rw [dumpPrettyMembers]
  simp only [List.append_assoc]
  rw [skipWs_blanks _ _ (pad_blank indent (depth + 1)), skipWs_escape]
  simp

theorem skipWs_close (c : UInt8) (hc : isWs c = false) (depth : Nat) (rest : Bytes) :
    skipWs (10 :: (pad indent depth ++ c :: rest)) = c :: rest := by
  rw [skipWs_newline, skipWs_blanks _ _ (pad_blank indent depth)]
  exact skipWs_of_head rest hc

theorem dumpPrettyAt_array (depth : Nat) (e : Value) (es : List Value) (rest : Bytes) :
    dumpPrettyAt indent depth (.array (e :: es)) ++ rest = openBracket :: 10 ::
      (dumpPrettyElements indent depth (e :: es) ++ (pad indent depth ++ closeBracket :: rest)) := by
  simp [dumpPrettyAt, bytes]
  rfl

theorem dumpPrettyAt_object (depth : Nat) (m : Bytes × Value) (ms : List (Bytes × Value)) (rest : Bytes) :
    dumpPrettyAt indent depth (.object (m :: ms)) ++ rest = openBrace :: 10 ::
      (dumpPrettyMembers indent depth (m :: ms) ++ (pad indent depth ++ closeBrace :: rest)) := by
  simp [dumpPrettyAt, bytes]
  rfl

mutual

-- The parser reads back what dump_pretty writes, but for its doubles.
theorem parseValue_pretty (depth : Nat) (v : Value) (hv : Ordered v) (fuel : Nat) (p rest : Bytes)
    (hp : skipWs p = dumpPrettyAt indent depth v ++ rest)
    (hf : (dumpPrettyAt indent depth v).length < fuel) (hr : Ends rest) :
    parseValue fuel p = (reprint v).map fun v => (v, rest) := by
  obtain ⟨fuel, rfl⟩ : ∃ n, fuel = n + 1 := ⟨fuel - 1, by omega⟩
  rw [parseValue_skip, hp]
  match v with
  | .null => exact parseValue_succ fuel 110 _ (by decide)
  | .bool true => exact parseValue_succ fuel 116 _ (by decide)
  | .bool false => exact parseValue_succ fuel 102 _ (by decide)
  | .double d => exact parseValue_double d fuel rest hr
  | .int n => exact parseValue_int n fuel rest hr
  | .string s => exact parseValue_string s fuel rest
  | .array [] => exact parseValue_succ fuel openBracket _ (by decide)
  | .array (e :: es) =>
    have hopen := dumpPrettyAt_array indent depth e es rest
    have hlen : (dumpPrettyElements indent depth (e :: es)).length + 1 < fuel := by
      have := congrArg List.length hopen
      simp at this
      omega
    have hloop := arrayLoop_pretty depth (e :: es) hv (by simp) fuel [] _ rest (skipWs_skipWs _) hlen
    have hhead : peek (skipWs (dumpPrettyElements indent depth (e :: es) ++
        (pad indent depth ++ closeBracket :: rest))) ≠ closeBracket := by
      obtain ⟨c, text, hc, -, hclose⟩ := dumpPrettyAt_head indent (depth + 1) e
      rw [dumpPrettyElements_skip, hc]
      exact hclose
    have hparse := parseValue_succ fuel openBracket
      (10 :: (dumpPrettyElements indent depth (e :: es) ++ (pad indent depth ++ closeBracket :: rest)))
      (by decide)
    rw [hopen, hparse, if_neg (by decide), if_neg (by decide), if_pos rfl, parseArray, List.tail_cons,
      skipWs_newline]
    rw [if_neg hhead, hloop, reprint]
    cases reprintElements (e :: es) with
    | error x => rfl
    | ok elements => rfl
  | .object [] => exact parseValue_succ fuel openBrace _ (by decide)
  | .object (m :: ms) =>
    have hopen := dumpPrettyAt_object indent depth m ms rest
    have hlen : (dumpPrettyMembers indent depth (m :: ms)).length + 1 < fuel := by
      have := congrArg List.length hopen
      simp at this
      omega
    have hloop := objectLoop_pretty depth (m :: ms) hv.2 (by simp) fuel [] _ rest hv.1
      (skipWs_skipWs _) hlen
    have hhead : peek (skipWs (dumpPrettyMembers indent depth (m :: ms) ++
        (pad indent depth ++ closeBrace :: rest))) ≠ closeBrace := by
      rw [dumpPrettyMembers_skip]
      exact (by decide : quote ≠ closeBrace)
    have hparse := parseValue_succ fuel openBrace
      (10 :: (dumpPrettyMembers indent depth (m :: ms) ++ (pad indent depth ++ closeBrace :: rest)))
      (by decide)
    rw [hopen, hparse, if_neg (by decide), if_pos rfl, parseObject, List.tail_cons, skipWs_newline]
    rw [if_neg hhead, hloop, reprint]
    cases reprintMembers (m :: ms) with
    | error x => rfl
    | ok members => rfl

theorem arrayLoop_pretty (depth : Nat) (elements : List Value) (hv : OrderedElements elements)
    (hne : elements ≠ []) (fuel : Nat) (arr : List Value) (p rest : Bytes)
    (hp : skipWs p =
      skipWs (dumpPrettyElements indent depth elements ++ (pad indent depth ++ closeBracket :: rest)))
    (hf : (dumpPrettyElements indent depth elements).length + 1 < fuel) :
    arrayLoop fuel arr p = (reprintElements elements).map fun es => (.array (arr ++ es), rest) := by
  obtain ⟨fuel, rfl⟩ : ∃ n, fuel = n + 1 := ⟨fuel - 1, by omega⟩
  match elements with
  | [] => exact absurd rfl hne
  | e :: es =>
    rw [dumpPrettyElements_skip] at hp
    have hlen : (dumpPrettyAt indent (depth + 1) e).length + 1 +
        (dumpPrettyElements indent depth es).length < fuel := by
      simp [dumpPrettyElements] at hf
      omega
    have hvalue := parseValue_pretty (depth + 1) e hv.1 fuel p _ hp (by omega)
      (by split <;> exact ends_of_head _ (by decide))
    cases es with
    | nil =>
      have hclose := skipWs_close indent closeBracket (by decide) depth rest
      rw [arrayLoop_last fuel arr p _ rest _ hvalue (by simpa [dumpPrettyElements] using hclose)]
      simp only [reprintElements]
      cases reprint e with
      | error x => rfl
      | ok e' => rfl
    | cons e2 es =>
      have ih := fun arr => arrayLoop_pretty depth (e2 :: es) hv.2 (by simp) fuel arr
        (10 :: (dumpPrettyElements indent depth (e2 :: es) ++ (pad indent depth ++ closeBracket :: rest)))
        rest (skipWs_newline _) (by omega)
      rw [if_neg (by simp)] at hvalue
      rw [arrayLoop_more fuel arr p _ _ _ hvalue (skipWs_of_head _ (by decide)), reprintElements]
      simp only [List.append_eq, List.nil_append, ih]
      cases reprint e with
      | error x => rfl
      | ok e' =>
        show Except.map _ (reprintElements (e2 :: es)) = Except.map _ (_ >>= _)
        cases reprintElements (e2 :: es) with
        | error x => rfl
        | ok rest => simp [Except.map, bind, Except.bind]

theorem objectLoop_pretty (depth : Nat) (members : List (Bytes × Value)) (hv : OrderedMembers members)
    (hne : members ≠ []) (fuel : Nat) (obj : List (Bytes × Value)) (p rest : Bytes)
    (hs : ((obj ++ members).map Prod.fst).Pairwise (· < ·))
    (hp : skipWs p =
      skipWs (dumpPrettyMembers indent depth members ++ (pad indent depth ++ closeBrace :: rest)))
    (hf : (dumpPrettyMembers indent depth members).length + 1 < fuel) :
    objectLoop fuel obj p = (reprintMembers members).map fun ms => (.object (obj ++ ms), rest) := by
  obtain ⟨fuel, rfl⟩ : ∃ n, fuel = n + 1 := ⟨fuel - 1, by omega⟩
  match members with
  | [] => exact absurd rfl hne
  | (k, v) :: ms =>
    have hinsert := fun w => insert_last k w obj (by
      simp only [List.map_append, List.pairwise_append] at hs
      exact fun m hm => hs.2.2 m.1 (List.mem_map_of_mem hm) k (by simp))
    rw [dumpPrettyMembers_skip] at hp
    have hlen : (dumpPrettyAt indent (depth + 1) v).length + 1 +
        (dumpPrettyMembers indent depth ms).length < fuel := by
      simp [dumpPrettyMembers] at hf
      omega
    obtain ⟨c, text, hc, hws, -⟩ := dumpPrettyAt_head indent (depth + 1) v
    -- The blank behind the colon stands before the value's text.
    have hblank : ∀ after, skipWs (32 :: (dumpPrettyAt indent (depth + 1) v ++ after)) =
        dumpPrettyAt indent (depth + 1) v ++ after := by
      intro after
      rw [hc]
      exact (skipWs_blanks [32] _ (List.forall_mem_singleton.mpr rfl)).trans (skipWs_of_head _ hws)
    have hvalue := parseValue_pretty (depth + 1) v hv.1 fuel _
      ((if ms = [] then [] else [comma]) ++
        10 :: (dumpPrettyMembers indent depth ms ++ (pad indent depth ++ closeBrace :: rest)))
      (hblank _) (by omega) (by split <;> exact ends_of_head _ (by decide))
    cases ms with
    | nil =>
      have hclose := skipWs_close indent closeBrace (by decide) depth rest
      rw [objectLoop_last k fuel obj p _ _ rest hp _ hvalue (by simpa [dumpPrettyMembers] using hclose)]
      simp only [reprintMembers, hinsert]
      cases reprint v with
      | error x => rfl
      | ok v' => rfl
    | cons m ms =>
      rw [if_neg (by simp)] at hp hvalue
      rw [objectLoop_more k fuel obj p _ _ _ hp _ hvalue (skipWs_of_head _ (by decide)), reprintMembers]
      have ih := fun w => objectLoop_pretty depth (m :: ms) hv.2 (by simp) fuel (obj ++ [(k, w)])
        (10 :: (dumpPrettyMembers indent depth (m :: ms) ++ (pad indent depth ++ closeBrace :: rest)))
        rest (by simpa using hs) (skipWs_newline _) (by omega)
      simp only [List.append_eq, List.nil_append, hinsert, ih]
      cases reprint v with
      | error x => rfl
      | ok v' =>
        show Except.map _ (reprintMembers (m :: ms)) = Except.map _ (_ >>= _)
        cases reprintMembers (m :: ms) with
        | error x => rfl
        | ok rest => simp [Except.map, bind, Except.bind]

end

end Pretty

end Parser

mutual

-- The doubles of a value, at any depth.
def doubles : Value → List Double
  | .double d => [d]
  | .array elements => doublesElements elements
  | .object members => doublesMembers members
  | _ => []

def doublesElements : List Value → List Double
  | [] => []
  | e :: rest => doubles e ++ doublesElements rest

def doublesMembers : List (Bytes × Value) → List Double
  | [] => []
  | (_, v) :: rest => doubles v ++ doublesMembers rest

end

section Doubles

theorem doublesElements_iff (d : Double) (elements : List Value) :
    d ∈ doublesElements elements ↔ ∃ e ∈ elements, d ∈ doubles e := by
  induction elements with
  | nil => simp [doublesElements]
  | cons e rest ih => simp [doublesElements, ih]

theorem doublesMembers_iff (d : Double) (members : List (Bytes × Value)) :
    d ∈ doublesMembers members ↔ ∃ m ∈ members, d ∈ doubles m.2 := by
  induction members with
  | nil => simp [doublesMembers]
  | cons m rest ih => simp [doublesMembers, ih]

theorem doublesMembers_getObject (v : Value) : doublesMembers v.getObject ⊆ doubles v := by
  cases v with
  | object members => exact List.Subset.refl _
  | _ => exact List.nil_subset _

theorem mem_doubles_get (v : Value) (key : Bytes) (d : Double) (h : d ∈ doubles (v.get key)) :
    d ∈ doubles v := by
  unfold Value.get at h
  cases hl : v.getObject.lookup key with
  | none =>
      rw [hl] at h
      cases h
  | some field =>
      rw [hl] at h
      obtain ⟨first, rest, he, -⟩ := List.lookup_eq_some_iff.mp hl
      exact doublesMembers_getObject v ((doublesMembers_iff _ _).mpr ⟨(key, field), by simp [he], h⟩)

theorem mem_doubles_getArray (v e : Value) (he : e ∈ v.getArray) (d : Double) (h : d ∈ doubles e) :
    d ∈ doubles v := by
  cases v with
  | array elements => exact (doublesElements_iff _ _).mpr ⟨e, he, h⟩
  | _ => cases he

theorem mem_doubles_set (v : Value) (key : Bytes) (field : Value) (d : Double)
    (h : d ∈ doubles (v.set key field)) : d ∈ doubles field ∨ d ∈ doubles v := by
  obtain ⟨m, hm, hd⟩ := (doublesMembers_iff _ _).mp h
  rcases SortedMap.of_mem_insert hm with rfl | hm
  · exact .inl hd
  · exact .inr (doublesMembers_getObject v ((doublesMembers_iff _ _).mpr ⟨m, hm, hd⟩))

end Doubles

-- The printed value is read back, with or without the newline behind it.
theorem parse_dumpPretty (indent : Nat) (v : Value) (hv : Ordered v) :
    parse (dumpPrettyAt indent 0 v) = reprint v ∧ parse (dumpPretty indent v) = reprint v := by
  have h := fun fuel rest => Parser.parseValue_pretty indent 0 v hv fuel (dumpPrettyAt indent 0 v ++ rest) rest
  obtain ⟨c, text, hc, hws, -⟩ := Parser.dumpPrettyAt_head indent 0 v
  have hskip : ∀ rest, Parser.skipWs (dumpPrettyAt indent 0 v ++ rest) = dumpPrettyAt indent 0 v ++ rest := by
    intro rest
    rw [hc]
    exact Parser.skipWs_of_head _ hws
  have hnil := h (Parser.fuelFor (dumpPrettyAt indent 0 v)) [] (hskip []) (Parser.length_lt_fuelFor _)
    ⟨by decide, by decide, by decide, by decide⟩
  have hline := h (Parser.fuelFor (dumpPrettyAt indent 0 v ++ [10])) [10] (hskip [10])
    (by simp only [Parser.fuelFor, List.length_append]; omega)
    ⟨by decide, by decide, by decide, by decide⟩
  rw [List.append_nil] at hnil
  constructor
  · rw [parse, hnil]
    cases reprint v <;> rfl
  · rw [parse, dumpPretty, hline]
    cases reprint v <;> rfl

section Reading

mutual

theorem reprint_ok_iff (v : Value) :
    (∃ v', reprint v = .ok v') ↔ ∀ d ∈ doubles v, ∃ v', reprintDouble d = .ok v' := by
  match v with
  | .double d => simp [reprint, doubles]
  | .array elements =>
    have ih := reprintElements_ok_iff elements
    simp [reprint, doubles, map_ok_iff, ih]
  | .object members =>
    have ih := reprintMembers_ok_iff members
    simp [reprint, doubles, map_ok_iff, ih]
  | .null | .bool _ | .int _ | .string _ => simp [reprint, doubles]

theorem reprintElements_ok_iff (elements : List Value) :
    (∃ es, reprintElements elements = .ok es) ↔
      ∀ d ∈ doublesElements elements, ∃ v', reprintDouble d = .ok v' := by
  match elements with
  | [] => simp [reprintElements, doublesElements]
  | e :: rest =>
    have he := reprint_ok_iff e
    have ih := reprintElements_ok_iff rest
    simp only [doublesElements, List.mem_append, or_imp, forall_and, ← he, ← ih]
    simp [reprintElements, bind_ok_iff]

theorem reprintMembers_ok_iff (members : List (Bytes × Value)) :
    (∃ ms, reprintMembers members = .ok ms) ↔
      ∀ d ∈ doublesMembers members, ∃ v', reprintDouble d = .ok v' := by
  match members with
  | [] => simp [reprintMembers, doublesMembers]
  | (k, v) :: rest =>
    have he := reprint_ok_iff v
    have ih := reprintMembers_ok_iff rest
    simp only [doublesMembers, List.mem_append, or_imp, forall_and, ← he, ← ih]
    simp [reprintMembers, bind_ok_iff]

end

theorem reprintDouble_number (d : Double) (v : Value) (h : reprintDouble d = .ok v) :
    (∃ n, v = .int n) ∨ ∃ d', v = .double d' := by
  obtain ⟨⟨w, rest⟩, hp, rfl⟩ := (map_ok_iff _ _ _).mp h
  exact Parser.parseNumber_number _ w rest hp

theorem reprintElements_ok (elements es : List Value) (h : reprintElements elements = .ok es) :
    List.Forall₂ (fun e e' => reprint e = .ok e') elements es := by
  induction elements generalizing es with
  | nil =>
      cases h
      exact .nil
  | cons e rest ih =>
      obtain ⟨e', he, h⟩ := (bind_ok_iff _ _ _).mp h
      obtain ⟨rest', hrest, h⟩ := (bind_ok_iff _ _ _).mp h
      cases h
      exact .cons he (ih rest' hrest)

theorem reprintMembers_lookup (members ms : List (Bytes × Value)) (h : reprintMembers members = .ok ms)
    (key : Bytes) :
    members.lookup key = none ∧ ms.lookup key = none ∨
      ∃ v v', members.lookup key = some v ∧ ms.lookup key = some v' ∧ reprint v = .ok v' := by
  induction members generalizing ms with
  | nil =>
      cases h
      exact .inl ⟨rfl, rfl⟩
  | cons m rest ih =>
      obtain ⟨k, v⟩ := m
      obtain ⟨v', hv, h⟩ := (bind_ok_iff _ _ _).mp h
      obtain ⟨rest', hrest, h⟩ := (bind_ok_iff _ _ _).mp h
      cases h
      rw [lookup_cons_ite, lookup_cons_ite]
      split
      · exact .inr ⟨v, v', rfl, rfl, hv⟩
      · exact ih rest' hrest

-- Only an object becomes an object, only an array an array, only a string a string.
theorem reprint_ok_cases (v v' : Value) (h : reprint v = .ok v') :
    (∃ d, v = .double d ∧ reprintDouble d = .ok v') ∨
      (∃ elements es, v = .array elements ∧ reprintElements elements = .ok es ∧ v' = .array es) ∨
      (∃ members ms, v = .object members ∧ reprintMembers members = .ok ms ∧ v' = .object ms) ∨
      v' = v ∧ v.getArray = [] ∧ v.getObject = [] := by
  cases v with
  | double d => exact .inl ⟨d, rfl, h⟩
  | array elements =>
      obtain ⟨es, he, rfl⟩ := (map_ok_iff _ _ _).mp h
      exact .inr (.inl ⟨elements, es, rfl, he, rfl⟩)
  | object members =>
      obtain ⟨ms, hm, rfl⟩ := (map_ok_iff _ _ _).mp h
      exact .inr (.inr (.inl ⟨members, ms, rfl, hm, rfl⟩))
  | null | bool _ | int _ | string _ =>
      cases h
      exact .inr (.inr (.inr ⟨rfl, rfl, rfl⟩))

theorem reprint_getObject (v v' : Value) (h : reprint v = .ok v') :
    reprintMembers v.getObject = .ok v'.getObject := by
  rcases reprint_ok_cases v v' h with ⟨d, rfl, hd⟩ | ⟨elements, es, rfl, -, rfl⟩ |
    ⟨members, ms, rfl, hm, rfl⟩ | ⟨rfl, -, ho⟩
  · rcases reprintDouble_number d v' hd with ⟨n, rfl⟩ | ⟨d', rfl⟩ <;> rfl
  · rfl
  · exact hm
  · rw [ho]
    rfl

theorem reprint_getArray (v v' : Value) (h : reprint v = .ok v') :
    List.Forall₂ (fun e e' => reprint e = .ok e') v.getArray v'.getArray := by
  rcases reprint_ok_cases v v' h with ⟨d, rfl, hd⟩ | ⟨elements, es, rfl, he, rfl⟩ |
    ⟨members, ms, rfl, -, rfl⟩ | ⟨rfl, ha, -⟩
  · rcases reprintDouble_number d v' hd with ⟨n, rfl⟩ | ⟨d', rfl⟩ <;> exact .nil
  · exact reprintElements_ok elements es he
  · exact .nil
  · rw [ha]
    exact .nil

theorem reprint_getString (v v' : Value) (h : reprint v = .ok v') : v'.getString = v.getString := by
  rcases reprint_ok_cases v v' h with ⟨d, rfl, hd⟩ | ⟨elements, es, rfl, -, rfl⟩ |
    ⟨members, ms, rfl, -, rfl⟩ | ⟨rfl, -, -⟩
  · rcases reprintDouble_number d v' hd with ⟨n, rfl⟩ | ⟨d', rfl⟩ <;> rfl
  all_goals rfl

theorem reprint_get (v v' : Value) (h : reprint v = .ok v') (key : Bytes) :
    v'.has key = v.has key ∧ reprint (v.get key) = .ok (v'.get key) := by
  rcases reprintMembers_lookup _ _ (reprint_getObject v v' h) key with ⟨hn, hn'⟩ | ⟨w, w', hw, hw', hr⟩
  · exact ⟨by rw [Value.has, Value.has, hn, hn'], by rw [Value.get, Value.get, hn, hn']; rfl⟩
  · exact ⟨by rw [Value.has, Value.has, hw, hw']; rfl, by rw [Value.get, Value.get, hw, hw']; exact hr⟩

theorem reprint_str (v v' : Value) (h : reprint v = .ok v') (key default : Bytes) :
    v'.str key default = v.str key default := by
  obtain ⟨hhas, hget⟩ := reprint_get v v' h key
  rw [Value.str, Value.str, hhas, reprint_getString _ _ hget]

-- The integer a field holds, as 32 bits, outlives the printing.
def Kept (v : Value) (key : Bytes) : Prop :=
  ∀ d, v.get key = .double d → ∃ w, reprintDouble d = .ok w ∧ (w.getInt 0).toInt32 = d.toInt64.toInt32

theorem kept_iff (v v' : Value) (h : reprint v = .ok v') (key : Bytes) (default : Int64) :
    (v'.num key default).toInt32 = (v.num key default).toInt32 ↔ Kept v key := by
  obtain ⟨hhas, hget⟩ := reprint_get v v' h key
  have hdouble : ∀ d, v.get key = .double d → v.has key = true := by
    intro d hd
    unfold Value.get at hd
    unfold Value.has
    cases hl : v.getObject.lookup key with
    | none =>
        rw [hl] at hd
        cases hd
    | some _ => rfl
  rcases reprint_ok_cases _ _ hget with ⟨d, hd, hr⟩ | ⟨elements, es, hv, -, hv'⟩ |
    ⟨members, ms, hv, -, hv'⟩ | ⟨he, -, -⟩
  · have hint : ∀ w, reprintDouble d = .ok w → w.getInt default = w.getInt 0 := by
      intro w hw
      rcases reprintDouble_number d w hw with ⟨n, rfl⟩ | ⟨d', rfl⟩ <;> rfl
    rw [Value.num, Value.num, hhas, if_pos (hdouble d hd), if_pos (hdouble d hd), hd, hint _ hr]
    constructor
    · intro heq d' hd'
      cases hd.symm.trans hd'
      exact ⟨_, hr, heq⟩
    · intro hk
      obtain ⟨w, hw, heq⟩ := hk d hd
      cases hr.symm.trans hw
      exact heq
  · simp [Value.num, hhas, Kept, hv, hv', Value.getInt]
  · simp [Value.num, hhas, Kept, hv, hv', Value.getInt]
  · have hsame : v'.num key default = v.num key default := by rw [Value.num, Value.num, hhas, he]
    simp only [hsame, true_iff]
    intro d hd
    rw [he, hd] at hget
    exact ⟨_, hget, rfl⟩

end Reading

end Draind.Json

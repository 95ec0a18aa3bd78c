import Draind.Json.Fuel
import Draind.Lib.Nesting
import Draind.Lib.Reading

namespace Draind.Json.Pointer

open Draind.Json.Parser Grammar Reading

-- The parser with p as the index that it is, which the literals move past the end.
-- s is the text, and end its length. Each value in a container is read by a call from
-- within the call for the container, and room is how many such calls the stack holds
-- inside one another. A call beyond them ends the process.
abbrev Scan (β : Type) := Except (Stop Exn) β

def raise {β : Type} (e : Exn) : Scan β :=
  .error (.raised e)

def skipWs (s : Bytes) (p : Nat) : Scan Nat :=
  scanWhile s isWs p

def peek (s : Bytes) (p : Nat) : Scan UInt8 :=
  if p < s.length then read s p else .ok 0

-- The switch over the escaped character c, with p behind it. Its default reads it
-- once more.
def unescape (s : Bytes) (p : Nat) (c : UInt8) : Scan UInt8 :=
  if c = quote ∨ c = backslash ∨ c = 47 then .ok c
  else if c = 110 then .ok 10
  else if c = 114 then .ok 13
  else if c = 116 then .ok 9
  else readBack s p

-- The loop of parse_string.
def parseChars (s : Bytes) (t : Bytes) (p : Nat) : Scan (Bytes × Nat) :=
  if _h : p < s.length then do
    let c ← read s p
    if c = quote then .ok (t, p)
    else if c = backslash then
      if s.length ≤ p + 1 then .ok (t, p + 1)
      else do
        let escaped ← read s (p + 1)
        let c ← unescape s (p + 2) escaped
        parseChars s (t ++ [c]) (p + 2)
    else parseChars s (t ++ [c]) (p + 1)
  else .ok (t, p)
termination_by s.length - p

def parseString (s : Bytes) (p : Nat) : Scan (Bytes × Nat) := do
  let c ← peek s p
  if c ≠ quote then raise (.runtimeError (bytes "json: expected '\"'"))
  else
    let (t, p) ← parseChars s [] (p + 1)
    let closed ← sees s (· = quote) p
    if closed then .ok (t, p + 1) else raise unterminated

-- The two optional parts of a number. The first component is is_float.
def scanFraction (s : Bytes) (isFloat : Bool) (p : Nat) : Scan (Bool × Nat) := do
  let point ← sees s (· = 46) p
  if point then do
    let p ← scanWhile s isDigit (p + 1)
    .ok (true, p)
  else .ok (isFloat, p)

def scanExponent (s : Bytes) (isFloat : Bool) (p : Nat) : Scan (Bool × Nat) := do
  let exponent ← sees s (fun c => c = 101 || c = 69) p
  if exponent then do
    let signed ← sees s (fun c => c = 43 || c = minus) (p + 1)
    let p ← scanWhile s isDigit (if signed then p + 2 else p + 1)
    .ok (true, p)
  else .ok (isFloat, p)

def parseNumber (s : Bytes) (start : Nat) : Scan (Value × Nat) := do
  let c ← peek s start
  let p ← scanWhile s isDigit (if c = minus then start + 1 else start)
  let (isFloat, p) ← scanFraction s false p
  let (isFloat, p) ← scanExponent s isFloat p
  let text ← slice s start p
  if isFloat then (stod text).mapError .raised |>.map fun d => (.double d, p)
  else (stoll text).mapError .raised |>.map fun n => (.int n, p)

def parseObject (s : Bytes) (loop : List (Bytes × Value) → Nat → Scan (Value × Nat)) (p : Nat) :
    Scan (Value × Nat) := do
  let p ← skipWs s (p + 1)
  let c ← peek s p
  if c = closeBrace then .ok (.object [], p + 1) else loop [] p

def parseArray (s : Bytes) (loop : List Value → Nat → Scan (Value × Nat)) (p : Nat) :
    Scan (Value × Nat) := do
  let p ← skipWs s (p + 1)
  let c ← peek s p
  if c = closeBracket then .ok (.array [], p + 1) else loop [] p

mutual

def parseValue (s : Bytes) : Nat → Nat → Nat → Scan (Value × Nat)
  | 0, _, _ => raise .outOfFuel
  | _ + 1, 0, _ => .error .exhausted
  | fuel + 1, room + 1, p => do
      let p ← skipWs s p
      if s.length ≤ p then raise (.runtimeError (bytes "json: unexpected end"))
      else
        let c ← peek s p
        if c = quote then do
          let (t, p) ← parseString s p
          .ok (.string t, p)
        else if c = openBrace then parseObject s (objectLoop s fuel room) p
        else if c = openBracket then parseArray s (arrayLoop s fuel room) p
        else if c = 116 then .ok (.bool true, p + 4)
        else if c = 102 then .ok (.bool false, p + 5)
        else if c = 110 then .ok (.null, p + 4)
        else if c = minus ∨ isDigit c then parseNumber s p
        else raise (.runtimeError (bytes "json: unexpected char: " ++ [c]))

def objectLoop (s : Bytes) : Nat → Nat → List (Bytes × Value) → Nat → Scan (Value × Nat)
  | 0, _, _, _ => raise .outOfFuel
  | fuel + 1, room, obj, p => do
      let p ← skipWs s p
      let (key, p) ← parseString s p
      let p ← skipWs s p
      let c ← peek s p
      if c ≠ colon then raise (.runtimeError (bytes "json: expected ':'"))
      else
        let (value, p) ← parseValue s fuel room (p + 1)
        let obj := SortedMap.insert key value obj
        let p ← skipWs s p
        let c ← peek s p
        if c = closeBrace then .ok (.object obj, p + 1)
        else if c ≠ comma then raise (.runtimeError (bytes "json: expected ',' or '\x7d'"))
        else objectLoop s fuel room obj (p + 1)

def arrayLoop (s : Bytes) : Nat → Nat → List Value → Nat → Scan (Value × Nat)
  | 0, _, _, _ => raise .outOfFuel
  | fuel + 1, room, arr, p => do
      let (value, p) ← parseValue s fuel room p
      let arr := arr ++ [value]
      let p ← skipWs s p
      let c ← peek s p
      if c = closeBracket then .ok (.array arr, p + 1)
      else if c ≠ comma then raise (.runtimeError (bytes "json: expected ',' or ']'"))
      else arrayLoop s fuel room arr (p + 1)

end

def parse (room : Nat) (s : Bytes) : Scan Value :=
  (parseValue s (fuelFor s) room 0).map Prod.fst

-- A token ends where the parser is behind it.
abbrev tokens : Readers (List Bytes) (List Bytes) :=
  (scanner Numeral.converts).readers

-- How many values stand inside one another at most in the text, up to its first error.
def nesting (s : Bytes) : Nat :=
  depth listing tokens (fuelFor s) s

section Matching

variable (s : Bytes)

-- The parser over the rest and the grammar have the blanks skipped by the same function.
theorem skipWs_spec (p : Nat) :
    ∃ q, skipWs s p = .ok q ∧ Parser.skipWs (s.drop p) = s.drop q ∧ skip (s.drop p) = s.drop q := by
  obtain ⟨q, hq, hrest, -⟩ := scanWhile_spec (ε := Exn) (s := s) isWs p
  exact ⟨q, hq, hrest.symm, hrest.symm⟩

theorem peek_spec (p : Nat) : peek s p = .ok (Parser.peek (s.drop p)) := by
  unfold peek
  cases hp : s.drop p with
  | nil => exact if_neg (Nat.not_lt.mpr (List.drop_eq_nil_iff.mp hp))
  | cons c rest =>
      obtain ⟨hread, -, hlt⟩ := read_cons (ε := Exn) hp
      exact (if_pos hlt).trans hread

theorem drop_tail (p : Nat) : s.drop (p + 1) = (s.drop p).tail :=
  List.tail_drop.symm

theorem unescape_spec {p : Nat} {c : UInt8} {rest : Bytes} (h : s.drop p = c :: rest) :
    unescape s (p + 1) c = .ok (Parser.unescape c) := by
  obtain ⟨hread, -, -⟩ := read_cons (ε := Exn) h
  unfold unescape Parser.unescape
  split
  · rename_i hself
    rcases hself with rfl | rfl | rfl <;> rfl
  split
  · rfl
  split
  · rfl
  split
  · rfl
  · exact hread

def closeString (r : Bytes × Nat) : Scan (Bytes × Nat) := do
  let closed ← sees s (· = quote) r.2
  if closed then .ok (r.1, r.2 + 1) else raise unterminated

-- A character goes to the end of what was read before, or to the front of what follows.
theorem Matches.append_map {s t : Bytes} {c : UInt8} {r : Scan (Bytes × Nat)}
    {r' : Except Exn (Bytes × Bytes)} (h : Matches s r (r'.map fun (u, rest) => (t ++ [c] ++ u, rest))) :
    Matches s r ((r'.map fun (u, rest) => (c :: u, rest)).map fun (u, rest) => (t ++ u, rest)) := by
  cases r' with
  | error e => exact h
  | ok x => simpa [Except.map] using h

theorem parseChars_matches (rest : Bytes) :
    ∀ t p, s.drop p = rest → Matches s (parseChars s t p >>= closeString s)
      ((Parser.parseChars rest).map fun (u, rest) => (t ++ u, rest)) := by
  fun_induction Parser.parseChars rest with
  | case1 =>
      intro t p hp
      rw [parseChars, dif_neg (Nat.not_lt.mpr (List.drop_eq_nil_iff.mp hp)), ok_bind, closeString, sees_eq, hp]
      rfl
  | case2 rest =>
      intro t p hp
      obtain ⟨hread, hnext, hlt⟩ := read_cons (ε := Exn) hp
      rw [parseChars, dif_pos hlt, hread, ok_bind, if_pos rfl, ok_bind, closeString, sees_eq, hp, ok_bind]
      simp [Matches, Except.map, Except.mapError, hnext]
  | case3 hq =>
      intro t p hp
      obtain ⟨hread, hnext, hlt⟩ := read_cons (ε := Exn) hp
      have hend : s.length ≤ p + 1 := List.drop_eq_nil_iff.mp hnext
      rw [parseChars, dif_pos hlt, hread, ok_bind, if_neg hq, if_pos rfl, if_pos hend, ok_bind, closeString,
        sees_eq, hnext]
      rfl
  | case4 escaped rest hq ih =>
      intro t p hp
      obtain ⟨hread, hnext, hlt⟩ := read_cons (ε := Exn) hp
      obtain ⟨hescaped, hrest, hlt'⟩ := read_cons (ε := Exn) hnext
      rw [parseChars, dif_pos hlt, hread, ok_bind, if_neg hq, if_pos rfl, if_neg (Nat.not_le.mpr hlt'), hescaped,
        ok_bind, unescape_spec s hnext, ok_bind]
      exact Matches.append_map (ih (t ++ [Parser.unescape escaped]) (p + 2) hrest)
  | case5 c rest hq hb ih =>
      intro t p hp
      obtain ⟨hread, hnext, hlt⟩ := read_cons (ε := Exn) hp
      rw [parseChars, dif_pos hlt, hread, ok_bind, if_neg hq, if_neg hb]
      exact Matches.append_map (ih (t ++ [c]) (p + 1) hnext)

theorem parseString_matches (p : Nat) :
    Matches s (parseString s p) (Parser.parseString (s.drop p)) := by
  rw [parseString, peek_spec, ok_bind, Parser.parseString]
  by_cases hc : Parser.peek (s.drop p) = quote
  · rw [if_neg (not_not.mpr hc), if_pos hc, ← drop_tail]
    have h := parseChars_matches s (s.drop (p + 1)) [] (p + 1) rfl
    cases hr : Parser.parseChars (s.drop (p + 1)) with
    | error e =>
        rw [hr] at h
        exact h
    | ok x =>
        rw [hr] at h
        exact h
  · rw [if_pos hc, if_neg hc]
    exact .raised _

-- In a number p stays inside, so that the rest tells how far it has come.
structure Lands (p : Nat) (rest : Bytes) : Prop where
  rest : s.drop p = rest
  inside : p ≤ s.length

theorem Lands.next {p : Nat} {rest : Bytes} (h : Lands s p rest) (hne : rest ≠ []) :
    Lands s (p + 1) rest.tail := by
  obtain ⟨c, q, rfl⟩ := List.exists_cons_of_ne_nil hne
  obtain ⟨-, hnext, hlt⟩ := read_cons (ε := Exn) h.rest
  exact ⟨hnext, hlt⟩

theorem scanDigits_spec {p : Nat} {rest : Bytes} (h : Lands s p rest) :
    ∃ q, scanWhile (ε := Exn) s isDigit p = .ok q ∧ Lands s q (rest.span isDigit).2 := by
  obtain ⟨q, hq, hrest, hle⟩ := scanWhile_spec (ε := Exn) (s := s) isDigit p
  rw [h.rest] at hrest
  refine ⟨q, hq, ?_, hle h.inside⟩
  rw [hrest, List.span_eq_takeWhile_dropWhile]

theorem head_any_eq {rest : Bytes} {c : UInt8} (hc : c ≠ 0) :
    rest.head?.any (· = c) = decide (Parser.peek rest = c) := by
  cases rest with
  | nil => simp [Parser.peek, Ne.symm hc]
  | cons d rest => simp [Parser.peek]

theorem scanFraction_spec {p : Nat} {rest : Bytes} (h : Lands s p rest) :
    ∃ q, scanFraction s false p = .ok (decide ((Parser.scanFraction rest).1 ≠ []), q) ∧
      Lands s q (Parser.scanFraction rest).2 := by
  rw [scanFraction, sees_eq, h.rest, head_any_eq (by decide), ok_bind, Parser.scanFraction]
  by_cases hpoint : Parser.peek rest = 46
  · have hne : rest ≠ [] := by
      rintro rfl
      cases hpoint
    obtain ⟨q, hq, hlands⟩ := scanDigits_spec s (h.next s hne)
    simp only [hpoint, decide_true, if_true, hq, ok_bind]
    exact ⟨q, rfl, hlands⟩
  · simp only [hpoint, decide_false, if_false, Bool.false_eq_true]
    exact ⟨p, rfl, h⟩

theorem scanExponent_spec {p : Nat} {rest : Bytes} (isFloat : Bool) (h : Lands s p rest) :
    ∃ q, scanExponent s isFloat p = .ok (isFloat || decide ((Parser.scanExponent rest).1 ≠ []), q) ∧
      Lands s q (Parser.scanExponent rest).2 := by
  have hletter : rest.head?.any (fun c => c = 101 || c = 69) =
      decide (Parser.peek rest = 101 ∨ Parser.peek rest = 69) := by
    cases rest with
    | nil => rfl
    | cons c rest => simp [Parser.peek]
  rw [scanExponent, sees_eq, h.rest, hletter, ok_bind, Parser.scanExponent]
  by_cases hexponent : Parser.peek rest = 101 ∨ Parser.peek rest = 69
  · have hne : rest ≠ [] := by
      rintro rfl
      revert hexponent
      decide
    have hsign : rest.tail.head?.any (fun c => c = 43 || c = minus) =
        decide (Parser.peek rest.tail = 43 ∨ Parser.peek rest.tail = minus) := by
      cases rest.tail with
      | nil => rfl
      | cons c rest => simp [Parser.peek]
    have hafter := h.next s hne
    obtain ⟨q, hq, hlands⟩ : ∃ q, scanWhile (ε := Exn) s isDigit
        (if Parser.peek rest.tail = 43 ∨ Parser.peek rest.tail = minus then p + 2 else p + 1) = .ok q ∧
          Lands s q ((scanDirection rest.tail).2.span isDigit).2 := by
      unfold scanDirection
      split
      · rename_i hsigned
        have hne' : rest.tail ≠ [] := by
          intro hnil
          rw [hnil] at hsigned
          revert hsigned
          decide
        exact scanDigits_spec s (hafter.next s hne')
      · exact scanDigits_spec s hafter
    simp only [hexponent, decide_true, if_true, sees_eq, hafter.rest, hsign, ok_bind, decide_eq_true_eq, hq]
    exact ⟨q, by simp, hlands⟩
  · simp only [hexponent, decide_false, if_false, Bool.false_eq_true]
    exact ⟨p, by simp, h⟩

theorem scanSign_spec {p : Nat} {rest : Bytes} (h : Lands s p rest) :
    Lands s (if Parser.peek rest = minus then p + 1 else p) (scanSign rest).2 := by
  unfold scanSign
  split
  · rename_i hminus
    refine h.next s ?_
    rintro rfl
    cases hminus
  · exact h

theorem parseNumber_matches (p : Nat) (hp : p ≤ s.length) :
    Matches s (parseNumber s p) (Parser.parseNumber (s.drop p)) := by
  have hslice := (takeNumeral_split (s.drop p)).symm
  have h₀ := scanSign_spec s ⟨rfl, hp⟩
  rcases hsign : scanSign (s.drop p) with ⟨sign, rest₁⟩
  rw [hsign] at h₀
  obtain ⟨p₁, hp₁, h₁⟩ := scanDigits_spec s h₀
  rcases hwhole : rest₁.span isDigit with ⟨whole, rest₂⟩
  rw [hwhole] at h₁
  obtain ⟨p₂, hp₂, h₂⟩ := scanFraction_spec s h₁
  rcases hfraction : Parser.scanFraction rest₂ with ⟨fraction, rest₃⟩
  rw [hfraction] at hp₂ h₂
  obtain ⟨p₃, hp₃, h₃⟩ := scanExponent_spec s (decide (fraction ≠ [])) h₂
  rcases hexponent : Parser.scanExponent rest₃ with ⟨exponent, rest⟩
  rw [hexponent] at hp₃ h₃
  rw [takeNumeral_scan hsign hwhole hfraction hexponent] at hslice
  have htext := slice_eq (ε := Exn) hslice h₃.rest h₃.inside hp
  have hcode : parseNumber s p =
      if fraction = [] ∧ exponent = [] then
        ((stoll (sign ++ whole ++ fraction ++ exponent)).mapError .raised).map fun n => (.int n, p₃)
      else ((stod (sign ++ whole ++ fraction ++ exponent)).mapError .raised).map fun d => (.double d, p₃) := by
    simp only [parseNumber, peek_spec, ok_bind, hp₁, hp₂, hp₃, htext, Numeral.text]
    by_cases hf : fraction = [] <;> by_cases he : exponent = [] <;> simp [hf, he]
  have hrest : s.drop p₃ = rest := h₃.rest
  rw [hcode, parseNumber_scan hsign hwhole hfraction hexponent, ← hrest]
  split
  · exact .converted _ Value.int p₃
  · exact .converted _ Value.double p₃

end Matching

section Stacking

variable (s : Bytes)

-- What the two containers do before their loops.
theorem opened_stacked (close : UInt8) (hclose : close ≠ 0) (empty : Value) {room : Nat} {deep : Bytes → Nat}
    {loop : Nat → Scan (Value × Nat)} {loop' : Bytes → Except Exn (Value × Bytes)}
    (h : ∀ p, Stacked s room (deep (s.drop p)) (loop p) (loop' (s.drop p))) (p : Nat) :
    Stacked s room (if (skip (s.drop p).tail).head? = some close then 0 else deep (skip (s.drop p).tail))
      (do
        let p ← skipWs s (p + 1)
        let c ← peek s p
        if c = close then .ok (empty, p + 1) else loop p) (opened close empty loop' (s.drop p)) := by
  obtain ⟨q, hq, hrest, hskip⟩ := skipWs_spec s (p + 1)
  rw [drop_tail] at hrest hskip
  rw [hq, ok_bind, peek_spec, ok_bind, opened, hrest, hskip, if_congr (peek_eq_iff hclose).symm rfl rfl]
  split
  · rw [← drop_tail]
    exact .of_matches (.ok _ _) (Nat.zero_le room)
  · exact h q

-- How deep a loop goes on behind a value.
theorem behind_eq (loop : Bytes → Nat) (r : Except Exn (Value × Bytes)) :
    behind loop (r.toOption.map Prod.snd) =
      ahead (fun p => if Parser.peek (skip p) = comma then loop (skip p).tail else 0) r := by
  cases r with
  | error e => rfl
  | ok x => exact if_congr (peek_eq_iff (by decide)).symm rfl rfl

theorem elementsDepth_eq (fuel : Nat) (p : Bytes) :
    elementsDepth listing tokens (fuel + 1) p =
      max (depth listing tokens fuel p)
        (ahead (fun p => if Parser.peek (skip p) = comma then elementsDepth listing tokens fuel (skip p).tail else 0)
          (Parser.parseValue fuel p)) := by
  rw [elementsDepth, ← parseValue_taken, behind_eq]

theorem membersDepth_eq (fuel : Nat) (p : Bytes) :
    membersDepth listing tokens (fuel + 1) p =
      ahead (fun p =>
        if Parser.peek (skip p) = colon then
          max (depth listing tokens fuel (skip p).tail)
            (ahead (fun p => if Parser.peek (skip p) = comma then membersDepth listing tokens fuel (skip p).tail else 0)
              (Parser.parseValue fuel (skip p).tail))
        else 0) (Parser.parseString (skip p)) := by
  simp only [← behind_eq (membersDepth listing tokens fuel), parseValue_taken]
  rw [membersDepth, ← readString_taken]
  cases Parser.parseString (skip p) with
  | error e => rfl
  | ok x => exact if_congr (peek_eq_iff (by decide)).symm rfl rfl

-- What the two loops do behind a value.
theorem continued_stacked {close : UInt8} (hclose : close ≠ comma) (whole : Value) (e : Exn) {room : Nat}
    {deep : Bytes → Nat} {loop : Nat → Scan (Value × Nat)} {loop' : Bytes → Except Exn (Value × Bytes)}
    (h : ∀ p, Stacked s room (deep (s.drop p)) (loop p) (loop' (s.drop p))) (p : Nat) :
    Stacked s room (if Parser.peek (skip (s.drop p)) = comma then deep (skip (s.drop p)).tail else 0)
      (do
        let p ← skipWs s p
        let c ← peek s p
        if c = close then .ok (whole, p + 1) else if c ≠ comma then raise e else loop (p + 1))
      (if Parser.peek (skip (s.drop p)) = close then .ok (whole, (skip (s.drop p)).tail)
        else if Parser.peek (skip (s.drop p)) ≠ comma then .error e
        else loop' (skip (s.drop p)).tail) := by
  obtain ⟨q, hq, hrest, hskip⟩ := skipWs_spec s p
  rw [hq, ok_bind, peek_spec, ok_bind, hskip, ← drop_tail]
  by_cases hc : Parser.peek (s.drop q) = close
  · rw [if_pos hc, if_pos hc, if_neg (hc ▸ hclose)]
    exact .of_matches (.ok _ _) (Nat.zero_le room)
  by_cases hm : Parser.peek (s.drop q) = comma
  · rw [if_neg hc, if_neg hc, if_neg (not_not.mpr hm), if_neg (not_not.mpr hm), if_pos hm]
    exact h (q + 1)
  · rw [if_neg hc, if_neg hc, if_pos hm, if_pos hm, if_neg hm]
    exact .of_matches (.raised e) (Nat.zero_le room)

-- What each of the three does on every stack, given as much fuel.
structure Bounded (fuel : Nat) : Prop where
  value : ∀ room p, Stacked s room (depth listing tokens fuel (s.drop p)) (parseValue s fuel room p)
    (Parser.parseValue fuel (s.drop p))
  members : ∀ room obj p, Stacked s room (membersDepth listing tokens fuel (s.drop p))
    (objectLoop s fuel room obj p) (Parser.objectLoop fuel obj (s.drop p))
  elements : ∀ room arr p, Stacked s room (elementsDepth listing tokens fuel (s.drop p))
    (arrayLoop s fuel room arr p) (Parser.arrayLoop fuel arr (s.drop p))

variable {s} {fuel : Nat} (h : Bounded s fuel)

include h

theorem objectLoop_stacked (room : Nat) (obj : List (Bytes × Value)) (p : Nat) :
    Stacked s room (membersDepth listing tokens (fuel + 1) (s.drop p)) (objectLoop s (fuel + 1) room obj p)
      (Parser.objectLoop (fuel + 1) obj (s.drop p)) := by
  obtain ⟨q, hq, hrest, hskip⟩ := skipWs_spec s p
  rw [membersDepth_eq, objectLoop, Parser.objectLoop, hq, ok_bind, hrest, hskip]
  refine Stacked.after (parseString_matches s q) fun key p => ?_
  obtain ⟨q, hq, hrest, hskip⟩ := skipWs_spec s p
  dsimp only
  rw [hq, ok_bind, peek_spec, ok_bind, hrest, hskip, ← drop_tail]
  by_cases hcolon : Parser.peek (s.drop q) = colon
  · rw [if_pos hcolon, if_neg (not_not.mpr hcolon), if_neg (not_not.mpr hcolon)]
    refine (h.value room (q + 1)).bind fun value p => ?_
    exact continued_stacked s (by decide) _ _ (h.members room _) p
  · rw [if_neg hcolon, if_pos hcolon, if_pos hcolon]
    exact .of_matches (.raised _) (Nat.zero_le room)

theorem arrayLoop_stacked (room : Nat) (arr : List Value) (p : Nat) :
    Stacked s room (elementsDepth listing tokens (fuel + 1) (s.drop p)) (arrayLoop s (fuel + 1) room arr p)
      (Parser.arrayLoop (fuel + 1) arr (s.drop p)) := by
  rw [elementsDepth_eq, arrayLoop, Parser.arrayLoop]
  refine (h.value room p).bind fun value p => ?_
  exact continued_stacked s (by decide) _ _ (h.elements room _) p

theorem parseValue_stacked (room p : Nat) :
    Stacked s room (depth listing tokens (fuel + 1) (s.drop p)) (parseValue s (fuel + 1) room p)
      (Parser.parseValue (fuel + 1) (s.drop p)) := by
  cases room with
  | zero =>
      obtain ⟨d, hd⟩ := depth_succ listing tokens fuel (s.drop p)
      rw [hd, Stacked, if_neg (Nat.not_succ_le_zero d), parseValue]
  | succ room =>
      obtain ⟨q, hq, hrest, hskip⟩ := skipWs_spec s p
      rw [parseValue, Parser.parseValue, hq, ok_bind, hrest]
      dsimp only
      cases hp : s.drop q with
      | nil =>
          rw [if_pos (List.drop_eq_nil_iff.mp hp), if_pos rfl, depth_empty (hskip.trans hp)]
          exact .of_matches (.raised _) (Nat.le_add_left 1 room)
      | cons c rest =>
          have hlt : q < s.length := by
            obtain ⟨-, -, hlt⟩ := read_cons (ε := Exn) hp
            exact hlt
          have hpeek : Parser.peek (c :: rest) = c := rfl
          rw [if_neg (Nat.not_le.mpr hlt), if_neg (List.cons_ne_nil c rest), peek_spec, ok_bind, hp, hpeek]
          by_cases ho : c = openBrace
          · subst ho
            have hopened := opened_stacked s closeBrace (by decide) (.object []) (h.members room []) q
            rw [hp] at hopened
            rw [depth_object (hskip.trans hp)]
            exact hopened.call
          by_cases ha : c = openBracket
          · subst ha
            have hopened := opened_stacked s closeBracket (by decide) (.array []) (h.elements room []) q
            rw [hp] at hopened
            rw [depth_array (hskip.trans hp)]
            exact hopened.call
          rw [depth_single (hskip.trans hp) ho ha, if_neg ho, if_neg ho, if_neg ha, if_neg ha, ← hp]
          refine .of_matches ?_ (Nat.le_add_left 1 room)
          split
          · exact (parseString_matches s q).map Value.string
          split
          · rw [List.drop_drop]
            exact .ok _ _
          split
          · rw [List.drop_drop]
            exact .ok _ _
          split
          · rw [List.drop_drop]
            exact .ok _ _
          split
          · exact parseNumber_matches s q hlt.le
          · exact .raised _

end Stacking

theorem bounded (s : Bytes) (fuel : Nat) : Bounded s fuel := by
  induction fuel with
  | zero =>
      refine ⟨fun room p => ?_, fun room obj p => ?_, fun room arr p => ?_⟩
      · rw [parseValue]
        exact .of_matches (.raised _) (Nat.zero_le room)
      · rw [objectLoop]
        exact .of_matches (.raised _) (Nat.zero_le room)
      · rw [arrayLoop]
        exact .of_matches (.raised _) (Nat.zero_le room)
  | succ fuel ih => exact ⟨parseValue_stacked ih, objectLoop_stacked ih, arrayLoop_stacked ih⟩

-- With p as an index the parser gives what it gives with p as the rest of the text,
-- where the stack has room for it.
theorem parse_eq (room : Nat) (s : Bytes) :
    parse room s = if nesting s ≤ room then (Json.parse s).mapError .raised else .error .exhausted := by
  have hvalue := (bounded s (fuelFor s)).value room 0
  rw [List.drop_zero] at hvalue
  rw [parse]
  split
  · rename_i hroom
    rw [(hvalue.matches hroom).outcome]
    rfl
  · rename_i hroom
    rw [hvalue.exhausted (Nat.not_le.mp hroom)]
    rfl

-- The call returns with a value or throws an exception of the source.
def Settles (r : Scan Value) : Prop :=
  (∃ v, r = .ok v) ∨ ∃ e, e ≠ .outOfFuel ∧ r = .error (.raised e)

theorem not_settles_exhausted : ¬Settles (.error .exhausted) := by
  rintro (⟨v, hv⟩ | ⟨e, -, he⟩)
  · cases hv
  · cases he

-- No byte outside of the text is read, and every text has a value or an exception that
-- the stack is deep enough for.
theorem parse_inside_iff (room : Nat) (s : Bytes) :
    parse room s ≠ .error .outside ∧ (Settles (parse room s) ↔ nesting s ≤ room) := by
  rw [parse_eq]
  by_cases hroom : nesting s ≤ room
  · rw [if_pos hroom]
    cases hr : Json.parse s with
    | ok v => exact ⟨by rintro ⟨⟩, iff_of_true (.inl ⟨v, rfl⟩) hroom⟩
    | error e =>
        have hfuel : e ≠ .outOfFuel := by
          rintro rfl
          exact parse_fueled s hr
        exact ⟨by rintro ⟨⟩, iff_of_true (.inr ⟨e, hfuel, rfl⟩) hroom⟩
  · rw [if_neg hroom]
    exact ⟨by rintro ⟨⟩, iff_of_false not_settles_exhausted hroom⟩

-- As many opening brackets as the stack has room for are one too many, since a value is
-- expected behind the last.
theorem parse_brackets (room : Nat) :
    parse room (List.replicate room openBracket) = .error .exhausted := by
  have hdeep : room < nesting (List.replicate room openBracket) := by
    refine lt_depth_replicate room _ ?_
    rw [fuelFor, List.length_replicate]
    exact Nat.lt_succ_self _
  rw [parse_eq, if_neg (Nat.not_le.mpr hdeep)]

theorem parse_deep : ¬Settles (parse 40000 (List.replicate 40000 openBracket)) := by
  rw [parse_brackets]
  exact not_settles_exhausted

-- The literal moves the cursor three bytes past the end, where the loop looks for a comma.
example : parse 4 (bytes "[[[t") = .error (.raised (.runtimeError (bytes "json: expected ',' or ']'"))) := by
  rw [parse_eq]
  rfl

end Draind.Json.Pointer

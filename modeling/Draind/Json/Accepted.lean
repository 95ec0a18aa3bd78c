import Draind.Json.Documents
import Draind.Json.Strings
import Draind.Lib.Lexemes

namespace Draind.Json

open Grammar

def lexicon : Lexicon where
  scalar t := Literal t ∨ Number t
  string := StringLiteral

-- Blanks, one value, blanks and nothing else.
def IsJson (s : Bytes) : Prop :=
  lexicon.Text s

namespace Parser

-- The text parse_number hands to stoll or stod, by its parts.
structure Numeral where
  sign : Bytes
  whole : Bytes
  fraction : Bytes
  exponent : Bytes

def Numeral.text (n : Numeral) : Bytes :=
  n.sign ++ n.whole ++ n.fraction ++ n.exponent

def Numeral.converts (n : Numeral) : Bool :=
  if n.fraction = [] ∧ n.exponent = [] then (stoll n.text).isOk else (stod n.text).isOk

def takeNumeral (p : Bytes) : Numeral × Bytes :=
  let (sign, p) := scanSign p
  let (whole, p) := p.span isDigit
  let (fraction, p) := scanFraction p
  let (exponent, p) := scanExponent p
  (⟨sign, whole, fraction, exponent⟩, p)

-- A literal is taken by its length, whatever is there.
def takeScalar (accept : Numeral → Bool) (p : Bytes) : Option (Bytes × Bytes) :=
  if peek p = 116 then some (p.take 4, p.drop 4)
  else if peek p = 102 then some (p.take 5, p.drop 5)
  else if peek p = 110 then some (p.take 4, p.drop 4)
  else if peek p = minus ∨ isDigit (peek p) then
    if accept (takeNumeral p).1 then some ((takeNumeral p).1.text, (takeNumeral p).2) else none
  else none

-- Up to the quotation mark that no backslash stands before.
def takeChars : Bytes → Option (Bytes × Bytes)
  | [] => none
  | c :: p =>
      if c = quote then some ([quote], p)
      else if c = backslash then
        match p with
        | [] => none
        | escaped :: p => (takeChars p).map fun (t, p) => (backslash :: escaped :: t, p)
      else (takeChars p).map fun (t, p) => (c :: t, p)

def takeString (p : Bytes) : Option (Bytes × Bytes) :=
  if peek p = quote then (takeChars p.tail).map fun (t, p) => (quote :: t, p) else none

def scanner (accept : Numeral → Bool) : Scanner where
  scalar := takeScalar accept
  string := takeString

-- The tokens parse gets through, and what it leaves behind the value.
def taken (s : Bytes) : Option (List Bytes × Bytes) :=
  value listing (scanner Numeral.converts).readers (fuelFor s) s

section Taking

theorem span_split (p : Bytes) : (p.span isDigit).1 ++ (p.span isDigit).2 = p := by
  rw [List.span_eq_takeWhile_dropWhile]
  exact List.takeWhile_append_dropWhile

theorem cons_of_peek {p : Bytes} {c : UInt8} (hc : c ≠ 0) (h : peek p = c) : p = c :: p.tail :=
  eq_cons_of_head ((peek_eq_iff hc).mp h)

theorem scanSign_split (p : Bytes) : (scanSign p).1 ++ (scanSign p).2 = p := by
  unfold scanSign
  split
  · rename_i h
    exact (cons_of_peek (by decide) h).symm
  · rfl

theorem scanFraction_split (p : Bytes) : (scanFraction p).1 ++ (scanFraction p).2 = p := by
  unfold scanFraction
  split
  · rename_i h
    rw [List.cons_append, span_split]
    exact (cons_of_peek (by decide) h).symm
  · rfl

theorem scanDirection_split (p : Bytes) : (scanDirection p).1 ++ (scanDirection p).2 = p := by
  unfold scanDirection
  split
  · rename_i h
    rcases h with h | h
    · rw [h]
      exact (cons_of_peek (by decide) h).symm
    · rw [h]
      exact (cons_of_peek (by decide) h).symm
  · rfl

theorem scanExponent_split (p : Bytes) : (scanExponent p).1 ++ (scanExponent p).2 = p := by
  unfold scanExponent
  split
  · rename_i h
    have hp : peek p :: p.tail = p := by
      rcases h with h | h
      · rw [h]
        exact (cons_of_peek (by decide) h).symm
      · rw [h]
        exact (cons_of_peek (by decide) h).symm
    dsimp only
    rw [List.append_assoc, span_split, List.cons_append, scanDirection_split, hp]
  · rfl

theorem takeNumeral_scan {p p₁ p₂ p₃ rest sign whole fraction exponent : Bytes}
    (hsign : scanSign p = (sign, p₁)) (hwhole : p₁.span isDigit = (whole, p₂))
    (hfraction : scanFraction p₂ = (fraction, p₃)) (hexponent : scanExponent p₃ = (exponent, rest)) :
    takeNumeral p = (⟨sign, whole, fraction, exponent⟩, rest) := by
  simp only [takeNumeral, hsign, hwhole, hfraction, hexponent]

theorem takeNumeral_split (p : Bytes) : (takeNumeral p).1.text ++ (takeNumeral p).2 = p := by
  simp only [takeNumeral, Numeral.text, List.append_assoc, scanExponent_split, scanFraction_split, span_split,
    scanSign_split]

theorem numeral_ne_nil {p : Bytes} (h : peek p = minus ∨ isDigit (peek p) = true) :
    (takeNumeral p).1.text ≠ [] := by
  rcases h with hm | hd
  · simp [takeNumeral, Numeral.text, scanSign, hm]
  · have hm : peek p ≠ minus := (isDigit_cases _ hd).2.1
    cases p with
    | nil => exact absurd hd (by decide)
    | cons c p =>
        have hc : isDigit c = true := hd
        simp [takeNumeral, Numeral.text, scanSign, hm, List.span_eq_takeWhile_dropWhile, hc]

theorem takeChars_split (p : Bytes) : ∀ t rest, takeChars p = some (t, rest) → p = t ++ rest := by
  fun_induction takeChars p with
  | case1 => exact nofun
  | case2 p =>
      intro t rest h
      cases h
      rfl
  | case3 => exact nofun
  | case4 escaped p hq ih =>
      intro t rest h
      obtain ⟨⟨t', rest'⟩, ht, he⟩ := Option.map_eq_some_iff.mp h
      cases he
      simp [ih t' rest ht]
  | case5 c p hq hb ih =>
      intro t rest h
      obtain ⟨⟨t', rest'⟩, ht, he⟩ := Option.map_eq_some_iff.mp h
      cases he
      simp [ih t' rest ht]

theorem scanner_splits (accept : Numeral → Bool) : (scanner accept).Splits where
  scalar := by
    intro p t rest h
    have hliteral : ∀ n : Nat, 0 < n → p ≠ [] → some (p.take n, p.drop n) = some (t, rest) →
        p = t ++ rest ∧ t ≠ [] := by
      intro n hn hp h
      cases h
      exact ⟨(List.take_append_drop n p).symm, by simp [hp, Nat.ne_of_gt hn]⟩
    have hp : peek p ≠ 0 → p ≠ [] := by
      rintro h rfl
      exact h rfl
    simp only [scanner, takeScalar] at h
    split at h
    · rename_i hc
      exact hliteral 4 (by decide) (hp (by rw [hc]; decide)) h
    split at h
    · rename_i hc
      exact hliteral 5 (by decide) (hp (by rw [hc]; decide)) h
    split at h
    · rename_i hc
      exact hliteral 4 (by decide) (hp (by rw [hc]; decide)) h
    split at h
    · rename_i hc
      split at h
      · cases h
        exact ⟨(takeNumeral_split p).symm, numeral_ne_nil hc⟩
      · cases h
    · cases h
  string := by
    intro p t rest h
    simp only [scanner, takeString] at h
    split at h
    · rename_i hc
      obtain ⟨⟨t', rest'⟩, ht, he⟩ := Option.map_eq_some_iff.mp h
      cases he
      refine ⟨?_, rfl⟩
      rw [cons_of_peek (by decide) hc, takeChars_split _ _ _ ht]
      rfl
    · cases h

theorem scanner_within (accept : Numeral → Bool) : (scanner accept).Within (scanner fun _ => true) where
  scalar := by
    intro p r h
    simp only [scanner, takeScalar] at h ⊢
    split_ifs at h ⊢ <;> exact h
  string := fun p r h => h

end Taking

section Reading

-- parse_number throws when the numeral does not convert, and otherwise stops behind it.
theorem parseNumber_taken (p : Bytes) :
    (parseNumber p).toOption.map Prod.snd =
      if (takeNumeral p).1.converts then some (takeNumeral p).2 else none := by
  have hmap : ∀ {α : Type} (x : Except Exn α) (f : α → Value) (rest : Bytes),
      (x.map fun a => (f a, rest)).toOption.map Prod.snd = if x.isOk then some rest else none := by
    intro α x f rest
    cases x <;> rfl
  rcases hsign : scanSign p with ⟨sign, p₁⟩
  rcases hwhole : p₁.span isDigit with ⟨whole, p₂⟩
  rcases hfraction : scanFraction p₂ with ⟨fraction, p₃⟩
  rcases hexponent : scanExponent p₃ with ⟨exponent, rest⟩
  rw [parseNumber_scan hsign hwhole hfraction hexponent, takeNumeral_scan hsign hwhole hfraction hexponent,
    Numeral.converts, Numeral.text]
  dsimp only
  split
  · exact hmap _ _ _
  · exact hmap _ _ _

theorem parseChars_taken (p : Bytes) :
    (parseChars p).toOption.map Prod.snd = (takeChars p).map Prod.snd := by
  fun_induction takeChars p with
  | case1 => rfl
  | case2 p => rw [parseChars_quote]; rfl
  | case3 => rfl
  | case4 escaped p hq ih =>
      rw [parseChars_escaped, toOption_map, Option.map_map, Option.map_map]
      exact ih
  | case5 c p hq hb ih =>
      rw [parseChars_char c p hq hb, toOption_map, Option.map_map, Option.map_map]
      exact ih

theorem readScalar_taken (p : Bytes) :
    (readScalar p).map Prod.snd = ((scanner Numeral.converts).readers.scalar p).map Prod.snd := by
  simp only [Scanner.readers, scanner, readScalar, takeScalar, Option.map_map]
  split_ifs with ht hf hn hnumber hconverts
  · rfl
  · rfl
  · rfl
  · rw [parseNumber_taken, if_pos hconverts]
    rfl
  · rw [parseNumber_taken, if_neg hconverts]
    rfl
  · rfl

theorem readString_taken (p : Bytes) :
    (parseString p).toOption.map Prod.snd = ((scanner Numeral.converts).readers.string p).map Prod.snd := by
  simp only [Scanner.readers, scanner, parseString, takeString, Option.map_map]
  split
  · rw [Option.map_map]
    exact parseChars_taken p.tail
  · rfl

-- What parse_value leaves of a text is what its tokens leave.
theorem parseValue_taken (fuel : Nat) (p : Bytes) :
    (parseValue fuel p).toOption.map Prod.snd =
      (value listing (scanner Numeral.converts).readers fuel p).map Prod.snd := by
  rw [(descent fuel).1 p]
  exact value_rest readScalar_taken readString_taken fuel p

-- parse accepts what there are tokens for.
theorem parse_taken (s : Bytes) : (∃ v, parse s = .ok v) ↔ ∃ ts rest, taken s = some (ts, rest) := by
  have hrest : (parseValue (fuelFor s) s).toOption.map Prod.snd = (taken s).map Prod.snd :=
    parseValue_taken (fuelFor s) s
  unfold parse
  constructor
  · rintro ⟨v, hv⟩
    obtain ⟨⟨v', rest⟩, hread, -⟩ := (map_ok_iff _ _ _).mp hv
    rw [hread] at hrest
    obtain ⟨⟨ts, rest'⟩, ht, -⟩ := Option.map_eq_some_iff.mp hrest.symm
    exact ⟨ts, rest', ht⟩
  · rintro ⟨ts, rest, ht⟩
    rw [ht] at hrest
    obtain ⟨⟨v, rest'⟩, hread, -⟩ := Option.map_eq_some_iff.mp hrest
    exact ⟨v, by rw [(toOption_some_iff _ _).mp hread]; rfl⟩

end Reading

section Completeness

theorem takeNumeral_form {sign whole fraction exponent : Bytes}
    (h : NumberForm sign whole fraction exponent) {rest : Bytes} (hr : Ends rest) :
    takeNumeral (sign ++ whole ++ fraction ++ exponent ++ rest) = (⟨sign, whole, fraction, exponent⟩, rest) := by
  obtain ⟨hne, hw⟩ := whole_digits h
  have hf : fraction = [] ∨ ∃ digits, fraction = 46 :: digits ∧ ∀ c ∈ digits, isDigit c = true := by
    rcases h.fraction with rfl | ⟨digits, rfl, -, hd⟩
    · exact .inl rfl
    · exact .inr ⟨digits, rfl, hd⟩
  have he : exponent = [] ∨ ∃ e direction digits, exponent = e :: direction ++ digits ∧ (e = 101 ∨ e = 69) ∧
      (direction = [43] ∨ direction = [minus] ∨ direction = [] ∧ digits ≠ []) ∧
      ∀ c ∈ digits, isDigit c = true := by
    rcases h.exponent with rfl | ⟨e, direction, digits, rfl, he, rfl | rfl | rfl, hne, hd⟩
    · exact .inl rfl
    · exact .inr ⟨e, [], digits, rfl, he, .inr (.inr ⟨rfl, hne⟩), hd⟩
    · exact .inr ⟨e, [43], digits, rfl, he, .inl rfl, hd⟩
    · exact .inr ⟨e, [minus], digits, rfl, he, .inr (.inl rfl), hd⟩
  obtain ⟨hsign, hwhole, hfraction, hexponent⟩ := scan_numeral h.sign.symm hne hw hf he hr
  simpa only [List.append_assoc] using takeNumeral_scan hsign hwhole hfraction hexponent

theorem takeScalar_number {text : Bytes} (h : Number text) {rest : Bytes} (hr : Ends rest) :
    takeScalar (fun _ => true) (text ++ rest) = some (text, rest) := by
  obtain ⟨c, q, htext, hc⟩ := number_starts h
  obtain ⟨-, -, -, -, -, ht, hf, hn⟩ := number_head c hc
  have hpeek : peek (text ++ rest) = c := by rw [htext]; rfl
  obtain ⟨sign, whole, fraction, exponent, hform, rfl⟩ := h
  rw [takeScalar, hpeek, if_neg ht, if_neg hf, if_neg hn, if_pos hc, if_pos rfl, takeNumeral_form hform hr]
  rfl

theorem takeChars_run (run p : Bytes) (h : ∀ c ∈ run, c ≠ quote ∧ c ≠ backslash) :
    takeChars (run ++ p) = (takeChars p).map fun (t, p) => (run ++ t, p) := by
  induction run with
  | nil =>
      rw [List.nil_append]
      cases takeChars p <;> rfl
  | cons c run ih =>
      obtain ⟨⟨hq, hb⟩, hrun⟩ := List.forall_mem_cons.mp h
      rw [List.cons_append, takeChars.eq_def]
      simp only [if_neg hq, if_neg hb, ih hrun]
      cases takeChars p <;> rfl

theorem takeChars_escaped (escaped : UInt8) (p : Bytes) :
    takeChars (backslash :: escaped :: p) =
      (takeChars p).map fun (t, p) => (backslash :: escaped :: t, p) := by
  rw [takeChars.eq_def]
  rfl

theorem takeChars_body {body : Bytes} (h : StringBody body) (rest : Bytes) :
    takeChars (body ++ quote :: rest) = some (body ++ [quote], rest) := by
  induction h with
  | nil =>
      rw [takeChars.eq_def]
      rfl
  | char hc h ih =>
      rw [List.append_assoc, takeChars_run _ _ fun b hb => (hc.octets b hb).2, ih, List.append_assoc]
      rfl
  | short he h ih =>
      rw [List.cons_append, List.cons_append, takeChars_escaped, ih]
      rfl
  | @code digits body n hd h ih =>
      have hrun := takeChars_run digits (body ++ quote :: rest) fun c hc => (isHex_octet (hd.hex c hc)).2
      rw [List.append_assoc, List.cons_append, List.cons_append, takeChars_escaped, hrun, ih, List.append_assoc]
      rfl

theorem scanner_complete : Complete (scanner fun _ => true).readers lexicon.tokens where
  scalar := by
    rintro t ts rest ⟨rfl, h⟩ hr
    refine Option.map_eq_some_iff.mpr ⟨(t, rest), ?_, rfl⟩
    rcases h with (rfl | rfl | rfl) | h
    · rfl
    · rfl
    · rfl
    · exact takeScalar_number h (delimited_ends hr)
  starts := by
    rintro t ts ⟨rfl, (rfl | rfl | rfl) | h⟩
    · exact ⟨116, _, rfl, by decide⟩
    · exact ⟨102, _, rfl, by decide⟩
    · exact ⟨110, _, rfl, by decide⟩
    · obtain ⟨c, q, rfl, hc⟩ := number_starts h
      obtain ⟨hws, hq, ho, ha, hclose, -⟩ := number_head c hc
      exact ⟨c, q, rfl, hws, hq, ho, ha, hclose⟩
  string := by
    rintro t ts rest ⟨rfl, body, rfl, h⟩
    refine Option.map_eq_some_iff.mpr ⟨(quote :: body ++ [quote], rest), ?_, rfl⟩
    rw [List.append_assoc, List.cons_append, List.singleton_append]
    have hstring : takeString (quote :: (body ++ quote :: rest)) = some (quote :: body ++ [quote], rest) := by
      rw [takeString, if_pos (show peek (quote :: (body ++ quote :: rest)) = quote from rfl), List.tail_cons,
        takeChars_body h rest]
      rfl
    exact hstring
  quoted := by
    rintro t ts ⟨rfl, body, rfl, -⟩
    exact ⟨_, rfl⟩

end Completeness

theorem taken_json {s rest : Bytes} {ts : List Bytes} (h : taken s = some (ts, rest)) :
    IsJson s ↔ (∀ t ∈ ts, lexicon.Token t) ∧ Blank rest :=
  Lexicon.text_iff (scanner_splits _) (scanner_within _) scanner_complete (length_lt_fuelFor s) h

end Parser

end Draind.Json

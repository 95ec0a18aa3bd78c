import Draind.Json.RoundTrip

namespace Draind.Json

-- A numeral as printf writes it: a sign, digits, a fraction and an exponent.
structure Numeric (sign whole fraction exponent : Bytes) : Prop where
  sign : sign = [minus] ∨ sign = []
  nonempty : whole ≠ []
  whole : ∀ c ∈ whole, isDigit c = true
  fraction : fraction = [] ∨ ∃ digits, fraction = 46 :: digits ∧ ∀ c ∈ digits, isDigit c = true
  exponent : exponent = [] ∨ ∃ direction digits, exponent = 101 :: direction :: digits ∧
    (direction = 43 ∨ direction = minus) ∧ ∀ c ∈ digits, isDigit c = true

-- What a double becomes when it is printed and read again.
def reprintDouble (d : Double) : Except Exn Value :=
  (Parser.parseNumber (formatG d)).map Prod.fst

namespace Parser

section Scanning

-- The steps of parse_number: each gives what it takes and what it leaves.
def scanSign (p : Bytes) : Bytes × Bytes :=
  if peek p = minus then ([minus], p.tail) else ([], p)

def scanFraction (p : Bytes) : Bytes × Bytes :=
  if peek p = 46 then (46 :: (p.tail.span isDigit).1, (p.tail.span isDigit).2) else ([], p)

def scanDirection (p : Bytes) : Bytes × Bytes :=
  if peek p = 43 ∨ peek p = minus then ([peek p], p.tail) else ([], p)

def scanExponent (p : Bytes) : Bytes × Bytes :=
  if peek p = 101 ∨ peek p = 69 then
    let (direction, q) := scanDirection p.tail
    let (digits, q) := q.span isDigit
    (peek p :: direction ++ digits, q)
  else ([], p)

theorem parseNumber_scan {p p₁ p₂ p₃ rest sign whole fraction exponent : Bytes}
    (hsign : scanSign p = (sign, p₁)) (hwhole : p₁.span isDigit = (whole, p₂))
    (hfraction : scanFraction p₂ = (fraction, p₃)) (hexponent : scanExponent p₃ = (exponent, rest)) :
    parseNumber p =
      if fraction = [] ∧ exponent = [] then
        (stoll (sign ++ whole ++ fraction ++ exponent)).map fun n => (.int n, rest)
      else (stod (sign ++ whole ++ fraction ++ exponent)).map fun d => (.double d, rest) := by
  unfold scanSign at hsign
  unfold scanFraction at hfraction
  unfold scanExponent scanDirection at hexponent
  unfold parseNumber
  rw [hsign]
  dsimp only at hexponent ⊢
  rw [hwhole]
  dsimp only
  rw [hfraction]
  dsimp only
  rw [hexponent]

theorem parseNumber_number (p : Bytes) (v : Value) (rest : Bytes) (h : parseNumber p = .ok (v, rest)) :
    (∃ n, v = .int n) ∨ ∃ d, v = .double d := by
  rcases hsign : scanSign p with ⟨sign, p₁⟩
  rcases hwhole : p₁.span isDigit with ⟨whole, p₂⟩
  rcases hfraction : scanFraction p₂ with ⟨fraction, p₃⟩
  rcases hexponent : scanExponent p₃ with ⟨exponent, p₄⟩
  rw [parseNumber_scan hsign hwhole hfraction hexponent] at h
  split at h
  · obtain ⟨n, -, he⟩ := (map_ok_iff _ _ _).mp h
    cases he
    exact .inl ⟨n, rfl⟩
  · obtain ⟨d, -, he⟩ := (map_ok_iff _ _ _).mp h
    cases he
    exact .inr ⟨d, rfl⟩

theorem scanFraction_digits (fraction rest : Bytes)
    (hf : fraction = [] ∨ ∃ digits, fraction = 46 :: digits ∧ ∀ c ∈ digits, isDigit c = true)
    (hr : isDigit (peek rest) = false) (hp : peek rest ≠ 46) :
    scanFraction (fraction ++ rest) = (fraction, rest) := by
  rcases hf with rfl | ⟨digits, rfl, hd⟩
  · exact if_neg hp
  · have hhead : peek (46 :: digits ++ rest) = 46 := rfl
    rw [scanFraction, if_pos hhead, List.cons_append, List.tail_cons, span_digits digits rest hd hr]

theorem scanExponent_digits (exponent rest : Bytes)
    (he : exponent = [] ∨ ∃ e direction digits, exponent = e :: direction ++ digits ∧ (e = 101 ∨ e = 69) ∧
      (direction = [43] ∨ direction = [minus] ∨ direction = [] ∧ digits ≠ []) ∧
      ∀ c ∈ digits, isDigit c = true) (hr : Ends rest) :
    scanExponent (exponent ++ rest) = (exponent, rest) := by
  rcases he with rfl | ⟨e, direction, digits, rfl, he, hdirection, hd⟩
  · exact if_neg (not_or.mpr hr.2.2)
  · have hscan : scanDirection (direction ++ (digits ++ rest)) = (direction, digits ++ rest) := by
      rcases hdirection with rfl | rfl | ⟨rfl, hne⟩
      · rfl
      · rfl
      · obtain ⟨c, digits, rfl⟩ := List.exists_cons_of_ne_nil hne
        obtain ⟨-, hminus, hplus, -⟩ := isDigit_cases c (hd c (by simp))
        exact if_neg (not_or.mpr ⟨hplus, hminus⟩)
    have hhead : peek (e :: (direction ++ (digits ++ rest))) = e := rfl
    rw [List.append_assoc, List.cons_append, scanExponent, hhead, if_pos he, List.tail_cons, hscan]
    dsimp only
    rw [span_digits digits rest hd hr.1]

-- Each step of the scan takes its part of a numeral.
theorem scan_numeral {sign whole fraction exponent rest : Bytes} (hs : sign = [minus] ∨ sign = [])
    (hne : whole ≠ []) (hw : ∀ c ∈ whole, isDigit c = true)
    (hf : fraction = [] ∨ ∃ digits, fraction = 46 :: digits ∧ ∀ c ∈ digits, isDigit c = true)
    (he : exponent = [] ∨ ∃ e direction digits, exponent = e :: direction ++ digits ∧ (e = 101 ∨ e = 69) ∧
      (direction = [43] ∨ direction = [minus] ∨ direction = [] ∧ digits ≠ []) ∧
      ∀ c ∈ digits, isDigit c = true) (hr : Ends rest) :
    scanSign (sign ++ (whole ++ (fraction ++ (exponent ++ rest)))) =
        (sign, whole ++ (fraction ++ (exponent ++ rest))) ∧
      (whole ++ (fraction ++ (exponent ++ rest))).span isDigit = (whole, fraction ++ (exponent ++ rest)) ∧
      scanFraction (fraction ++ (exponent ++ rest)) = (fraction, exponent ++ rest) ∧
      scanExponent (exponent ++ rest) = (exponent, rest) := by
  have hexponent : isDigit (peek (exponent ++ rest)) = false ∧ peek (exponent ++ rest) ≠ 46 := by
    rcases he with rfl | ⟨e, direction, digits, rfl, rfl | rfl, -⟩
    · exact ⟨hr.1, hr.2.1⟩
    · exact ⟨rfl, show (101 : UInt8) ≠ 46 by decide⟩
    · exact ⟨rfl, show (69 : UInt8) ≠ 46 by decide⟩
  have hfraction : isDigit (peek (fraction ++ (exponent ++ rest))) = false := by
    rcases hf with rfl | ⟨digits, rfl, -⟩
    · exact hexponent.1
    · rfl
  have hminus : peek (whole ++ (fraction ++ (exponent ++ rest))) ≠ minus := by
    obtain ⟨c, digits, rfl⟩ := List.exists_cons_of_ne_nil hne
    exact (isDigit_cases c (hw c (by simp))).2.1
  refine ⟨?_, span_digits whole _ hw hfraction, scanFraction_digits fraction _ hf hexponent.1 hexponent.2,
    scanExponent_digits exponent rest he hr⟩
  rcases hs with rfl | rfl
  · rfl
  · exact if_neg hminus

-- The parser takes a numeral as a whole.
theorem parseNumber_numeric {sign whole fraction exponent : Bytes}
    (h : Numeric sign whole fraction exponent) (rest : Bytes) (hr : Ends rest) :
    parseNumber (sign ++ whole ++ fraction ++ exponent ++ rest) =
      if fraction = [] ∧ exponent = [] then
        (stoll (sign ++ whole ++ fraction ++ exponent)).map fun n => (.int n, rest)
      else (stod (sign ++ whole ++ fraction ++ exponent)).map fun d => (.double d, rest) := by
  obtain ⟨hs, hne, hw, hf, he⟩ := h
  have hform : exponent = [] ∨ ∃ e direction digits, exponent = e :: direction ++ digits ∧ (e = 101 ∨ e = 69) ∧
      (direction = [43] ∨ direction = [minus] ∨ direction = [] ∧ digits ≠ []) ∧
      ∀ c ∈ digits, isDigit c = true := by
    rcases he with rfl | ⟨direction, digits, rfl, rfl | rfl, hd⟩
    · exact .inl rfl
    · exact .inr ⟨101, [43], digits, rfl, .inl rfl, .inl rfl, hd⟩
    · exact .inr ⟨101, [minus], digits, rfl, .inl rfl, .inr (.inl rfl), hd⟩
  obtain ⟨hsign, hwhole, hfraction, hexponent⟩ := scan_numeral hs hne hw hf hform hr
  simpa only [List.append_assoc] using parseNumber_scan hsign hwhole hfraction hexponent

end Scanning

end Parser

section Printing

theorem mem_of_mem_stripZeros {digits : Bytes} {c : UInt8} (h : c ∈ stripZeros digits) : c ∈ digits := by
  have hm := (List.dropWhile_sublist _).subset (List.mem_reverse.mp h)
  exact List.mem_reverse.mp hm

theorem withPoint_numeric (sign whole fraction exponent : Bytes) (hs : sign = [minus] ∨ sign = [])
    (hne : whole ≠ []) (hw : ∀ c ∈ whole, isDigit c = true) (hf : ∀ c ∈ fraction, isDigit c = true)
    (he : exponent = [] ∨ ∃ direction digits, exponent = 101 :: direction :: digits ∧
      (direction = 43 ∨ direction = minus) ∧ ∀ c ∈ digits, isDigit c = true) :
    ∃ point, Numeric sign whole point exponent ∧
      sign ++ withPoint whole fraction ++ exponent = sign ++ whole ++ point ++ exponent ∧
      point = if fraction = [] then [] else 46 :: fraction := by
  unfold withPoint
  by_cases h : fraction = []
  · exact ⟨[], ⟨hs, hne, hw, .inl rfl, he⟩, by simp [h], by simp [h]⟩
  · exact ⟨46 :: fraction, ⟨hs, hne, hw, .inr ⟨fraction, rfl, hf⟩, he⟩, by simp [h], by simp [h]⟩

theorem exponent_digits (n : Nat) :
    ∀ c ∈ (if (natDecimal n).length < 2 then 48 :: natDecimal n else natDecimal n), isDigit c = true := by
  have hd := natDecimal_digits n
  split
  · intro c hc
    rcases List.mem_cons.mp hc with rfl | hc
    · rfl
    · exact hd c hc
  · exact hd

-- Whatever the double is, printf writes a numeral.
theorem formatG_numeric (d : Double) :
    ∃ sign whole fraction exponent, Numeric sign whole fraction exponent ∧
      formatG d = sign ++ whole ++ fraction ++ exponent := by
  have hs : (if d.neg then [45] else [] : Bytes) = [minus] ∨ (if d.neg then [45] else [] : Bytes) = [] := by
    cases d.neg with
    | true => exact .inl rfl
    | false => exact .inr rfl
  unfold formatG
  dsimp only
  generalize (if d.neg then [45] else [] : Bytes) = sign at hs ⊢
  split
  · exact ⟨sign, [48], [], [], ⟨hs, by simp, List.forall_mem_singleton.mpr rfl, .inl rfl, .inl rfl⟩, by simp⟩
  generalize (if roundHalfEven _ _ = 10 ^ 6 then _ else _ : Nat × Int) = rounded
  obtain ⟨r, x⟩ := rounded
  dsimp only
  have hd := natDecimal_digits r
  have hne := natDecimal_ne_nil r
  split
  · obtain ⟨point, hn, he, -⟩ := withPoint_numeric sign ((natDecimal r).take 1)
      (stripZeros ((natDecimal r).drop 1))
      ([101, if x < 0 then 45 else 43] ++
        if (natDecimal x.natAbs).length < 2 then 48 :: natDecimal x.natAbs else natDecimal x.natAbs) hs
      (by simpa using hne) (fun c hc => hd c (List.mem_of_mem_take hc))
      (fun c hc => hd c (List.mem_of_mem_drop (mem_of_mem_stripZeros hc)))
      (.inr ⟨_, _, rfl, by split <;> simp, exponent_digits x.natAbs⟩)
    exact ⟨_, _, _, _, hn, by rw [← he]; simp⟩
  split
  · obtain ⟨point, hn, he, -⟩ := withPoint_numeric sign ((natDecimal r).take (x.toNat + 1))
      (stripZeros ((natDecimal r).drop (x.toNat + 1))) [] hs
      (by simpa using hne) (fun c hc => hd c (List.mem_of_mem_take hc))
      (fun c hc => hd c (List.mem_of_mem_drop (mem_of_mem_stripZeros hc))) (.inl rfl)
    exact ⟨_, _, _, _, hn, by rw [← he]; simp⟩
  · obtain ⟨point, hn, he, -⟩ := withPoint_numeric sign [48]
      (List.replicate ((-x).toNat - 1) 48 ++ stripZeros (natDecimal r)) [] hs (by simp)
      (List.forall_mem_singleton.mpr rfl)
      (fun c hc => by
        rcases List.mem_append.mp hc with hc | hc
        · rw [(List.mem_replicate.mp hc).2]
          rfl
        · exact hd c (mem_of_mem_stripZeros hc)) (.inl rfl)
    exact ⟨_, _, _, _, hn, by rw [← he]; simp⟩

-- So the parser reads what is printed for a double whatever stands behind it.
theorem parseNumber_formatG (d : Double) (rest : Bytes) (hr : Parser.Ends rest) :
    Parser.parseNumber (formatG d ++ rest) = (reprintDouble d).map fun v => (v, rest) := by
  obtain ⟨sign, whole, fraction, exponent, hn, he⟩ := formatG_numeric d
  have hnil := Parser.parseNumber_numeric hn [] ⟨by decide, by decide, by decide, by decide⟩
  rw [List.append_nil] at hnil
  rw [reprintDouble, he, Parser.parseNumber_numeric hn rest hr, hnil]
  split
  · cases stoll (sign ++ whole ++ fraction ++ exponent) <;> rfl
  · cases stod (sign ++ whole ++ fraction ++ exponent) <;> rfl

theorem formatG_head (d : Double) :
    ∃ c text, formatG d = c :: text ∧ (c = minus ∨ isDigit c = true) := by
  obtain ⟨sign, whole, fraction, exponent, hn, he⟩ := formatG_numeric d
  obtain ⟨c, digits, rfl⟩ := List.exists_cons_of_ne_nil hn.nonempty
  rcases hn.sign with rfl | rfl
  · exact ⟨minus, _, he, .inl rfl⟩
  · exact ⟨c, _, he, .inr (hn.whole c (by simp))⟩

end Printing

end Draind.Json

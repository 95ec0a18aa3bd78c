import Draind.Json.Reprint

namespace Draind.Json

section Ordered

theorem orderedElements_iff (elements : List Value) :
    OrderedElements elements ↔ ∀ e ∈ elements, Ordered e := by
  induction elements with
  | nil => simp [OrderedElements]
  | cons e rest ih => simp [OrderedElements, ih]

theorem orderedMembers_iff (members : List (Bytes × Value)) :
    OrderedMembers members ↔ ∀ m ∈ members, Ordered m.2 := by
  induction members with
  | nil => simp [OrderedMembers]
  | cons m rest ih => simp [OrderedMembers, ih]

theorem ordered_insert (key : Bytes) (value : Value) (members : List (Bytes × Value))
    (h : Ordered (.object members)) (hv : Ordered value) :
    Ordered (.object (SortedMap.insert key value members)) := by
  have hmembers := SortedMap.insert_all key hv ((orderedMembers_iff _).mp h.2)
  exact ⟨SortedMap.insert_sorted key value _ h.1, (orderedMembers_iff _).mpr hmembers⟩

theorem ordered_set (v : Value) (key : Bytes) (field : Value) (hv : Ordered v) (hf : Ordered field) :
    Ordered (v.set key field) := by
  refine ordered_insert key field v.getObject ?_ hf
  cases v with
  | object members => exact hv
  | _ => exact ⟨.nil, trivial⟩

end Ordered

namespace Parser

section Inversion

theorem skipWs_cons (p : Bytes) (h : skipWs p ≠ []) :
    ∃ c text, skipWs p = c :: text ∧ isWs c = false := by
  obtain ⟨c, text, hc⟩ := List.exists_cons_of_ne_nil h
  refine ⟨c, text, hc, ?_⟩
  have hhead := List.head_dropWhile_not isWs h
  unfold skipWs at hc
  simpa [hc] using hhead

-- What a value starts with decides how it is read.
theorem parseValue_ok (fuel : Nat) (p : Bytes) (v : Value) (rest : Bytes)
    (h : parseValue fuel p = .ok (v, rest)) :
    ∃ n c text, fuel = n + 1 ∧ skipWs p = c :: text ∧ isWs c = false ∧
      parseValue (n + 1) (c :: text) = .ok (v, rest) := by
  cases fuel with
  | zero =>
      rw [parseValue] at h
      cases h
  | succ n =>
      have hne : skipWs p ≠ [] := by
        intro hnil
        rw [parseValue, hnil] at h
        cases h
      obtain ⟨c, text, hc, hws⟩ := skipWs_cons p hne
      rw [parseValue_skip, hc] at h
      exact ⟨n, c, text, rfl, hc, hws, h⟩

theorem objectLoop_ok_iff (fuel : Nat) (obj : List (Bytes × Value)) (p : Bytes) (v : Value) (rest : Bytes) :
    objectLoop (fuel + 1) obj p = .ok (v, rest) ↔
      ∃ key p₁ value p₂, parseString (skipWs p) = .ok (key, p₁) ∧ peek (skipWs p₁) = colon ∧
        parseValue fuel (skipWs p₁).tail = .ok (value, p₂) ∧
        (peek (skipWs p₂) = closeBrace ∧ v = .object (SortedMap.insert key value obj) ∧
            rest = (skipWs p₂).tail ∨
          peek (skipWs p₂) = comma ∧
            objectLoop fuel (SortedMap.insert key value obj) (skipWs p₂).tail = .ok (v, rest)) := by
  have hne : comma ≠ closeBrace := by decide
  rw [objectLoop, bind_ok_iff]
  constructor
  · rintro ⟨⟨key, p₁⟩, hkey, h⟩
    dsimp only at h
    split at h
    · cases h
    rename_i hcolon
    obtain ⟨⟨value, p₂⟩, hvalue, h⟩ := (bind_ok_iff _ _ _).mp h
    refine ⟨key, p₁, value, p₂, hkey, not_not.mp hcolon, hvalue, ?_⟩
    dsimp only at h
    split at h
    · rename_i hclose
      cases h
      exact .inl ⟨hclose, rfl, rfl⟩
    · split at h
      · cases h
      · rename_i hcomma
        exact .inr ⟨not_not.mp hcomma, h⟩
  · rintro ⟨key, p₁, value, p₂, hkey, hcolon, hvalue, hend⟩
    refine ⟨(key, p₁), hkey, ?_⟩
    dsimp only
    rw [if_neg (not_not.mpr hcolon), hvalue]
    rcases hend with ⟨hclose, rfl, rfl⟩ | ⟨hcomma, hloop⟩
    · exact if_pos hclose
    · show (if peek (skipWs p₂) = closeBrace then _ else _) = _
      rw [hcomma, if_neg hne, if_neg (not_not.mpr rfl), hloop]

theorem arrayLoop_ok_iff (fuel : Nat) (arr : List Value) (p : Bytes) (v : Value) (rest : Bytes) :
    arrayLoop (fuel + 1) arr p = .ok (v, rest) ↔
      ∃ value p₁, parseValue fuel p = .ok (value, p₁) ∧
        (peek (skipWs p₁) = closeBracket ∧ v = .array (arr ++ [value]) ∧ rest = (skipWs p₁).tail ∨
          peek (skipWs p₁) = comma ∧ arrayLoop fuel (arr ++ [value]) (skipWs p₁).tail = .ok (v, rest)) := by
  have hne : comma ≠ closeBracket := by decide
  rw [arrayLoop, bind_ok_iff]
  constructor
  · rintro ⟨⟨value, p₁⟩, hvalue, h⟩
    refine ⟨value, p₁, hvalue, ?_⟩
    dsimp only at h
    split at h
    · rename_i hclose
      cases h
      exact .inl ⟨hclose, rfl, rfl⟩
    · split at h
      · cases h
      · rename_i hcomma
        exact .inr ⟨not_not.mp hcomma, h⟩
  · rintro ⟨value, p₁, hvalue, hend⟩
    refine ⟨(value, p₁), hvalue, ?_⟩
    dsimp only
    rcases hend with ⟨hclose, rfl, rfl⟩ | ⟨hcomma, hloop⟩
    · exact if_pos hclose
    · rw [hcomma, if_neg hne, if_neg (not_not.mpr rfl), hloop]

-- What parse_object and parse_array do before their loops.
def opened (close : UInt8) (empty : Value) (loop : Bytes → Except Exn (Value × Bytes)) (p : Bytes) :
    Except Exn (Value × Bytes) :=
  if peek (skipWs p.tail) = close then .ok (empty, (skipWs p.tail).tail) else loop (skipWs p.tail)

theorem parseObject_opened (loop : List (Bytes × Value) → Bytes → Except Exn (Value × Bytes)) (p : Bytes) :
    parseObject loop p = opened closeBrace (.object []) (loop []) p := rfl

theorem parseArray_opened (loop : List Value → Bytes → Except Exn (Value × Bytes)) (p : Bytes) :
    parseArray loop p = opened closeBracket (.array []) (loop []) p := rfl

theorem opened_ok_iff (close : UInt8) (empty : Value) (loop : Bytes → Except Exn (Value × Bytes))
    (p : Bytes) (v : Value) (rest : Bytes) :
    opened close empty loop p = .ok (v, rest) ↔
      peek (skipWs p.tail) = close ∧ v = empty ∧ rest = (skipWs p.tail).tail ∨
        peek (skipWs p.tail) ≠ close ∧ loop (skipWs p.tail) = .ok (v, rest) := by
  unfold opened
  split
  · rename_i hclose
    simp [hclose, eq_comm]
  · rename_i hclose
    simp [hclose]

end Inversion

-- One value, from what the two loops build with less fuel.
theorem parseValue_ordered (fuel : Nat) (p : Bytes) (v : Value) (rest : Bytes)
    (ho : ∀ p v rest, objectLoop fuel [] p = .ok (v, rest) → Ordered v)
    (ha : ∀ p v rest, arrayLoop fuel [] p = .ok (v, rest) → Ordered v)
    (h : parseValue (fuel + 1) p = .ok (v, rest)) : Ordered v := by
  obtain ⟨n, c, text, hn, -, hws, h⟩ := parseValue_ok _ p v rest h
  cases hn
  rw [parseValue_succ fuel c text hws] at h
  split at h
  · obtain ⟨_, -, he⟩ := (map_ok_iff _ _ _).mp h
    cases he
    trivial
  split at h
  · rw [parseObject_opened] at h
    rcases (opened_ok_iff _ _ _ _ _ _).mp h with ⟨-, rfl, -⟩ | ⟨-, hloop⟩
    · exact ⟨.nil, trivial⟩
    · exact ho _ v rest hloop
  split at h
  · rw [parseArray_opened] at h
    rcases (opened_ok_iff _ _ _ _ _ _).mp h with ⟨-, rfl, -⟩ | ⟨-, hloop⟩
    · exact trivial
    · exact ha _ v rest hloop
  split at h
  · cases h
    trivial
  split at h
  · cases h
    trivial
  split at h
  · cases h
    trivial
  split at h
  · rcases parseNumber_number _ v rest h with ⟨n, rfl⟩ | ⟨d, rfl⟩ <;> trivial
  · cases h

theorem orderedElements_append {arr : List Value} {value : Value} (ha : OrderedElements arr)
    (hv : Ordered value) : OrderedElements (arr ++ [value]) := by
  rw [orderedElements_iff] at ha ⊢
  intro e he
  rcases List.mem_append.mp he with he | he
  · exact ha e he
  · rw [List.mem_singleton.mp he]
    exact hv

-- What the parser builds is ordered, by induction on the fuel.
theorem ordered_of_ok (fuel : Nat) :
    (∀ p v rest, parseValue fuel p = .ok (v, rest) → Ordered v) ∧
      (∀ obj p v rest, Ordered (.object obj) → objectLoop fuel obj p = .ok (v, rest) → Ordered v) ∧
      ∀ arr p v rest, OrderedElements arr → arrayLoop fuel arr p = .ok (v, rest) → Ordered v := by
  induction fuel with
  | zero =>
      refine ⟨fun p v rest h => ?_, fun obj p v rest _ h => ?_, fun arr p v rest _ h => ?_⟩
      · rw [parseValue] at h
        cases h
      · rw [objectLoop] at h
        cases h
      · rw [arrayLoop] at h
        cases h
  | succ fuel ih =>
      obtain ⟨ihv, iho, iha⟩ := ih
      refine ⟨fun p v rest h => ?_, fun obj p v rest ho h => ?_, fun arr p v rest ha h => ?_⟩
      · exact parseValue_ordered fuel p v rest (fun p v rest => iho [] p v rest ⟨.nil, trivial⟩)
          (fun p v rest => iha [] p v rest trivial) h
      · obtain ⟨key, p₁, value, p₂, -, -, hvalue, hend⟩ := (objectLoop_ok_iff fuel obj p v rest).mp h
        have hnext := ordered_insert key value obj ho (ihv _ _ _ hvalue)
        rcases hend with ⟨-, rfl, -⟩ | ⟨-, hloop⟩
        · exact hnext
        · exact iho _ _ v rest hnext hloop
      · obtain ⟨value, p₁, hvalue, hend⟩ := (arrayLoop_ok_iff fuel arr p v rest).mp h
        have hnext := orderedElements_append ha (ihv _ _ _ hvalue)
        rcases hend with ⟨-, rfl, -⟩ | ⟨-, hloop⟩
        · exact hnext
        · exact iha _ _ v rest hnext hloop

section More

-- More input behind what is left changes only what is left.
theorem skipWs_append (p more : Bytes) (h : skipWs p ≠ []) : skipWs (p ++ more) = skipWs p ++ more := by
  obtain ⟨c, text, hc, hws⟩ := skipWs_cons p h
  have hblanks : ∀ x ∈ p.takeWhile isWs, isWs x = true := fun x hx => List.mem_takeWhile_imp hx
  have hsplit := (List.takeWhile_append_dropWhile (p := isWs) (l := p)).symm
  have hdrop : p.dropWhile isWs = c :: text := hc
  rw [hc, hsplit, hdrop, List.append_assoc, skipWs_blanks _ _ hblanks]
  exact skipWs_of_head _ hws

theorem skipWs_tail_append (p more : Bytes) (h : peek (skipWs p) ≠ 0) :
    peek (skipWs (p ++ more)) = peek (skipWs p) ∧
      (skipWs (p ++ more)).tail = (skipWs p).tail ++ more := by
  have hne : skipWs p ≠ [] := fun hnil => h (by rw [hnil]; rfl)
  rw [skipWs_append p more hne]
  obtain ⟨c, text, hc⟩ := List.exists_cons_of_ne_nil hne
  rw [hc]
  exact ⟨rfl, rfl⟩

theorem span_append (p more taken left : Bytes) (h : p.span isDigit = (taken, left)) (hne : left ≠ []) :
    (p ++ more).span isDigit = (taken, left ++ more) := by
  rw [List.span_eq_takeWhile_dropWhile] at h
  obtain ⟨rfl, rfl⟩ := Prod.mk.inj h
  obtain ⟨c, text, hc⟩ := List.exists_cons_of_ne_nil hne
  have hhead := List.head_dropWhile_not isDigit hne
  have hdigit : isDigit c = false := by simpa [hc] using hhead
  have hspan := span_digits (p.takeWhile isDigit) (p.dropWhile isDigit ++ more)
    (fun x hx => List.mem_takeWhile_imp hx) (by rw [hc]; exact hdigit)
  rwa [← List.append_assoc, List.takeWhile_append_dropWhile] at hspan

theorem scanSign_append (p more sign left : Bytes) (h : scanSign p = (sign, left)) (hne : left ≠ []) :
    scanSign (p ++ more) = (sign, left ++ more) := by
  cases p with
  | nil => exact absurd (Prod.mk.inj h).2.symm hne
  | cons c text =>
      by_cases hm : peek (c :: text) = minus
      · rw [scanSign, if_pos hm] at h
        obtain ⟨rfl, rfl⟩ := Prod.mk.inj h
        exact if_pos hm
      · rw [scanSign, if_neg hm] at h
        obtain ⟨rfl, rfl⟩ := Prod.mk.inj h
        exact if_neg hm

theorem scanFraction_append (p more fraction left : Bytes) (h : scanFraction p = (fraction, left))
    (hne : left ≠ []) : scanFraction (p ++ more) = (fraction, left ++ more) := by
  cases p with
  | nil => exact absurd (Prod.mk.inj h).2.symm hne
  | cons c text =>
      by_cases hpoint : peek (c :: text) = 46
      · rw [scanFraction, if_pos hpoint] at h
        obtain ⟨rfl, rfl⟩ := Prod.mk.inj h
        have hspan := span_append text more _ _ rfl hne
        exact (if_pos hpoint).trans (by rw [List.cons_append, List.tail_cons, hspan]; rfl)
      · rw [scanFraction, if_neg hpoint] at h
        obtain ⟨rfl, rfl⟩ := Prod.mk.inj h
        exact if_neg hpoint

theorem scanDirection_append (p more direction left : Bytes) (h : scanDirection p = (direction, left))
    (hne : left ≠ []) : scanDirection (p ++ more) = (direction, left ++ more) := by
  cases p with
  | nil => exact absurd (Prod.mk.inj h).2.symm hne
  | cons c text =>
      by_cases hdir : peek (c :: text) = 43 ∨ peek (c :: text) = minus
      · rw [scanDirection, if_pos hdir] at h
        obtain ⟨rfl, rfl⟩ := Prod.mk.inj h
        exact if_pos hdir
      · rw [scanDirection, if_neg hdir] at h
        obtain ⟨rfl, rfl⟩ := Prod.mk.inj h
        exact if_neg hdir

theorem scanExponent_append (p more exponent left : Bytes) (h : scanExponent p = (exponent, left))
    (hne : left ≠ []) : scanExponent (p ++ more) = (exponent, left ++ more) := by
  cases p with
  | nil => exact absurd (Prod.mk.inj h).2.symm hne
  | cons c text =>
      by_cases hmark : peek (c :: text) = 101 ∨ peek (c :: text) = 69
      · rcases hdir : scanDirection text with ⟨direction, q⟩
        rcases hdigits : q.span isDigit with ⟨digits, q'⟩
        rw [scanExponent, if_pos hmark, List.tail_cons, hdir] at h
        dsimp only at h
        rw [hdigits] at h
        obtain ⟨rfl, rfl⟩ := Prod.mk.inj h
        have hq : q ≠ [] := by
          rintro rfl
          exact hne (Prod.mk.inj hdigits).2.symm
        refine (if_pos hmark).trans ?_
        rw [List.cons_append, List.tail_cons, scanDirection_append text more _ _ hdir hq]
        dsimp only
        rw [span_append q more _ _ hdigits hne]
        rfl
      · rw [scanExponent, if_neg hmark] at h
        obtain ⟨rfl, rfl⟩ := Prod.mk.inj h
        exact if_neg hmark

theorem parseNumber_append (p more : Bytes) (v : Value) (rest : Bytes) (h : parseNumber p = .ok (v, rest))
    (hne : rest ≠ []) : parseNumber (p ++ more) = .ok (v, rest ++ more) := by
  rcases hsign : scanSign p with ⟨sign, p₁⟩
  rcases hwhole : p₁.span isDigit with ⟨whole, p₂⟩
  rcases hfraction : scanFraction p₂ with ⟨fraction, p₃⟩
  rcases hexponent : scanExponent p₃ with ⟨exponent, p₄⟩
  rw [parseNumber_scan hsign hwhole hfraction hexponent] at h
  obtain rfl : p₄ = rest := by
    split at h
    · obtain ⟨n, -, he⟩ := (map_ok_iff _ _ _).mp h
      exact (Prod.mk.inj he).2
    · obtain ⟨d, -, he⟩ := (map_ok_iff _ _ _).mp h
      exact (Prod.mk.inj he).2
  -- What one step leaves is the input of the next, so none of them reached the end.
  have h₃ : p₃ ≠ [] := by
    rintro rfl
    exact hne (Prod.mk.inj hexponent).2.symm
  have h₂ : p₂ ≠ [] := by
    rintro rfl
    exact h₃ (Prod.mk.inj hfraction).2.symm
  have h₁ : p₁ ≠ [] := by
    rintro rfl
    exact h₂ (Prod.mk.inj hwhole).2.symm
  rw [parseNumber_scan (scanSign_append p more _ _ hsign h₁) (span_append p₁ more _ _ hwhole h₂)
    (scanFraction_append p₂ more _ _ hfraction h₃) (scanExponent_append p₃ more _ _ hexponent hne)]
  split at h
  · rename_i hint
    obtain ⟨n, hn, he⟩ := (map_ok_iff _ _ _).mp h
    cases he
    rw [if_pos hint, hn]
    rfl
  · rename_i hint
    obtain ⟨d, hd, he⟩ := (map_ok_iff _ _ _).mp h
    cases he
    rw [if_neg hint, hd]
    rfl

theorem parseChars_append (p more s rest : Bytes) (h : parseChars p = .ok (s, rest)) :
    parseChars (p ++ more) = .ok (s, rest ++ more) := by
  fun_induction parseChars p generalizing s rest with
  | case1 => cases h
  | case2 p =>
      cases h
      exact parseChars_quote _
  | case3 => cases h
  | case4 _ escaped p ih =>
      obtain ⟨⟨s', rest'⟩, hs, he⟩ := (map_ok_iff _ _ _).mp h
      cases he
      rw [List.cons_append, List.cons_append, parseChars_escaped, ih _ _ hs]
      rfl
  | case5 c p hq hb ih =>
      obtain ⟨⟨s', rest'⟩, hs, he⟩ := (map_ok_iff _ _ _).mp h
      cases he
      rw [List.cons_append, parseChars_char c _ hq hb, ih _ _ hs]
      rfl

theorem parseString_append (p more s rest : Bytes) (h : parseString p = .ok (s, rest)) :
    parseString (p ++ more) = .ok (s, rest ++ more) := by
  cases p with
  | nil =>
      rw [parseString, if_neg (by decide)] at h
      cases h
  | cons c text =>
      by_cases hq : peek (c :: text) = quote
      · rw [parseString, if_pos hq] at h
        exact (if_pos hq).trans (parseChars_append text more s rest h)
      · rw [parseString, if_neg hq] at h
        cases h

theorem ne_nil_of_peek (p : Bytes) (h : peek (skipWs p) ≠ 0) : p ≠ [] := by
  rintro rfl
  exact h rfl

theorem opened_append (close : UInt8) (hc : close ≠ 0) (empty : Value)
    (loop loop' : Bytes → Except Exn (Value × Bytes)) (more : Bytes) (hnil : ∀ r, loop [] ≠ .ok r)
    (hloop : ∀ p v rest, loop p = .ok (v, rest) → loop' (p ++ more) = .ok (v, rest ++ more))
    (c : UInt8) (text : Bytes) (v : Value) (rest : Bytes)
    (h : opened close empty loop (c :: text) = .ok (v, rest)) :
    opened close empty loop' (c :: (text ++ more)) = .ok (v, rest ++ more) := by
  rw [opened_ok_iff, List.tail_cons] at h ⊢
  rcases h with ⟨hclose, rfl, rfl⟩ | ⟨hopen, h⟩
  · obtain ⟨hpeek, htail⟩ := skipWs_tail_append text more (by rwa [hclose])
    exact .inl ⟨hpeek.trans hclose, rfl, htail.symm⟩
  · have hne : skipWs text ≠ [] := by
      intro hn
      rw [hn] at h
      exact hnil _ h
    have hpeek : peek (skipWs text ++ more) = peek (skipWs text) := by
      obtain ⟨c, text, hc⟩ := List.exists_cons_of_ne_nil hne
      rw [hc]
      rfl
    rw [skipWs_append text more hne, hpeek]
    exact .inr ⟨hopen, hloop _ v rest h⟩

theorem loops_nil (fuel : Nat) :
    (∀ obj r, objectLoop fuel obj [] ≠ .ok r) ∧ ∀ arr r, arrayLoop fuel arr [] ≠ .ok r := by
  cases fuel with
  | zero =>
      refine ⟨fun obj r h => ?_, fun arr r h => ?_⟩
      · rw [objectLoop] at h
        cases h
      · rw [arrayLoop] at h
        cases h
  | succ fuel =>
      refine ⟨fun obj r h => ?_, fun arr r h => ?_⟩
      · obtain ⟨_, _, _, _, hkey, -⟩ := (objectLoop_ok_iff fuel obj [] r.1 r.2).mp h
        cases hkey
      · obtain ⟨_, _, hvalue, -⟩ := (arrayLoop_ok_iff fuel arr [] r.1 r.2).mp h
        obtain ⟨_, _, _, _, hc, -⟩ := parseValue_ok _ _ _ _ hvalue
        cases hc

theorem drop_append (p more : Bytes) (n : Nat) (h : p.drop n ≠ []) :
    (p ++ more).drop n = p.drop n ++ more := by
  have hlt : n < p.length := by
    by_contra hn
    exact h (List.drop_eq_nil_of_le (by omega))
  exact List.drop_append_of_le_length (by omega)

-- One value, from what holds of the two loops with less fuel.
theorem parseValue_append (fuel m : Nat) (p more : Bytes) (v : Value) (rest : Bytes)
    (ho : ∀ p v rest, objectLoop fuel [] p = .ok (v, rest) →
      objectLoop m [] (p ++ more) = .ok (v, rest ++ more))
    (ha : ∀ p v rest, arrayLoop fuel [] p = .ok (v, rest) →
      arrayLoop m [] (p ++ more) = .ok (v, rest ++ more))
    (h : parseValue (fuel + 1) p = .ok (v, rest)) (hr : rest ≠ [] ∨ peek (skipWs p) = openBrace) :
    parseValue (m + 1) (p ++ more) = .ok (v, rest ++ more) := by
  obtain ⟨n, c, text, hn, hc, hws, h⟩ := parseValue_ok _ p v rest h
  cases hn
  have hmore : parseValue (m + 1) (p ++ more) = parseValue (m + 1) (c :: (text ++ more)) := by
    rw [parseValue_skip, skipWs_append p more (by simp [hc]), hc, List.cons_append]
  rw [hmore, parseValue_succ m c _ hws]
  rw [parseValue_succ fuel c text hws] at h
  have hhead : peek (skipWs p) = c := by
    rw [hc]
    rfl
  by_cases hq : c = quote
  · rw [if_pos hq] at h ⊢
    obtain ⟨⟨s, _⟩, hs, he⟩ := (map_ok_iff _ _ _).mp h
    cases he
    rw [← List.cons_append, parseString_append _ more _ _ hs]
    rfl
  rw [if_neg hq] at h ⊢
  by_cases hobject : c = openBrace
  · rw [if_pos hobject, parseObject_opened] at h ⊢
    exact opened_append closeBrace (by decide) _ _ _ more ((loops_nil fuel).1 []) ho c text v rest h
  have hne : rest ≠ [] := hr.resolve_right (by rwa [hhead])
  rw [if_neg hobject] at h ⊢
  by_cases harray : c = openBracket
  · rw [if_pos harray, parseArray_opened] at h ⊢
    exact opened_append closeBracket (by decide) _ _ _ more ((loops_nil fuel).2 []) ha c text v rest h
  rw [if_neg harray] at h ⊢
  by_cases htrue : c = 116
  · rw [if_pos htrue] at h ⊢
    cases h
    rw [← List.cons_append, drop_append _ _ _ hne]
  rw [if_neg htrue] at h ⊢
  by_cases hfalse : c = 102
  · rw [if_pos hfalse] at h ⊢
    cases h
    rw [← List.cons_append, drop_append _ _ _ hne]
  rw [if_neg hfalse] at h ⊢
  by_cases hnull : c = 110
  · rw [if_pos hnull] at h ⊢
    cases h
    rw [← List.cons_append, drop_append _ _ _ hne]
  rw [if_neg hnull] at h ⊢
  by_cases hnumber : c = minus ∨ isDigit c = true
  · rw [if_pos hnumber] at h ⊢
    rw [← List.cons_append]
    exact parseNumber_append _ more v rest h hne
  · rw [if_neg hnumber] at h
    cases h

-- One round of each loop, from what holds of a value and of the rest of the loop.
theorem objectLoop_append (fuel m : Nat) (obj : List (Bytes × Value)) (p more : Bytes) (v : Value)
    (rest : Bytes)
    (hv : ∀ p v rest, parseValue fuel p = .ok (v, rest) → rest ≠ [] →
      parseValue m (p ++ more) = .ok (v, rest ++ more))
    (ho : ∀ obj p v rest, objectLoop fuel obj p = .ok (v, rest) →
      objectLoop m obj (p ++ more) = .ok (v, rest ++ more))
    (h : objectLoop (fuel + 1) obj p = .ok (v, rest)) :
    objectLoop (m + 1) obj (p ++ more) = .ok (v, rest ++ more) := by
  have hmarks : comma ≠ 0 ∧ colon ≠ 0 ∧ closeBrace ≠ 0 := by decide
  obtain ⟨key, p₁, value, p₂, hkey, hcolon, hvalue, hend⟩ := (objectLoop_ok_iff fuel obj p v rest).mp h
  have hp : skipWs p ≠ [] := by
    intro hn
    rw [hn] at hkey
    cases hkey
  have hmark : peek (skipWs p₂) ≠ 0 := by
    rcases hend with ⟨hclose, -⟩ | ⟨hcomma, -⟩
    · rw [hclose]
      exact hmarks.2.2
    · rw [hcomma]
      exact hmarks.1
  obtain ⟨hpeek₁, htail₁⟩ := skipWs_tail_append p₁ more (by rw [hcolon]; exact hmarks.2.1)
  obtain ⟨hpeek₂, htail₂⟩ := skipWs_tail_append p₂ more hmark
  refine (objectLoop_ok_iff m obj _ v _).mpr ⟨key, p₁ ++ more, value, p₂ ++ more, ?_, ?_, ?_, ?_⟩
  · rw [skipWs_append p more hp]
    exact parseString_append _ more _ _ hkey
  · rw [hpeek₁, hcolon]
  · rw [htail₁]
    exact hv _ _ _ hvalue (ne_nil_of_peek p₂ hmark)
  · rw [hpeek₂, htail₂]
    rcases hend with ⟨hclose, rfl, rfl⟩ | ⟨hcomma, hloop⟩
    · exact .inl ⟨hclose, rfl, rfl⟩
    · exact .inr ⟨hcomma, ho _ _ _ _ hloop⟩

theorem arrayLoop_append (fuel m : Nat) (arr : List Value) (p more : Bytes) (v : Value) (rest : Bytes)
    (hv : ∀ p v rest, parseValue fuel p = .ok (v, rest) → rest ≠ [] →
      parseValue m (p ++ more) = .ok (v, rest ++ more))
    (ha : ∀ arr p v rest, arrayLoop fuel arr p = .ok (v, rest) →
      arrayLoop m arr (p ++ more) = .ok (v, rest ++ more))
    (h : arrayLoop (fuel + 1) arr p = .ok (v, rest)) :
    arrayLoop (m + 1) arr (p ++ more) = .ok (v, rest ++ more) := by
  have hmarks : comma ≠ 0 ∧ closeBracket ≠ 0 := by decide
  obtain ⟨value, p₁, hvalue, hend⟩ := (arrayLoop_ok_iff fuel arr p v rest).mp h
  have hmark : peek (skipWs p₁) ≠ 0 := by
    rcases hend with ⟨hclose, -⟩ | ⟨hcomma, -⟩
    · rw [hclose]
      exact hmarks.2
    · rw [hcomma]
      exact hmarks.1
  obtain ⟨hpeek, htail⟩ := skipWs_tail_append p₁ more hmark
  refine (arrayLoop_ok_iff m arr _ v _).mpr ⟨value, p₁ ++ more, ?_, ?_⟩
  · exact hv _ _ _ hvalue (ne_nil_of_peek p₁ hmark)
  · rw [hpeek, htail]
    rcases hend with ⟨hclose, rfl, rfl⟩ | ⟨hcomma, hloop⟩
    · exact .inl ⟨hclose, rfl, rfl⟩
    · exact .inr ⟨hcomma, ha _ _ _ _ hloop⟩

-- A value the parser is done with before the end of the input is read the same way
-- whatever stands behind it, and with more fuel.
theorem append_of_ok (fuel : Nat) :
    (∀ p v rest more m, parseValue fuel p = .ok (v, rest) →
        (rest ≠ [] ∨ peek (skipWs p) = openBrace) → fuel ≤ m →
        parseValue m (p ++ more) = .ok (v, rest ++ more)) ∧
      (∀ obj p v rest more m, objectLoop fuel obj p = .ok (v, rest) → fuel ≤ m →
        objectLoop m obj (p ++ more) = .ok (v, rest ++ more)) ∧
      ∀ arr p v rest more m, arrayLoop fuel arr p = .ok (v, rest) → fuel ≤ m →
        arrayLoop m arr (p ++ more) = .ok (v, rest ++ more) := by
  induction fuel with
  | zero =>
      refine ⟨fun p v rest more m h => ?_, fun obj p v rest more m h => ?_, fun arr p v rest more m h => ?_⟩
      · rw [parseValue] at h
        cases h
      · rw [objectLoop] at h
        cases h
      · rw [arrayLoop] at h
        cases h
  | succ fuel ih =>
      obtain ⟨ihv, iho, iha⟩ := ih
      refine ⟨fun p v rest more m h hr hm => ?_, fun obj p v rest more m h hm => ?_,
        fun arr p v rest more m h hm => ?_⟩
      all_goals obtain ⟨m, rfl⟩ : ∃ n, m = n + 1 := ⟨m - 1, by omega⟩
      · exact parseValue_append fuel m p more v rest (fun p v rest h => iho [] p v rest more m h (by omega))
          (fun p v rest h => iha [] p v rest more m h (by omega)) h hr
      · exact objectLoop_append fuel m obj p more v rest
          (fun p v rest h hr => ihv p v rest more m h (.inl hr) (by omega))
          (fun obj p v rest h => iho obj p v rest more m h (by omega)) h
      · exact arrayLoop_append fuel m arr p more v rest
          (fun p v rest h hr => ihv p v rest more m h (.inl hr) (by omega))
          (fun arr p v rest h => iha arr p v rest more m h (by omega)) h

end More

end Parser

theorem parse_ordered (text : Bytes) (v : Value) (h : parse text = .ok v) : Ordered v := by
  obtain ⟨⟨v, rest⟩, hp, rfl⟩ := (map_ok_iff _ _ _).mp h
  exact (Parser.ordered_of_ok _).1 text v rest hp

-- Where an object takes the whole of a text, no proper beginning of it is a text
-- the parser accepts.
theorem parse_beginning (tail : Bytes)
    (hw : ∀ r, Parser.parseValue (Parser.fuelFor (openBrace :: tail)) (openBrace :: tail) = .ok r → r.2 = [])
    (n : Nat) (hn : n < (openBrace :: tail).length) (v : Value) :
    parse ((openBrace :: tail).take n) ≠ .ok v := by
  intro h
  obtain ⟨⟨v, rest⟩, hp, -⟩ := (map_ok_iff _ _ _).mp h
  have hhead : Parser.peek (Parser.skipWs ((openBrace :: tail).take n)) = openBrace := by
    cases n with
    | zero =>
        rw [List.take_zero] at hp
        cases hp
    | succ n =>
        rw [List.take_succ_cons, Parser.skipWs_of_head _ (by decide)]
        rfl
  have hmore := (Parser.append_of_ok _).1 _ v rest ((openBrace :: tail).drop n)
    (Parser.fuelFor (openBrace :: tail)) hp (.inr hhead)
    (by simp only [Parser.fuelFor, List.length_take]; omega)
  rw [List.take_append_drop] at hmore
  -- Reading the whole text leaves nothing, reading it as above what was cut off.
  have := List.drop_eq_nil_iff.mp (List.append_eq_nil_iff.mp (hw _ hmore)).2
  omega

theorem parse_take (indent : Nat) (members : List (Bytes × Value)) (hv : Ordered (.object members))
    (n : Nat) (hn : n < (dumpPrettyAt indent 0 (.object members)).length) (v : Value) :
    parse ((dumpPrettyAt indent 0 (.object members)).take n) ≠ .ok v := by
  obtain ⟨text, htext⟩ : ∃ text, dumpPrettyAt indent 0 (.object members) = openBrace :: text := by
    cases members with
    | nil => exact ⟨_, rfl⟩
    | cons m ms => exact ⟨_, by rw [dumpPrettyAt]; rfl⟩
  have hpretty := Parser.parseValue_pretty indent 0 (.object members) hv
    (Parser.fuelFor (dumpPrettyAt indent 0 (.object members))) (dumpPrettyAt indent 0 (.object members)) []
    (by rw [List.append_nil, htext]; exact Parser.skipWs_of_head _ (by decide)) (Parser.length_lt_fuelFor _)
    ⟨by decide, by decide, by decide, by decide⟩
  rw [htext] at hn hpretty ⊢
  refine parse_beginning text (fun r hr => ?_) n hn v
  obtain ⟨whole, -, rfl⟩ := (map_ok_iff _ _ _).mp (hpretty.symm.trans hr)
  rfl

end Draind.Json

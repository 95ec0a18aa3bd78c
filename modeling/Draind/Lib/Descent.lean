import Draind.Lib.JsonGrammar
import Mathlib.Data.List.DropRight
import Mathlib.Data.List.Forall2

namespace Draind.Grammar

-- What reads one token off the front of a text, and leaves the rest.
structure Readers (V K : Type) where
  scalar : Octets → Option (V × Octets)
  string : Octets → Option (K × Octets)

def skip (p : Octets) : Octets :=
  p.dropWhile isBlank

variable {V K : Type} (M : Meaning V K) (R : Readers V K)

-- A parser by recursive descent over these readers. The fuel bounds the recursion.
mutual

def value : Nat → Octets → Option (V × Octets)
  | 0, _ => none
  | fuel + 1, p =>
      match skip p with
      | [] => none
      | c :: q =>
          if c = 34 then (R.string (c :: q)).map fun r => (M.ofString r.1, r.2)
          else if c = 123 then
            if (skip q).head? = some 125 then some (M.ofObject [], (skip q).tail)
            else members fuel [] (skip q)
          else if c = 91 then
            if (skip q).head? = some 93 then some (M.ofArray [], (skip q).tail)
            else elements fuel [] (skip q)
          else R.scalar (c :: q)

def members : Nat → List (K × V) → Octets → Option (V × Octets)
  | 0, _, _ => none
  | fuel + 1, ms, p => do
      let (k, p) ← R.string (skip p)
      if (skip p).head? = some 58 then do
        let (v, p) ← value fuel (skip p).tail
        if (skip p).head? = some 125 then some (M.ofObject (ms ++ [(k, v)]), (skip p).tail)
        else if (skip p).head? = some 44 then members fuel (ms ++ [(k, v)]) (skip p).tail
        else none
      else none

def elements : Nat → List V → Octets → Option (V × Octets)
  | 0, _, _ => none
  | fuel + 1, vs, p => do
      let (v, p) ← value fuel p
      if (skip p).head? = some 93 then some (M.ofArray (vs ++ [v]), (skip p).tail)
      else if (skip p).head? = some 44 then elements fuel (vs ++ [v]) (skip p).tail
      else none

end

-- What may follow a value: the end, a blank, a comma or a closing bracket.
def Delimited (rest : Octets) : Prop :=
  ∀ c, rest.head? = some c → isBlank c = true ∨ c = 44 ∨ c = 93 ∨ c = 125

-- The readers read every token of the grammar, whatever may follow it.
structure Complete (G : Tokens V K) : Prop where
  scalar : ∀ t v rest, G.scalar t v → Delimited rest → R.scalar (t ++ rest) = some (v, rest)
  starts : ∀ t v, G.scalar t v → ∃ c q, t = c :: q ∧ isBlank c = false ∧ c ≠ 34 ∧ c ≠ 123 ∧ c ≠ 91 ∧ c ≠ 93
  string : ∀ t k rest, G.string t k → R.string (t ++ rest) = some (k, rest)
  quoted : ∀ t k, G.string t k → ∃ q, t = 34 :: q

-- What the readers read are tokens of the grammar.
structure Sound (G : Tokens V K) : Prop where
  scalar : ∀ c q v rest, c ≠ 34 → R.scalar (c :: q) = some (v, rest) →
    ∃ t, c :: q = t ++ rest ∧ G.scalar t v
  string : ∀ p k rest, R.string p = some (k, rest) → ∃ t, p = t ++ rest ∧ G.string t k

section Skipping

theorem skip_blank {b : Octets} (hb : Blank b) (p : Octets) : skip (b ++ p) = skip p :=
  List.dropWhile_append_of_pos hb

theorem skip_cons {c : UInt8} (hc : isBlank c = false) (p : Octets) : skip (c :: p) = c :: p := by
  simp [skip, hc]

theorem skip_token {b : Octets} (hb : Blank b) {c : UInt8} (hc : isBlank c = false) (p : Octets) :
    skip (b ++ c :: p) = c :: p := by
  rw [skip_blank hb, skip_cons hc]

theorem skip_split (p : Octets) : ∃ b, p = b ++ skip p ∧ Blank b :=
  ⟨p.takeWhile isBlank, (List.takeWhile_append_dropWhile).symm, fun _ hc => List.mem_takeWhile_imp hc⟩

theorem eq_cons_of_head {p : Octets} {c : UInt8} (h : p.head? = some c) : p = c :: p.tail := by
  cases p with
  | nil => cases h
  | cons d q =>
      cases h
      rfl

theorem delimited_blank {a : Octets} (ha : Blank a) {rest : Octets} (hr : Delimited rest) :
    Delimited (a ++ rest) := by
  cases a with
  | nil => exact hr
  | cons c a =>
      intro d hd
      cases hd
      exact .inl (ha c (by simp))

theorem skip_skip (p : Octets) : skip (skip p) = skip p :=
  List.dropWhile_idempotent isBlank p

end Skipping

section Steps

variable {M R}

theorem value_string {p q : Octets} (hp : skip p = 34 :: q) (fuel : Nat) :
    value M R (fuel + 1) p = (R.string (34 :: q)).map fun r => (M.ofString r.1, r.2) := by
  rw [value, hp]
  rfl

theorem value_object {p q : Octets} (hp : skip p = 123 :: q) (fuel : Nat) :
    value M R (fuel + 1) p =
      if (skip q).head? = some 125 then some (M.ofObject [], (skip q).tail)
      else members M R fuel [] (skip q) := by
  rw [value, hp]
  rfl

theorem value_array {p q : Octets} (hp : skip p = 91 :: q) (fuel : Nat) :
    value M R (fuel + 1) p =
      if (skip q).head? = some 93 then some (M.ofArray [], (skip q).tail)
      else elements M R fuel [] (skip q) := by
  rw [value, hp]
  rfl

theorem value_scalar {p q : Octets} {c : UInt8} (hp : skip p = c :: q) (hs : c ≠ 34) (ho : c ≠ 123)
    (ha : c ≠ 91) (fuel : Nat) : value M R (fuel + 1) p = R.scalar (c :: q) := by
  rw [value, hp]
  simp [hs, ho, ha]

theorem value_skip (fuel : Nat) (p : Octets) : value M R fuel (skip p) = value M R fuel p := by
  cases fuel with
  | zero => rfl
  | succ fuel => rw [value, value, skip_skip]

theorem elements_skip (fuel : Nat) (vs : List V) (p : Octets) :
    elements M R fuel vs (skip p) = elements M R fuel vs p := by
  cases fuel with
  | zero => rfl
  | succ fuel => rw [elements, elements, value_skip]

theorem members_skip (fuel : Nat) (ms : List (K × V)) (p : Octets) :
    members M R fuel ms (skip p) = members M R fuel ms p := by
  cases fuel with
  | zero => rfl
  | succ fuel => rw [members, members, skip_skip]

theorem elements_last {fuel : Nat} {vs : List V} {p q rest : Octets} {v : V}
    (hv : value M R fuel p = some (v, q)) (hq : skip q = 93 :: rest) :
    elements M R (fuel + 1) vs p = some (M.ofArray (vs ++ [v]), rest) := by
  simp [elements, hv, hq]

theorem elements_more {fuel : Nat} {vs : List V} {p q rest : Octets} {v : V}
    (hv : value M R fuel p = some (v, q)) (hq : skip q = 44 :: rest) :
    elements M R (fuel + 1) vs p = elements M R fuel (vs ++ [v]) rest := by
  simp [elements, hv, hq]

theorem members_last {fuel : Nat} {ms : List (K × V)} {p p' q q' rest : Octets} {k : K} {v : V}
    (hk : R.string (skip p) = some (k, p')) (hp : skip p' = 58 :: q)
    (hv : value M R fuel q = some (v, q')) (hq : skip q' = 125 :: rest) :
    members M R (fuel + 1) ms p = some (M.ofObject (ms ++ [(k, v)]), rest) := by
  simp [members, hk, hp, hv, hq]

theorem members_more {fuel : Nat} {ms : List (K × V)} {p p' q q' rest : Octets} {k : K} {v : V}
    (hk : R.string (skip p) = some (k, p')) (hp : skip p' = 58 :: q)
    (hv : value M R fuel q = some (v, q')) (hq : skip q' = 44 :: rest) :
    members M R (fuel + 1) ms p = members M R fuel (ms ++ [(k, v)]) rest := by
  simp [members, hk, hp, hv, hq]

end Steps

-- Each part of a text is read as what it stands for. What is read of an item may
-- leave the blanks behind it.
def Reads : Octets → Part V K → Prop
  | t, .value v => ∀ fuel b rest, Blank b → t.length < fuel → Delimited rest →
      value M R fuel (b ++ (t ++ rest)) = some (v, rest)
  | t, .item v => ∀ fuel rest, t.length < fuel → Delimited rest →
      ∃ a, Blank a ∧ value M R fuel (t ++ rest) = some (v, a ++ rest)
  | t, .elements vs => ∀ fuel vs₀ rest, t.length + 1 < fuel →
      elements M R fuel vs₀ (t ++ 93 :: rest) = some (M.ofArray (vs₀ ++ vs), rest)
  | t, .members ms => ∀ fuel ms₀ rest, t.length + 1 < fuel →
      members M R fuel ms₀ (t ++ 125 :: rest) = some (M.ofObject (ms₀ ++ ms), rest)

section Completeness

variable {M R} {G : Tokens V K} (hc : Complete R G)

theorem delimited_cons {c : UInt8} (h : c = 44 ∨ c = 93 ∨ c = 125) (rest : Octets) :
    Delimited (c :: rest) := by
  intro d hd
  cases hd
  exact .inr h

include hc

-- A value starts with no blank and no closing bracket.
theorem Complete.value_starts {t : Octets} {part : Part V K} (h : Derives M G t part) {v : V}
    (hv : part = .value v) : ∃ c q, t = c :: q ∧ isBlank c = false ∧ c ≠ 93 := by
  cases h with
  | scalar h =>
      obtain ⟨c, q, rfl, hb, -, -, -, hclose⟩ := hc.starts _ _ h
      exact ⟨c, q, rfl, hb, hclose⟩
  | string h =>
      obtain ⟨q, rfl⟩ := hc.quoted _ _ h
      exact ⟨34, q, rfl, rfl, by decide⟩
  | emptyArray | array => exact ⟨91, _, rfl, rfl, by decide⟩
  | emptyObject | object => exact ⟨123, _, rfl, rfl, by decide⟩
  | _ => cases hv

-- So does what is between brackets, after the blanks in front of it.
theorem Complete.starts_open {t : Octets} {part : Part V K} (h : Derives M G t part) (rest : Octets) :
    (∀ v, part = .item v → (skip (t ++ rest)).head? ≠ some 93) ∧
      (∀ vs, part = .elements vs → (skip (t ++ rest)).head? ≠ some 93) ∧
      (∀ ms, part = .members ms → (skip (t ++ rest)).head? ≠ some 125) := by
  induction h generalizing rest with
  | @item b t a v hb h ha =>
      refine ⟨fun v hv => ?_, nofun, nofun⟩
      obtain ⟨c, q, rfl, hblank, hclose⟩ := hc.value_starts h rfl
      rw [List.append_assoc, List.append_assoc, skip_blank hb, List.cons_append, skip_cons hblank]
      simpa using hclose
  | element h ih => exact ⟨nofun, fun vs hv => (ih rest).1 _ rfl, nofun⟩
  | elements h hr ih _ =>
      refine ⟨nofun, fun vs hv => ?_, nofun⟩
      rw [List.append_assoc]
      exact (ih _).1 _ rfl
  | member hb hk ha h | members hb hk ha h hr =>
      refine ⟨nofun, nofun, fun ms hv => ?_⟩
      obtain ⟨q, rfl⟩ := hc.quoted _ _ hk
      simp only [List.append_assoc, skip_blank hb, List.cons_append, skip_cons (show isBlank 34 = false from rfl)]
      simp
  | _ => exact ⟨nofun, nofun, nofun⟩

omit M in
theorem Complete.key {b s : Octets} {k : K} (hb : Blank b) (hk : G.string s k) (rest : Octets) :
    R.string (skip (b ++ (s ++ rest))) = some (k, rest) := by
  have hread := hc.string _ _ rest hk
  obtain ⟨q, rfl⟩ := hc.quoted _ _ hk
  rwa [skip_blank hb, List.cons_append, skip_cons rfl, ← List.cons_append]

-- The induction is on the derivation, and Reads is what it carries.
theorem Complete.reads {t : Octets} {part : Part V K} (h : Derives M G t part) : Reads M R t part := by
  induction h with
  | @scalar t v h =>
      intro fuel b rest hb hf hr
      obtain ⟨n, rfl⟩ := Nat.exists_eq_succ_of_ne_zero (Nat.ne_zero_of_lt hf)
      obtain ⟨c, q, rfl, hblank, hs, ho, ha, -⟩ := hc.starts _ _ h
      rw [List.cons_append, value_scalar (skip_token hb hblank _) hs ho ha]
      exact hc.scalar _ _ _ h hr
  | @string t k h =>
      intro fuel b rest hb hf hr
      obtain ⟨n, rfl⟩ := Nat.exists_eq_succ_of_ne_zero (Nat.ne_zero_of_lt hf)
      obtain ⟨q, rfl⟩ := hc.quoted _ _ h
      rw [List.cons_append, value_string (skip_token hb rfl _), ← List.cons_append, hc.string _ _ rest h]
      rfl
  | @emptyArray a ha =>
      intro fuel b rest hb hf hr
      obtain ⟨n, rfl⟩ := Nat.exists_eq_succ_of_ne_zero (Nat.ne_zero_of_lt hf)
      rw [List.cons_append, List.cons_append, value_array (skip_token hb rfl _), List.append_assoc, skip_blank ha]
      rfl
  | @array t vs h ih =>
      intro fuel b rest hb hf hr
      obtain ⟨n, rfl⟩ := Nat.exists_eq_succ_of_ne_zero (Nat.ne_zero_of_lt hf)
      rw [List.cons_append, List.cons_append, value_array (skip_token hb rfl _), List.append_assoc,
        if_neg ((hc.starts_open h _).2.1 vs rfl), elements_skip]
      refine ih n [] rest ?_
      simp only [List.length_append, List.length_cons, List.length_nil] at hf
      omega
  | @emptyObject a ha =>
      intro fuel b rest hb hf hr
      obtain ⟨n, rfl⟩ := Nat.exists_eq_succ_of_ne_zero (Nat.ne_zero_of_lt hf)
      rw [List.cons_append, List.cons_append, value_object (skip_token hb rfl _), List.append_assoc, skip_blank ha]
      rfl
  | @object t ms h ih =>
      intro fuel b rest hb hf hr
      obtain ⟨n, rfl⟩ := Nat.exists_eq_succ_of_ne_zero (Nat.ne_zero_of_lt hf)
      rw [List.cons_append, List.cons_append, value_object (skip_token hb rfl _), List.append_assoc,
        if_neg ((hc.starts_open h _).2.2 ms rfl), members_skip]
      refine ih n [] rest ?_
      simp only [List.length_append, List.length_cons, List.length_nil] at hf
      omega
  | @item b t a v hb h ha ih =>
      intro fuel rest hf hr
      refine ⟨a, ha, ?_⟩
      rw [List.append_assoc, List.append_assoc]
      refine ih fuel b _ hb ?_ (delimited_blank ha hr)
      simp only [List.length_append] at hf
      omega
  | @element t v h ih =>
      intro fuel vs₀ rest hf
      obtain ⟨n, rfl⟩ := Nat.exists_eq_succ_of_ne_zero (Nat.ne_zero_of_lt hf)
      obtain ⟨a, ha, hv⟩ := ih n (93 :: rest) (by omega) (delimited_cons (.inr (.inl rfl)) rest)
      exact elements_last hv (skip_token ha rfl _)
  | @elements t more v vs h hr ih ihr =>
      intro fuel vs₀ rest hf
      simp only [List.length_append, List.length_cons] at hf
      obtain ⟨n, rfl⟩ := Nat.exists_eq_succ_of_ne_zero (Nat.ne_zero_of_lt hf)
      obtain ⟨a, ha, hv⟩ := ih n (44 :: (more ++ 93 :: rest)) (by omega) (delimited_cons (.inl rfl) _)
      rw [List.append_assoc, List.cons_append, elements_more hv (skip_token ha rfl _), ihr n _ rest (by omega)]
      simp
  | @member b s a t k v hb hk ha h ih =>
      intro fuel ms₀ rest hf
      simp only [List.length_append, List.length_cons] at hf
      obtain ⟨n, rfl⟩ := Nat.exists_eq_succ_of_ne_zero (Nat.ne_zero_of_lt hf)
      obtain ⟨a', ha', hv⟩ := ih n (125 :: rest) (by omega) (delimited_cons (.inr (.inr rfl)) rest)
      simp only [List.append_assoc, List.cons_append]
      exact members_last (hc.key hb hk _) (skip_token ha rfl _) hv (skip_token ha' rfl _)
  | @members b s a t more k v ms hb hk ha h hr ih ihr =>
      intro fuel ms₀ rest hf
      simp only [List.length_append, List.length_cons] at hf
      obtain ⟨n, rfl⟩ := Nat.exists_eq_succ_of_ne_zero (Nat.ne_zero_of_lt hf)
      obtain ⟨a', ha', hv⟩ := ih n (44 :: (more ++ 125 :: rest)) (by omega) (delimited_cons (.inl rfl) _)
      simp only [List.append_assoc, List.cons_append]
      rw [members_more (hc.key hb hk _) (skip_token ha rfl _) hv (skip_token ha' rfl _), ihr n _ rest (by omega)]
      simp

end Completeness

section Inversion

variable {M R}

-- All a value can be.
theorem value_cases {fuel : Nat} {p : Octets} {v : V} {rest : Octets}
    (h : value M R (fuel + 1) p = some (v, rest)) :
    ∃ c q, skip p = c :: q ∧
      (c = 34 ∧ (∃ k, R.string (34 :: q) = some (k, rest) ∧ v = M.ofString k) ∨
        c = 123 ∧ (skip q = 125 :: rest ∧ v = M.ofObject [] ∨
          (skip q).head? ≠ some 125 ∧ members M R fuel [] (skip q) = some (v, rest)) ∨
        c = 91 ∧ (skip q = 93 :: rest ∧ v = M.ofArray [] ∨
          (skip q).head? ≠ some 93 ∧ elements M R fuel [] (skip q) = some (v, rest)) ∨
        (c ≠ 34 ∧ c ≠ 123 ∧ c ≠ 91) ∧ R.scalar (c :: q) = some (v, rest)) := by
  cases hp : skip p with
  | nil =>
      rw [value, hp] at h
      cases h
  | cons c q =>
      refine ⟨c, q, rfl, ?_⟩
      by_cases hs : c = 34
      · subst hs
        rw [value_string hp] at h
        obtain ⟨⟨k, q'⟩, hk, he⟩ := Option.map_eq_some_iff.mp h
        cases he
        exact .inl ⟨rfl, k, hk, rfl⟩
      by_cases ho : c = 123
      · subst ho
        rw [value_object hp] at h
        refine .inr (.inl ⟨rfl, ?_⟩)
        split at h
        · rename_i hclose
          cases h
          exact .inl ⟨eq_cons_of_head hclose, rfl⟩
        · rename_i hclose
          exact .inr ⟨hclose, h⟩
      by_cases ha : c = 91
      · subst ha
        rw [value_array hp] at h
        refine .inr (.inr (.inl ⟨rfl, ?_⟩))
        split at h
        · rename_i hclose
          cases h
          exact .inl ⟨eq_cons_of_head hclose, rfl⟩
        · rename_i hclose
          exact .inr ⟨hclose, h⟩
      · rw [value_scalar hp hs ho ha] at h
        exact .inr (.inr (.inr ⟨⟨hs, ho, ha⟩, h⟩))

theorem elements_cases {fuel : Nat} {vs : List V} {p : Octets} {v : V} {rest : Octets}
    (h : elements M R (fuel + 1) vs p = some (v, rest)) :
    ∃ e q, value M R fuel p = some (e, q) ∧
      (skip q = 93 :: rest ∧ v = M.ofArray (vs ++ [e]) ∨
        ∃ more, skip q = 44 :: more ∧ elements M R fuel (vs ++ [e]) more = some (v, rest)) := by
  obtain ⟨⟨e, q⟩, he, h⟩ := Option.bind_eq_some_iff.mp (by rwa [elements] at h)
  refine ⟨e, q, he, ?_⟩
  dsimp only at h
  split at h
  · rename_i hclose
    cases h
    exact .inl ⟨eq_cons_of_head hclose, rfl⟩
  · split at h
    · rename_i hcomma
      exact .inr ⟨_, eq_cons_of_head hcomma, h⟩
    · cases h

theorem members_cases {fuel : Nat} {ms : List (K × V)} {p : Octets} {v : V} {rest : Octets}
    (h : members M R (fuel + 1) ms p = some (v, rest)) :
    ∃ k p' q e q', R.string (skip p) = some (k, p') ∧ skip p' = 58 :: q ∧
      value M R fuel q = some (e, q') ∧
      (skip q' = 125 :: rest ∧ v = M.ofObject (ms ++ [(k, e)]) ∨
        ∃ more, skip q' = 44 :: more ∧ members M R fuel (ms ++ [(k, e)]) more = some (v, rest)) := by
  obtain ⟨⟨k, p'⟩, hk, h⟩ := Option.bind_eq_some_iff.mp (by rwa [members] at h)
  dsimp only at h
  split at h
  · rename_i hcolon
    obtain ⟨⟨e, q'⟩, he, h⟩ := Option.bind_eq_some_iff.mp h
    refine ⟨k, p', _, e, q', hk, eq_cons_of_head hcolon, he, ?_⟩
    dsimp only at h
    split at h
    · rename_i hclose
      cases h
      exact .inl ⟨eq_cons_of_head hclose, rfl⟩
    · split at h
      · rename_i hcomma
        exact .inr ⟨_, eq_cons_of_head hcomma, h⟩
      · cases h
  · cases h

end Inversion

section Soundness

variable {M R} {G : Tokens V K} (hs : Sound R G)

include hs

-- The induction is on the fuel. What the loops have read so far is in front.
theorem Sound.derives (fuel : Nat) :
    (∀ p v rest, value M R fuel p = some (v, rest) →
      ∃ b t, p = b ++ t ++ rest ∧ Blank b ∧ Derives M G t (.value v)) ∧
    (∀ vs p v rest, elements M R fuel vs p = some (v, rest) →
      ∃ t es, p = t ++ 93 :: rest ∧ v = M.ofArray (vs ++ es) ∧ Derives M G t (.elements es)) ∧
    (∀ ms p v rest, members M R fuel ms p = some (v, rest) →
      ∃ t es, p = t ++ 125 :: rest ∧ v = M.ofObject (ms ++ es) ∧ Derives M G t (.members es)) := by
  induction fuel with
  | zero => exact ⟨nofun, nofun, nofun⟩
  | succ n ih =>
      obtain ⟨ihv, ihe, ihm⟩ := ih
      -- A value and the blanks up to what stands behind it.
      have item : ∀ p e q c more, value M R n p = some (e, q) → skip q = c :: more →
          ∃ t, p = t ++ c :: more ∧ Derives M G t (.item e) := by
        intro p e q c more he hq
        obtain ⟨b, t, rfl, hb, ht⟩ := ihv p e q he
        obtain ⟨a, ha, hblank⟩ := skip_split q
        rw [hq] at ha
        exact ⟨b ++ t ++ a, by simp [ha], .item hb ht hblank⟩
      refine ⟨fun p v rest h => ?_, fun vs p v rest h => ?_, fun ms p v rest h => ?_⟩
      · obtain ⟨c, q, hp, hcases⟩ := value_cases h
        obtain ⟨b, hsplit, hb⟩ := skip_split p
        rw [hp] at hsplit
        rcases hcases with ⟨rfl, k, hk, rfl⟩ | ⟨rfl, hobject⟩ | ⟨rfl, harray⟩ | ⟨⟨hne, -, -⟩, hscalar⟩
        · obtain ⟨t, ht, hg⟩ := hs.string _ _ _ hk
          exact ⟨b, t, by rw [hsplit, ht, List.append_assoc], hb, .string hg⟩
        · obtain ⟨a, ha, hblank⟩ := skip_split q
          rcases hobject with ⟨hclose, rfl⟩ | ⟨-, hloop⟩
          · rw [hclose] at ha
            exact ⟨b, 123 :: a ++ [125], by simp [hsplit, ha], hb, .emptyObject hblank⟩
          · rw [members_skip] at hloop
            obtain ⟨t, es, rfl, rfl, ht⟩ := ihm _ _ _ _ hloop
            exact ⟨b, 123 :: t ++ [125], by simp [hsplit], hb, .object ht⟩
        · obtain ⟨a, ha, hblank⟩ := skip_split q
          rcases harray with ⟨hclose, rfl⟩ | ⟨-, hloop⟩
          · rw [hclose] at ha
            exact ⟨b, 91 :: a ++ [93], by simp [hsplit, ha], hb, .emptyArray hblank⟩
          · rw [elements_skip] at hloop
            obtain ⟨t, es, rfl, rfl, ht⟩ := ihe _ _ _ _ hloop
            exact ⟨b, 91 :: t ++ [93], by simp [hsplit], hb, .array ht⟩
        · obtain ⟨t, ht, hg⟩ := hs.scalar _ _ _ _ hne hscalar
          exact ⟨b, t, by rw [hsplit, ht, List.append_assoc], hb, .scalar hg⟩
      · obtain ⟨e, q, he, hend⟩ := elements_cases h
        rcases hend with ⟨hclose, rfl⟩ | ⟨more, hcomma, hloop⟩
        · obtain ⟨t, rfl, ht⟩ := item p e q _ _ he hclose
          exact ⟨t, [e], rfl, rfl, .element ht⟩
        · obtain ⟨t, rfl, ht⟩ := item p e q _ _ he hcomma
          obtain ⟨t', es, rfl, rfl, ht'⟩ := ihe _ _ _ _ hloop
          exact ⟨t ++ 44 :: t', e :: es, by simp, by simp, .elements ht ht'⟩
      · obtain ⟨k, p', q, e, q', hk, hcolon, he, hend⟩ := members_cases h
        obtain ⟨b, hp, hb⟩ := skip_split p
        obtain ⟨s, hs', hg⟩ := hs.string _ _ _ hk
        obtain ⟨a, ha, hblank⟩ := skip_split p'
        rw [hs', ha, hcolon] at hp
        rcases hend with ⟨hclose, rfl⟩ | ⟨more, hcomma, hloop⟩
        · obtain ⟨t, rfl, ht⟩ := item q e q' _ _ he hclose
          exact ⟨b ++ s ++ a ++ 58 :: t, [(k, e)], by simp [hp], rfl, .member hb hg hblank ht⟩
        · obtain ⟨t, rfl, ht⟩ := item q e q' _ _ he hcomma
          obtain ⟨t', es, rfl, rfl, ht'⟩ := ihm _ _ _ _ hloop
          exact ⟨b ++ s ++ a ++ 58 :: (t ++ 44 :: t'), (k, e) :: es, by simp [hp], by simp,
            .members hb hg hblank ht ht'⟩

end Soundness

-- Wherever the first readers succeed the second do, with the same rest, and what
-- they read is related.
structure Simulates {V₁ K₁ V₂ K₂ : Type} (M₁ : Meaning V₁ K₁) (R₁ : Readers V₁ K₁) (M₂ : Meaning V₂ K₂)
    (R₂ : Readers V₂ K₂) (relV : V₁ → V₂ → Prop) (relK : K₁ → K₂ → Prop) : Prop where
  scalar : ∀ p v₁ rest, R₁.scalar p = some (v₁, rest) → ∃ v₂, R₂.scalar p = some (v₂, rest) ∧ relV v₁ v₂
  string : ∀ p k₁ rest, R₁.string p = some (k₁, rest) → ∃ k₂, R₂.string p = some (k₂, rest) ∧ relK k₁ k₂
  ofString : ∀ k₁ k₂, relK k₁ k₂ → relV (M₁.ofString k₁) (M₂.ofString k₂)
  ofArray : ∀ vs₁ vs₂, List.Forall₂ relV vs₁ vs₂ → relV (M₁.ofArray vs₁) (M₂.ofArray vs₂)
  ofObject : ∀ ms₁ ms₂, List.Forall₂ (fun m₁ m₂ => relK m₁.1 m₂.1 ∧ relV m₁.2 m₂.2) ms₁ ms₂ →
    relV (M₁.ofObject ms₁) (M₂.ofObject ms₂)

section Simulation

variable {V₁ K₁ V₂ K₂ : Type} {M₁ : Meaning V₁ K₁} {R₁ : Readers V₁ K₁} {M₂ : Meaning V₂ K₂}
variable {R₂ : Readers V₂ K₂} {relV : V₁ → V₂ → Prop} {relK : K₁ → K₂ → Prop}

theorem Simulates.parts (h : Simulates M₁ R₁ M₂ R₂ relV relK) (fuel : Nat) :
    (∀ p v₁ rest, value M₁ R₁ fuel p = some (v₁, rest) →
      ∃ v₂, value M₂ R₂ fuel p = some (v₂, rest) ∧ relV v₁ v₂) ∧
    (∀ vs₁ vs₂ p v₁ rest, List.Forall₂ relV vs₁ vs₂ → elements M₁ R₁ fuel vs₁ p = some (v₁, rest) →
      ∃ v₂, elements M₂ R₂ fuel vs₂ p = some (v₂, rest) ∧ relV v₁ v₂) ∧
    (∀ ms₁ ms₂ p v₁ rest, List.Forall₂ (fun m₁ m₂ => relK m₁.1 m₂.1 ∧ relV m₁.2 m₂.2) ms₁ ms₂ →
      members M₁ R₁ fuel ms₁ p = some (v₁, rest) →
      ∃ v₂, members M₂ R₂ fuel ms₂ p = some (v₂, rest) ∧ relV v₁ v₂) := by
  induction fuel with
  | zero => exact ⟨nofun, nofun, nofun⟩
  | succ n ih =>
      obtain ⟨ihv, ihe, ihm⟩ := ih
      refine ⟨fun p v₁ rest hv => ?_, fun vs₁ vs₂ p v₁ rest hvs hv => ?_, fun ms₁ ms₂ p v₁ rest hms hv => ?_⟩
      · obtain ⟨c, q, hp, hcases⟩ := value_cases hv
        rcases hcases with ⟨rfl, k, hk, rfl⟩ | ⟨rfl, hobject⟩ | ⟨rfl, harray⟩ | ⟨⟨hs, ho, ha⟩, hscalar⟩
        · obtain ⟨k₂, hk₂, hrel⟩ := h.string _ _ _ hk
          exact ⟨M₂.ofString k₂, by rw [value_string hp, hk₂]; rfl, h.ofString _ _ hrel⟩
        · rw [value_object hp]
          rcases hobject with ⟨hclose, rfl⟩ | ⟨hclose, hloop⟩
          · rw [if_pos (by rw [hclose]; rfl), hclose]
            exact ⟨_, rfl, h.ofObject [] [] .nil⟩
          · rw [if_neg hclose]
            exact ihm [] [] _ _ _ .nil hloop
        · rw [value_array hp]
          rcases harray with ⟨hclose, rfl⟩ | ⟨hclose, hloop⟩
          · rw [if_pos (by rw [hclose]; rfl), hclose]
            exact ⟨_, rfl, h.ofArray [] [] .nil⟩
          · rw [if_neg hclose]
            exact ihe [] [] _ _ _ .nil hloop
        · rw [value_scalar hp hs ho ha]
          exact h.scalar _ _ _ hscalar
      · obtain ⟨e, q, he, hend⟩ := elements_cases hv
        obtain ⟨e₂, he₂, hrel⟩ := ihv _ _ _ he
        have hnext : List.Forall₂ relV (vs₁ ++ [e]) (vs₂ ++ [e₂]) :=
          List.rel_append hvs (.cons hrel .nil)
        rcases hend with ⟨hclose, rfl⟩ | ⟨more, hcomma, hloop⟩
        · exact ⟨_, elements_last he₂ hclose, h.ofArray _ _ hnext⟩
        · rw [elements_more he₂ hcomma]
          exact ihe _ _ _ _ _ hnext hloop
      · obtain ⟨k, p', q, e, q', hk, hcolon, he, hend⟩ := members_cases hv
        obtain ⟨k₂, hk₂, hrelk⟩ := h.string _ _ _ hk
        obtain ⟨e₂, he₂, hrel⟩ := ihv _ _ _ he
        have hnext : List.Forall₂ (fun m₁ m₂ => relK m₁.1 m₂.1 ∧ relV m₁.2 m₂.2) (ms₁ ++ [(k, e)])
            (ms₂ ++ [(k₂, e₂)]) := List.rel_append hms (.cons ⟨hrelk, hrel⟩ .nil)
        rcases hend with ⟨hclose, rfl⟩ | ⟨more, hcomma, hloop⟩
        · exact ⟨_, members_last hk₂ hcolon he₂ hclose, h.ofObject _ _ hnext⟩
        · rw [members_more hk₂ hcolon he₂ hcomma]
          exact ihm _ _ _ _ _ hnext hloop

theorem Simulates.of_rest (hscalar : ∀ p, (R₁.scalar p).map Prod.snd = (R₂.scalar p).map Prod.snd)
    (hstring : ∀ p, (R₁.string p).map Prod.snd = (R₂.string p).map Prod.snd) :
    Simulates M₁ R₁ M₂ R₂ (fun _ _ => True) (fun _ _ => True) := by
  have hsome : ∀ {A B : Type} {x : Option (A × Octets)} {y : Option (B × Octets)},
      x.map Prod.snd = y.map Prod.snd → ∀ a rest, x = some (a, rest) → ∃ b, y = some (b, rest) ∧ True := by
    rintro A B x y he a rest rfl
    obtain ⟨⟨b, rest'⟩, hb, hrest⟩ := Option.map_eq_some_iff.mp he.symm
    cases hrest
    exact ⟨b, hb, trivial⟩
  exact {
    scalar := fun p => hsome (hscalar p)
    string := fun p => hsome (hstring p)
    ofString := fun _ _ _ => trivial
    ofArray := fun _ _ _ => trivial
    ofObject := fun _ _ _ => trivial }

-- Readers that leave the same of every token leave the same of every text.
theorem value_rest (hscalar : ∀ p, (R₁.scalar p).map Prod.snd = (R₂.scalar p).map Prod.snd)
    (hstring : ∀ p, (R₁.string p).map Prod.snd = (R₂.string p).map Prod.snd) (fuel : Nat) (p : Octets) :
    (value M₁ R₁ fuel p).map Prod.snd = (value M₂ R₂ fuel p).map Prod.snd := by
  have hto : Simulates M₁ R₁ M₂ R₂ (fun _ _ => True) (fun _ _ => True) := .of_rest hscalar hstring
  have hfrom : Simulates M₂ R₂ M₁ R₁ (fun _ _ => True) (fun _ _ => True) :=
    .of_rest (fun p => (hscalar p).symm) fun p => (hstring p).symm
  ext rest
  simp only [Option.map_eq_some_iff, Prod.exists, exists_eq_right]
  constructor
  · rintro ⟨v, hv⟩
    obtain ⟨v', hv', -⟩ := (hto.parts fuel).1 p v rest hv
    exact ⟨v', hv'⟩
  · rintro ⟨v, hv⟩
    obtain ⟨v', hv', -⟩ := (hfrom.parts fuel).1 p v rest hv
    exact ⟨v', hv'⟩

end Simulation

end Draind.Grammar

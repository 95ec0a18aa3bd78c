import Draind.Lib.Descent

namespace Draind.Grammar

-- What the tokens of each kind are, without what they stand for.
structure Lexicon where
  scalar : Octets → Prop
  string : Octets → Prop

def Lexicon.Token (L : Lexicon) (t : Octets) : Prop :=
  L.scalar t ∨ L.string t

-- A text as the list of its tokens.
def listing : Meaning (List Octets) (List Octets) where
  ofString := id
  ofArray := List.flatten
  ofObject := List.flatMap fun m => m.1 ++ m.2

def Lexicon.tokens (L : Lexicon) : Tokens (List Octets) (List Octets) where
  scalar t ts := ts = [t] ∧ L.scalar t
  string t ts := ts = [t] ∧ L.string t

-- A text of the grammar as a whole.
def Lexicon.Text (L : Lexicon) (text : Octets) : Prop :=
  ∃ ts, Derives listing L.tokens text (.item ts)

-- What takes one token off the front of a text, and leaves the rest.
structure Scanner where
  scalar : Octets → Option (Octets × Octets)
  string : Octets → Option (Octets × Octets)

def Scanner.readers (S : Scanner) : Readers (List Octets) (List Octets) where
  scalar p := (S.scalar p).map fun r => ([r.1], r.2)
  string p := (S.string p).map fun r => ([r.1], r.2)

-- Nothing is lost, and only strings begin with a quotation mark.
structure Scanner.Splits (S : Scanner) : Prop where
  scalar : ∀ p t rest, S.scalar p = some (t, rest) → p = t ++ rest ∧ t ≠ []
  string : ∀ p t rest, S.string p = some (t, rest) → p = t ++ rest ∧ t.head? = some 34

-- What one scanner takes the other takes too.
structure Scanner.Within (S S' : Scanner) : Prop where
  scalar : ∀ p r, S.scalar p = some r → S'.scalar p = some r
  string : ∀ p r, S.string p = some r → S'.string p = some r

def Part.listed : Part (List Octets) (List Octets) → List Octets
  | .value ts => ts
  | .item ts => ts
  | .elements vs => vs.flatten
  | .members ms => ms.flatMap fun m => m.1 ++ m.2

-- Told apart by the first octet only.
def loose : Lexicon where
  scalar t := t.head? ≠ some 34
  string t := t.head? = some 34

section Listing

variable {L : Lexicon}

theorem Derives.listed {text : Octets} {part : Part (List Octets) (List Octets)}
    (h : Derives listing L.tokens text part) : ∀ t ∈ part.listed, L.Token t := by
  induction h with
  | scalar h =>
      obtain ⟨rfl, h⟩ := h
      exact List.forall_mem_singleton.mpr (.inl h)
  | string h =>
      obtain ⟨rfl, h⟩ := h
      exact List.forall_mem_singleton.mpr (.inr h)
  | emptyArray | emptyObject => exact nofun
  | array _ ih | object _ ih | item _ _ _ ih => exact ih
  | element _ ih => simpa [Part.listed] using ih
  | elements _ _ ih ihr => exact List.forall_mem_append.mpr ⟨ih, ihr⟩
  | member _ hk _ _ ih =>
      obtain ⟨rfl, hk⟩ := hk
      rw [Part.listed, List.flatMap_singleton]
      exact List.forall_mem_cons.mpr ⟨.inr hk, ih⟩
  | members _ hk _ _ _ ih ihr =>
      obtain ⟨rfl, hk⟩ := hk
      exact List.forall_mem_append.mpr ⟨List.forall_mem_cons.mpr ⟨.inr hk, ih⟩, ihr⟩

-- A text whose tokens are right as far as they are looked at is a text of the
-- grammar when each of them is right.
theorem Derives.tighten (hscalar : ∀ t, L.scalar t → t.head? ≠ some 34)
    (hstring : ∀ t, L.string t → t.head? = some 34) {text : Octets}
    {part : Part (List Octets) (List Octets)} (h : Derives listing loose.tokens text part)
    (hgood : ∀ t ∈ part.listed, L.Token t) : Derives listing L.tokens text part := by
  have key : ∀ {s ts}, loose.tokens.string s ts → (∀ t ∈ ts, L.Token t) → L.tokens.string s ts := by
    rintro s ts ⟨rfl, hs⟩ ht
    exact ⟨rfl, (List.forall_mem_singleton.mp ht).resolve_left fun h => hscalar s h hs⟩
  induction h with
  | scalar h =>
      obtain ⟨rfl, h⟩ := h
      exact .scalar ⟨rfl, (List.forall_mem_singleton.mp hgood).resolve_right fun hs => h (hstring _ hs)⟩
  | string h => exact .string (key h hgood)
  | emptyArray hb => exact .emptyArray hb
  | emptyObject hb => exact .emptyObject hb
  | array _ ih => exact .array (ih hgood)
  | object _ ih => exact .object (ih hgood)
  | item hb _ ha ih => exact .item hb (ih hgood) ha
  | element _ ih => exact .element (ih (by simpa [Part.listed] using hgood))
  | elements _ _ ih ihr =>
      obtain ⟨hv, hvs⟩ := List.forall_mem_append.mp hgood
      exact .elements (ih hv) (ihr hvs)
  | member hb hk ha _ ih =>
      obtain ⟨hks, hv⟩ := List.forall_mem_append.mp (by simpa only [Part.listed, List.flatMap_singleton] using hgood)
      exact .member hb (key hk hks) ha (ih hv)
  | members hb hk ha _ _ ih ihr =>
      obtain ⟨hm, hms⟩ := List.forall_mem_append.mp hgood
      obtain ⟨hks, hv⟩ := List.forall_mem_append.mp hm
      exact .members hb (key hk hks) ha (ih hv) (ihr hms)

end Listing

section Taking

variable {L : Lexicon} {S S' : Scanner}

theorem Scanner.Splits.sound (hs : S.Splits) : Sound S.readers loose.tokens where
  scalar c q ts rest hc h := by
    obtain ⟨⟨t, rest'⟩, ht, he⟩ := Option.map_eq_some_iff.mp h
    cases he
    obtain ⟨hsplit, hne⟩ := hs.scalar _ _ _ ht
    obtain ⟨d, t, rfl⟩ := List.exists_cons_of_ne_nil hne
    cases hsplit
    exact ⟨_, rfl, rfl, by simpa [loose] using hc⟩
  string p ts rest h := by
    obtain ⟨⟨t, rest'⟩, ht, he⟩ := Option.map_eq_some_iff.mp h
    cases he
    obtain ⟨hsplit, hquote⟩ := hs.string _ _ _ ht
    exact ⟨t, hsplit, rfl, hquote⟩

theorem Scanner.Within.value (hw : S.Within S') {fuel : Nat} {text : Octets} {r : List Octets × Octets}
    (h : value listing S.readers fuel text = some r) : value listing S'.readers fuel text = some r := by
  have hsim : Simulates listing S.readers listing S'.readers Eq Eq := {
    scalar := by
      intro p ts rest h
      obtain ⟨r, hr, he⟩ := Option.map_eq_some_iff.mp h
      exact ⟨ts, Option.map_eq_some_iff.mpr ⟨r, hw.scalar p r hr, he⟩, rfl⟩
    string := by
      intro p ts rest h
      obtain ⟨r, hr, he⟩ := Option.map_eq_some_iff.mp h
      exact ⟨ts, Option.map_eq_some_iff.mpr ⟨r, hw.string p r hr, he⟩, rfl⟩
    ofString := fun _ _ h => h
    ofArray := fun _ _ h => by rw [List.forall₂_eq_eq_eq] at h; rw [h]
    ofObject := fun ms₁ ms₂ h => by
      have heq : ms₁ = ms₂ := by
        simpa only [← Prod.ext_iff, List.forall₂_eq_eq_eq] using h
      rw [heq] }
  obtain ⟨ts, h', rfl⟩ := (hsim.parts fuel).1 text r.1 r.2 h
  exact h'

-- Whether what a lenient scanner got through is a text of the grammar shows at the
-- tokens it took and at what it left.
theorem Lexicon.text_iff (hs : S.Splits) (hw : S.Within S') (hc : Complete S'.readers L.tokens)
    {fuel : Nat} {text rest : Octets} {ts : List Octets} (hf : text.length < fuel)
    (h : value listing S.readers fuel text = some (ts, rest)) :
    L.Text text ↔ (∀ t ∈ ts, L.Token t) ∧ Blank rest := by
  constructor
  · rintro ⟨ts', hd⟩
    obtain ⟨a, ha, hread⟩ := hc.reads hd fuel [] hf (by simp [Delimited])
    rw [List.append_nil, List.append_nil, hw.value h] at hread
    cases hread
    exact ⟨hd.listed, ha⟩
  · rintro ⟨hgood, hrest⟩
    obtain ⟨b, t, rfl, hb, hd⟩ := (hs.sound.derives fuel).1 _ _ _ h
    refine ⟨ts, .item hb (hd.tighten (fun t ht => ?_) (fun t ht => ?_) hgood) hrest⟩
    · obtain ⟨c, q, rfl, -, hne, -⟩ := hc.starts t [t] ⟨rfl, ht⟩
      simpa using hne
    · obtain ⟨q, rfl⟩ := hc.quoted t [t] ⟨rfl, ht⟩
      rfl

end Taking

end Draind.Grammar

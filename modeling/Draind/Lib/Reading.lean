import Mathlib.Data.List.TakeWhile

namespace Draind.Reading

-- How a program that reads a text by index may end early: with an exception, at a
-- read outside of the text, or at a call that its stack has no room for.
inductive Stop (ε : Type) where
  | raised (e : ε)
  | outside
  | exhausted

section Reading

variable {α β γ ε : Type} (s : List α)

-- *p
def read (p : Nat) : Except (Stop ε) α :=
  match s[p]? with
  | some c => .ok c
  | none => .error .outside

-- *(p - 1)
def readBack : Nat → Except (Stop ε) α
  | 0 => .error .outside
  | p + 1 => read s p

-- p < end && test(*p)
def sees (test : α → Bool) (p : Nat) : Except (Stop ε) Bool :=
  if p < s.length then (read s p).map test else .ok false

-- while (p < end && test(*p)) ++p;
def scanWhile (test : α → Bool) (p : Nat) : Except (Stop ε) Nat :=
  if _h : p < s.length then do
    let c ← read s p
    if test c then scanWhile test (p + 1) else .ok p
  else .ok p
termination_by s.length - p

-- The text from start to p.
def slice (start p : Nat) : Except (Stop ε) (List α) :=
  (List.range' start (p - start)).mapM (read s)

-- The reader by index does what a reader of the rest of the text does, and reads
-- nothing outside. An index beyond the end has no rest.
def Matches (r : Except (Stop ε) (β × Nat)) (r' : Except ε (β × List α)) : Prop :=
  r.map (fun x => (x.1, s.drop x.2)) = r'.mapError .raised

-- What follows a result goes this deep.
def ahead (deep : List α → Nat) : Except ε (β × List α) → Nat
  | .ok x => deep x.2
  | .error _ => 0

-- Where the stack has room for so many calls inside one another, the reader does what
-- one without a stack does, and elsewhere it uses the stack up.
def Stacked (room depth : Nat) (r : Except (Stop ε) (β × Nat)) (r' : Except ε (β × List α)) : Prop :=
  if depth ≤ room then Matches s r r' else r = .error .exhausted

variable {s}

theorem read_cons {p : Nat} {c : α} {rest : List α} (h : s.drop p = c :: rest) :
    read (ε := ε) s p = .ok c ∧ s.drop (p + 1) = rest ∧ p < s.length := by
  have hlt : p < s.length := by
    by_contra hge
    rw [List.drop_eq_nil_of_le (Nat.not_lt.mp hge)] at h
    cases h
  rw [List.drop_eq_getElem_cons hlt] at h
  obtain ⟨rfl, rfl⟩ := List.cons.inj h
  exact ⟨by simp [read, hlt], rfl, hlt⟩

theorem sees_eq (test : α → Bool) (p : Nat) :
    sees (ε := ε) s test p = .ok ((s.drop p).head?.any test) := by
  unfold sees
  cases hp : s.drop p with
  | nil => rw [if_neg (Nat.not_lt.mpr (List.drop_eq_nil_iff.mp hp)), List.head?_nil, Option.any_none]
  | cons c rest =>
      obtain ⟨hread, -, hlt⟩ := read_cons (ε := ε) hp
      rw [if_pos hlt, hread, List.head?_cons, Option.any_some]
      rfl

-- The loop ends, and the rest is what it has not taken.
theorem scanWhile_spec (test : α → Bool) (p : Nat) :
    ∃ q, scanWhile (ε := ε) s test p = .ok q ∧ s.drop q = (s.drop p).dropWhile test ∧
      (p ≤ s.length → q ≤ s.length) := by
  fun_induction scanWhile (ε := ε) s test p with
  | case1 p hp ih =>
      have hdrop := List.drop_eq_getElem_cons hp
      obtain ⟨hread, -, -⟩ := read_cons (ε := ε) hdrop
      rw [hread, hdrop]
      by_cases hc : test s[p]
      · obtain ⟨q, hq, hrest, hle⟩ := ih
        exact ⟨q, (if_pos hc).trans hq, by rw [hrest, List.dropWhile_cons_of_pos hc], fun _ => hle hp⟩
      · exact ⟨p, if_neg hc, by rw [List.dropWhile_cons_of_neg hc, hdrop], id⟩
  | case2 p hp => exact ⟨p, rfl, by rw [List.drop_eq_nil_of_le (Nat.not_lt.mp hp), List.dropWhile_nil], id⟩

theorem slice_eq {start p : Nat} {text rest : List α} (hs : s.drop start = text ++ rest)
    (hp : s.drop p = rest) (hle : p ≤ s.length) (hstart : start ≤ s.length) :
    slice (ε := ε) s start p = .ok text := by
  have hlength := congrArg List.length hs
  have hrest := congrArg List.length hp
  simp only [List.length_drop, List.length_append] at hlength hrest
  rw [slice, show p - start = text.length by omega]
  clear hlength hrest hp hle hstart
  induction text generalizing start with
  | nil => rfl
  | cons c text ih =>
      obtain ⟨hread, hnext, -⟩ := read_cons (ε := ε) hs
      rw [List.length_cons, List.range'_succ, List.mapM_cons, hread, ih hnext]
      rfl

theorem Matches.ok (b : β) (p : Nat) : Matches (ε := ε) s (.ok (b, p)) (.ok (b, s.drop p)) := rfl

theorem Matches.raised (e : ε) : Matches (β := β) s (.error (.raised e)) (.error e) := rfl

theorem Matches.elim {r : Except (Stop ε) (β × Nat)} {r' : Except ε (β × List α)} (h : Matches s r r') :
    (∃ e, r = .error (.raised e) ∧ r' = .error e) ∨ ∃ b p, r = .ok (b, p) ∧ r' = .ok (b, s.drop p) := by
  unfold Matches at h
  cases r with
  | error stop =>
      cases r' with
      | error e =>
          cases h
          exact .inl ⟨e, rfl, rfl⟩
      | ok x => cases h
  | ok x =>
      cases r' with
      | error e => cases h
      | ok x' =>
          cases h
          exact .inr ⟨x.1, x.2, rfl, rfl⟩

theorem Matches.bind {r : Except (Stop ε) (β × Nat)} {r' : Except ε (β × List α)} (h : Matches s r r')
    {f : β × Nat → Except (Stop ε) (γ × Nat)} {f' : β × List α → Except ε (γ × List α)}
    (hf : ∀ b p, Matches s (f (b, p)) (f' (b, s.drop p))) : Matches s (r >>= f) (r' >>= f') := by
  rcases h.elim with ⟨e, rfl, rfl⟩ | ⟨b, p, rfl, rfl⟩
  · exact .raised e
  · exact hf b p

theorem Matches.map {r : Except (Stop ε) (β × Nat)} {r' : Except ε (β × List α)} (h : Matches s r r')
    (f : β → γ) : Matches s (r >>= fun x => .ok (f x.1, x.2)) (r'.map fun x => (f x.1, x.2)) := by
  have hbind : Matches s (r >>= fun x => .ok (f x.1, x.2)) (r' >>= fun x => .ok (f x.1, x.2)) :=
    h.bind fun b p => Matches.ok (f b) p
  cases r' with
  | error e => exact hbind
  | ok x => exact hbind

-- A conversion of what was read touches the text no more.
theorem Matches.converted (x : Except ε β) (f : β → γ) (p : Nat) :
    Matches s ((x.mapError .raised).map fun b => (f b, p)) (x.map fun b => (f b, s.drop p)) := by
  cases x <;> rfl

-- It ends with a value or with an exception of the reader of the rest.
theorem Matches.outcome {r : Except (Stop ε) (β × Nat)} {r' : Except ε (β × List α)} (h : Matches s r r') :
    r.map Prod.fst = (r'.map Prod.fst).mapError .raised := by
  rcases h.elim with ⟨e, rfl, rfl⟩ | ⟨b, p, rfl, rfl⟩
  · rfl
  · rfl

section Stacked

variable {room depth : Nat} {r : Except (Stop ε) (β × Nat)} {r' : Except ε (β × List α)}

theorem Stacked.of_matches (h : Matches s r r') (hd : depth ≤ room) : Stacked s room depth r r' := by
  rwa [Stacked, if_pos hd]

theorem Stacked.matches (h : Stacked s room depth r r') (hd : depth ≤ room) : Matches s r r' := by
  rwa [Stacked, if_pos hd] at h

theorem Stacked.exhausted (h : Stacked s room depth r r') (hd : room < depth) : r = .error .exhausted := by
  rwa [Stacked, if_neg (Nat.not_le.mpr hd)] at h

-- One call more, on a stack with room for one more.
theorem Stacked.call (h : Stacked s room depth r r') : Stacked s (room + 1) (depth + 1) r r' := by
  rwa [Stacked, if_congr Nat.succ_le_succ_iff rfl rfl]

-- What comes after a call finds the stack as it was before.
theorem Stacked.bind (h : Stacked s room depth r r') {deep : List α → Nat}
    {f : β × Nat → Except (Stop ε) (γ × Nat)} {f' : β × List α → Except ε (γ × List α)}
    (hf : ∀ b p, Stacked s room (deep (s.drop p)) (f (b, p)) (f' (b, s.drop p))) :
    Stacked s room (max depth (ahead deep r')) (r >>= f) (r' >>= f') := by
  by_cases hd : depth ≤ room
  · rcases (h.matches hd).elim with ⟨e, rfl, rfl⟩ | ⟨b, p, rfl, rfl⟩
    · exact .of_matches (.raised e) (max_le hd (Nat.zero_le room))
    · have hnext := hf b p
      by_cases hdeep : deep (s.drop p) ≤ room
      · exact .of_matches (hnext.matches hdeep) (max_le hd hdeep)
      · have hout := hnext.exhausted (Nat.not_le.mp hdeep)
        exact (if_neg fun hle => hdeep ((le_max_right _ _).trans hle)).mpr hout
  · rw [Stacked, if_neg (fun hle => hd ((le_max_left _ _).trans hle)), h.exhausted (Nat.not_le.mp hd)]
    rfl

theorem Stacked.after (h : Matches s r r') {deep : List α → Nat}
    {f : β × Nat → Except (Stop ε) (γ × Nat)} {f' : β × List α → Except ε (γ × List α)}
    (hf : ∀ b p, Stacked s room (deep (s.drop p)) (f (b, p)) (f' (b, s.drop p))) :
    Stacked s room (ahead deep r') (r >>= f) (r' >>= f') := by
  rw [← Nat.zero_max (ahead deep r')]
  exact (Stacked.of_matches h (Nat.zero_le room)).bind hf

end Stacked

end Reading

end Draind.Reading

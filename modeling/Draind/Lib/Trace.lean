import Mathlib.Data.List.Infix

namespace Draind.Trace

section Trace

variable {ε β : Type}

-- The second trace continues the first with events of one kind only.
def Grows (kind : ε → Prop) (first second : List ε) : Prop :=
  ∃ out, second = first ++ out ∧ ∀ e ∈ out, kind e

variable {kind : ε → Prop}

theorem Grows.refl (trace : List ε) : Grows kind trace trace :=
  ⟨[], by simp, by simp⟩

theorem Grows.single (trace : List ε) {e : ε} (he : kind e) : Grows kind trace (trace ++ [e]) :=
  ⟨[e], rfl, by simpa using he⟩

theorem Grows.trans {first second third : List ε} (h : Grows kind first second)
    (h' : Grows kind second third) : Grows kind first third := by
  obtain ⟨out, rfl, hk⟩ := h
  obtain ⟨out', rfl, hk'⟩ := h'
  refine ⟨out ++ out', by simp, ?_⟩
  intro e he
  rcases List.mem_append.mp he with he | he
  · exact hk e he
  · exact hk' e he

theorem Grows.mono {kind' : ε → Prop} {first second : List ε} (h : Grows kind first second)
    (himp : ∀ e, kind e → kind' e) : Grows kind' first second := by
  obtain ⟨out, he, hk⟩ := h
  exact ⟨out, he, fun e hm => himp e (hk e hm)⟩

theorem Grows.all {first second out : List ε} (h : Grows kind first second)
    (ho : second = first ++ out) : ∀ e ∈ out, kind e := by
  obtain ⟨out', rfl, hk⟩ := h
  exact List.append_cancel_left ho ▸ hk

-- What holds of all that is added holds of what is added on the way and after.
theorem Grows.split {kind₁ kind₂ : ε → Prop} {first second third : List ε}
    (h : Grows kind first third) (h₁ : Grows kind₁ first second) (h₂ : Grows kind₂ second third) :
    Grows kind first second ∧ Grows kind second third := by
  obtain ⟨out, rfl, hk⟩ := h
  obtain ⟨out₁, rfl, -⟩ := h₁
  obtain ⟨out₂, ho, -⟩ := h₂
  obtain rfl : out = out₁ ++ out₂ := List.append_cancel_left (ho.trans (List.append_assoc _ _ _))
  exact ⟨⟨out₁, rfl, fun e he => hk e (by simp [he])⟩, out₂, ho, fun e he => hk e (by simp [he])⟩

-- A summary of a trace does not see events that leave it alone.
theorem Grows.foldl_eq {first second : List ε} (h : Grows kind first second) (f : β → ε → β)
    (hf : ∀ b e, kind e → f b e = b) (b : β) : second.foldl f b = first.foldl f b := by
  obtain ⟨out, rfl, hk⟩ := h
  rw [List.foldl_append]
  generalize first.foldl f b = c
  induction out with
  | nil => rfl
  | cons e rest ih =>
      rw [List.foldl_cons, hf c e (hk e (by simp))]
      exact ih fun e he => hk e (by simp [he])

-- Every event stands in the right place between those before and behind it.
def Each (place : List ε → ε → List ε → Prop) (trace : List ε) : Prop :=
  ∀ before e after, trace = before ++ e :: after → place before e after

theorem each_nil (place : List ε → ε → List ε → Prop) : Each place [] := by
  intro before e after h
  simp at h

-- A place is kept when more events follow, and the new ones have theirs.
theorem Each.append {place : List ε → ε → List ε → Prop} {trace out : List ε} (h : Each place trace)
    (hkeep : ∀ before e after, place before e after → place before e (after ++ out))
    (hnew : ∀ before e after, out = before ++ e :: after → place (trace ++ before) e after) :
    Each place (trace ++ out) := by
  intro before e after heq
  rcases List.append_eq_append_iff.mp heq with ⟨mid, rfl, hout⟩ | ⟨mid, htrace, hafter⟩
  · exact hnew mid e after hout
  · cases mid with
    | nil =>
        obtain rfl : before = trace := by simpa using htrace.symm
        have hn := hnew [] e after hafter.symm
        rwa [List.append_nil] at hn
    | cons x mid =>
        obtain ⟨rfl, rfl⟩ := List.cons.inj hafter
        exact hkeep before e mid (h before e mid htrace)

-- Where one element of a kind stands between elements that are not of it, a list
-- splits at an element of the kind in one way only.
theorem split_unique {p : ε → Prop} {l l' r r' : List ε} {a b : ε} (h : l ++ a :: r = l' ++ b :: r')
    (hb : p b) (hl : ∀ x ∈ l, ¬p x) (hr : ∀ x ∈ r, ¬p x) : l = l' ∧ a = b ∧ r = r' := by
  induction l generalizing l' with
  | nil =>
      cases l' with
      | nil => exact ⟨rfl, List.cons.inj h⟩
      | cons x l' =>
          obtain ⟨-, rfl⟩ := List.cons.inj h
          exact absurd hb (hr b (by simp))
  | cons y l ih =>
      cases l' with
      | nil =>
          obtain ⟨rfl, -⟩ := List.cons.inj h
          exact absurd hb (hl y (by simp))
      | cons x l' =>
          obtain ⟨rfl, ht⟩ := List.cons.inj h
          obtain ⟨rfl, rfl, rfl⟩ := ih ht fun z hz => hl z (by simp [hz])
          exact ⟨rfl, rfl, rfl⟩

-- Two splits at an element of a kind with none of the kind behind are the same.
theorem split_last_unique {p : ε → Prop} {l l' r r' : List ε} {a b : ε}
    (h : l ++ a :: r = l' ++ b :: r') (ha : p a) (hb : p b) (hr : ∀ x ∈ r, ¬p x)
    (hr' : ∀ x ∈ r', ¬p x) : l = l' ∧ a = b ∧ r = r' := by
  induction l generalizing l' with
  | nil =>
      cases l' with
      | nil => exact ⟨rfl, List.cons.inj h⟩
      | cons x l' =>
          obtain ⟨-, rfl⟩ := List.cons.inj h
          exact absurd hb (hr b (by simp))
  | cons y l ih =>
      cases l' with
      | nil =>
          obtain ⟨-, rfl⟩ := List.cons.inj h
          exact absurd ha (hr' a (by simp))
      | cons x l' =>
          obtain ⟨rfl, ht⟩ := List.cons.inj h
          obtain ⟨rfl, rfl, rfl⟩ := ih ht
          exact ⟨rfl, rfl, rfl⟩

end Trace

end Draind.Trace

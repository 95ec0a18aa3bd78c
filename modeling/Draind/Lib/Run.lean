import Mathlib.Data.List.Infix

namespace Draind.Run

section Run

variable {σ ι : Type} (step : σ → ι → σ)

-- The state a sequence of moves leads to.
def exec (s : σ) (moves : List ι) : σ :=
  moves.foldl step s

-- Every move meets the condition in the state in which it is made.
def Meets (condition : σ → ι → Prop) : σ → List ι → Prop
  | _, [] => True
  | s, move :: rest => condition s move ∧ Meets condition (step s move) rest

-- Every state of the run has the property, the first and the last included.
def Throughout (property : σ → Prop) : σ → List ι → Prop
  | s, [] => property s
  | s, move :: rest => property s ∧ Throughout property (step s move) rest

@[simp] theorem exec_nil (s : σ) : exec step s [] = s := rfl

@[simp] theorem exec_cons (s : σ) (move : ι) (rest : List ι) :
    exec step s (move :: rest) = exec step (step s move) rest := rfl

@[simp] theorem exec_append (s : σ) (first second : List ι) :
    exec step s (first ++ second) = exec step (exec step s first) second :=
  List.foldl_append

theorem meets_append (condition : σ → ι → Prop) (s : σ) (first second : List ι) :
    Meets step condition s (first ++ second) ↔
      Meets step condition s first ∧ Meets step condition (exec step s first) second := by
  induction first generalizing s with
  | nil => simp [Meets]
  | cons move rest ih => simp [Meets, ih, and_assoc]

theorem Meets.imp {first second : σ → ι → Prop} (h : ∀ s move, first s move → second s move)
    {s : σ} {moves : List ι} (hm : Meets step first s moves) : Meets step second s moves := by
  induction moves generalizing s with
  | nil => trivial
  | cons move rest ih => exact ⟨h _ _ hm.1, ih hm.2⟩

theorem meets_congr {first second : σ → ι → Prop} (h : ∀ s move, first s move ↔ second s move)
    (s : σ) (moves : List ι) : Meets step first s moves ↔ Meets step second s moves :=
  ⟨.imp step fun s move => (h s move).mp, .imp step fun s move => (h s move).mpr⟩

theorem meets_true (s : σ) (moves : List ι) : Meets step (fun _ _ => True) s moves := by
  induction moves generalizing s with
  | nil => trivial
  | cons move rest ih => exact ⟨trivial, ih _⟩

-- The step lemma of an invariant carries it along every run that meets the condition.
theorem invariant {condition : σ → ι → Prop} (property : σ → Prop)
    (hstep : ∀ s move, property s → condition s move → property (step s move))
    {s : σ} {moves : List ι} (hs : property s) (hm : Meets step condition s moves) :
    property (exec step s moves) := by
  induction moves generalizing s with
  | nil => exact hs
  | cons move rest ih => exact ih (hstep _ _ hs hm.1) hm.2

theorem invariant_always (property : σ → Prop)
    (hstep : ∀ s move, property s → property (step s move))
    {s : σ} (moves : List ι) (hs : property s) : property (exec step s moves) :=
  invariant step property (fun s move h _ => hstep s move h) hs (meets_true step s moves)

-- The property may need an invariant that implies it. Where a condition keeps
-- the invariant, and breaking the condition breaks the property at once, the
-- condition decides for every run whether the property holds throughout. Both may
-- rest on what is assumed of the moves.
theorem throughout_iff_meets_under {assumed condition : σ → ι → Prop} {property : σ → Prop}
    (inv : σ → Prop)
    (hkeep : ∀ s move, inv s → assumed s move → condition s move → inv (step s move))
    (himp : ∀ s, inv s → property s)
    (hbreak : ∀ s move, inv s → assumed s move → property (step s move) → condition s move)
    {s : σ} {moves : List ι} (hs : inv s) (ha : Meets step assumed s moves) :
    Throughout step property s moves ↔ Meets step condition s moves := by
  induction moves generalizing s with
  | nil => simp [Throughout, Meets, himp s hs]
  | cons move rest ih =>
      obtain ⟨hmove, hrest⟩ := ha
      simp only [Throughout, Meets, himp s hs, true_and]
      constructor
      · intro h
        have hnext : property (step s move) := by
          cases rest with
          | nil => exact h
          | cons _ _ => exact h.1
        have hc := hbreak s move hs hmove hnext
        exact ⟨hc, (ih (hkeep s move hs hmove hc) hrest).mp h⟩
      · rintro ⟨hc, hm⟩
        exact (ih (hkeep s move hs hmove hc) hrest).mpr hm

theorem throughout_iff_meets_of_invariant {condition : σ → ι → Prop} {property : σ → Prop}
    (inv : σ → Prop)
    (hkeep : ∀ s move, inv s → condition s move → inv (step s move))
    (himp : ∀ s, inv s → property s)
    (hbreak : ∀ s move, inv s → property (step s move) → condition s move)
    {s : σ} (moves : List ι) (hs : inv s) :
    Throughout step property s moves ↔ Meets step condition s moves :=
  throughout_iff_meets_under step inv (fun s move h _ => hkeep s move h) himp
    (fun s move h _ => hbreak s move h) hs (meets_true step s moves)

theorem throughout_iff_meets {condition : σ → ι → Prop} {property : σ → Prop}
    (hstep : ∀ s move, property s → (property (step s move) ↔ condition s move))
    {s : σ} (moves : List ι) (hs : property s) :
    Throughout step property s moves ↔ Meets step condition s moves :=
  throughout_iff_meets_of_invariant step property (fun s move h => (hstep s move h).mpr) (fun _ h => h)
    (fun s move h => (hstep s move h).mp) moves hs

-- A run whose moves all meet a condition that keeps an invariant has in each of
-- its states what the invariant implies.
theorem throughout_of_meets {condition : σ → ι → Prop} {property : σ → Prop} (inv : σ → Prop)
    (hkeep : ∀ s move, inv s → condition s move → inv (step s move))
    (himp : ∀ s, inv s → property s) {s : σ} {moves : List ι} (hs : inv s)
    (hm : Meets step condition s moves) : Throughout step property s moves := by
  induction moves generalizing s with
  | nil => exact himp s hs
  | cons move rest ih => exact ⟨himp s hs, ih (hkeep s move hs hm.1) hm.2⟩

theorem throughout_iff_prefix (property : σ → Prop) (s : σ) (moves : List ι) :
    Throughout step property s moves ↔ ∀ before, before <+: moves → property (exec step s before) := by
  induction moves generalizing s with
  | nil => simp [Throughout]
  | cons move rest ih =>
      simp only [Throughout, ih]
      constructor
      · rintro ⟨hs, h⟩ before hb
        cases before with
        | nil => exact hs
        | cons first tail =>
            obtain ⟨rfl, ht⟩ := List.cons_prefix_cons.mp hb
            exact h tail ht
      · intro h
        exact ⟨h [] List.nil_prefix, fun before hb => h (move :: before) (by simpa using hb)⟩

end Run

end Draind.Run

import Mathlib.Data.List.Induction

namespace Draind.Framing

section Framing

variable {α : Type} (sep : α)

-- The stream that carries the lines, with the separator behind each of them.
def frame (lines : List (List α)) : List α :=
  lines.flatMap (· ++ [sep])

@[simp] theorem frame_nil : frame sep [] = [] := rfl

@[simp] theorem frame_cons (line : List α) (rest : List (List α)) :
    frame sep (line :: rest) = line ++ sep :: frame sep rest := by
  simp [frame]

@[simp] theorem frame_append (first second : List (List α)) :
    frame sep (first ++ second) = frame sep first ++ frame sep second := by
  simp [frame]

-- Without a separator there is no line.
theorem eq_nil_of_notMem_frame {lines : List (List α)} (h : sep ∉ frame sep lines) : lines = [] := by
  cases lines with
  | nil => rfl
  | cons line rest => simp at h

-- Whatever part of the stream has come, it is some of the lines and the beginning
-- of the next, and what is still to come completes the others.
theorem frame_split {lines : List (List α)} (hsep : ∀ line ∈ lines, sep ∉ line) (come rest : List α)
    (h : come ++ rest = frame sep lines) :
    ∃ first second left, lines = first ++ second ∧ come = frame sep first ++ left ∧ sep ∉ left ∧
      left ++ rest = frame sep second := by
  induction lines generalizing come with
  | nil =>
      obtain ⟨rfl, rfl⟩ := List.append_eq_nil_iff.mp h
      exact ⟨[], [], [], rfl, rfl, by simp, rfl⟩
  | cons line lines ih =>
      have hline : sep ∉ line := hsep line (by simp)
      rw [frame_cons, ← List.singleton_append, ← List.append_assoc] at h
      rcases List.append_eq_append_iff.mp h with ⟨missing, hl, hr⟩ | ⟨more, hc, hm⟩
      · cases missing using List.reverseRecOn with
        | nil =>
            refine ⟨[line], lines, [], rfl, ?_, by simp, by simpa using hr⟩
            simpa [frame] using hl.symm
        | append_singleton missing last =>
            rw [← List.append_assoc] at hl
            obtain ⟨hstart, hlast⟩ := List.append_inj' hl rfl
            refine ⟨[], line :: lines, come, rfl, rfl, ?_, ?_⟩
            · intro hm
              exact hline (hstart ▸ List.mem_append_left missing hm)
            · rw [hr, hstart, frame_cons, ← hlast]
              simp
      · obtain ⟨first, second, left, rfl, rfl, hleft, hrest⟩ :=
          ih (fun line hl => hsep line (by simp [hl])) more hm.symm
        exact ⟨line :: first, second, left, rfl, by simp [hc], hleft, hrest⟩

end Framing

end Draind.Framing

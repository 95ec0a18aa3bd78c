import Draind.Lib.Run

namespace Draind.Simulation

section Simulation

variable {σ ι τ κ ο : Type} (step : σ → ι → σ) (next : τ → κ → τ) (out : τ → κ → List ο)

-- All that a machine puts out over a sequence of inputs.
def outputs : τ → List κ → List ο
  | _, [] => []
  | t, input :: rest => out t input ++ outputs (next t input) rest

-- The inputs that a run stands for, where each move stands for some.
def inputsOf (inputs : σ → ι → List κ) : σ → List ι → List κ
  | _, [] => []
  | s, move :: rest => inputs s move ++ inputsOf inputs (step s move) rest

@[simp] theorem outputs_nil (t : τ) : outputs next out t [] = [] := rfl

@[simp] theorem outputs_single (t : τ) (input : κ) : outputs next out t [input] = out t input := by
  simp [outputs]

theorem outputs_append (t : τ) (first second : List κ) :
    outputs next out t (first ++ second) =
      outputs next out t first ++ outputs next out (Run.exec next t first) second := by
  induction first generalizing t with
  | nil => rfl
  | cons input rest ih => simp [outputs, ih]

-- The machine goes along with each move by the inputs the move stands for, and puts
-- out what is seen of the move.
structure Simulates (inputs : σ → ι → List κ) (seen : σ → List ο) (related : σ → τ → Prop) : Prop where
  keeps : ∀ s t move, related s t → related (step s move) (Run.exec next t (inputs s move))
  shows : ∀ s t move, related s t →
    seen (step s move) = seen s ++ outputs next out t (inputs s move)

variable {step next out}

-- Then it goes along with every run.
theorem Simulates.run {inputs : σ → ι → List κ} {seen : σ → List ο} {related : σ → τ → Prop}
    (h : Simulates step next out inputs seen related) {s : σ} {t : τ} (hr : related s t) (moves : List ι) :
    related (Run.exec step s moves) (Run.exec next t (inputsOf step inputs s moves)) ∧
      seen (Run.exec step s moves) = seen s ++ outputs next out t (inputsOf step inputs s moves) := by
  induction moves generalizing s t with
  | nil => exact ⟨hr, by simp [inputsOf]⟩
  | cons move rest ih =>
      obtain ⟨hrel, hseen⟩ := ih (h.keeps s t move hr)
      simp only [inputsOf, Run.exec_append, outputs_append, Run.exec_cons]
      exact ⟨hrel, by rw [hseen, h.shows s t move hr, List.append_assoc]⟩

end Simulation

end Draind.Simulation

import Draind.Lib.Descent

namespace Draind.Grammar

variable {V K : Type} (M : Meaning V K) (R : Readers V K)

-- How deep a loop goes behind one of its values: it goes on behind a comma.
def behind (loop : Octets → Nat) : Option Octets → Nat
  | none => 0
  | some p => if (skip p).head? = some 44 then loop (skip p).tail else 0

-- How many values stand inside one another at most in what the parser reads. Behind
-- an error it reads nothing.
mutual

def depth : Nat → Octets → Nat
  | 0, _ => 0
  | fuel + 1, p =>
      match skip p with
      | [] => 1
      | c :: q =>
          if c = 123 then
            (if (skip q).head? = some 125 then 0 else membersDepth fuel (skip q)) + 1
          else if c = 91 then
            (if (skip q).head? = some 93 then 0 else elementsDepth fuel (skip q)) + 1
          else 1

def membersDepth : Nat → Octets → Nat
  | 0, _ => 0
  | fuel + 1, p =>
      match (R.string (skip p)).map Prod.snd with
      | none => 0
      | some p =>
          if (skip p).head? = some 58 then
            max (depth fuel (skip p).tail)
              (behind (membersDepth fuel) ((value M R fuel (skip p).tail).map Prod.snd))
          else 0

def elementsDepth : Nat → Octets → Nat
  | 0, _ => 0
  | fuel + 1, p => max (depth fuel p) (behind (elementsDepth fuel) ((value M R fuel p).map Prod.snd))

end

section Depth

variable {M R}

theorem depth_empty {p : Octets} (hp : skip p = []) (fuel : Nat) : depth M R (fuel + 1) p = 1 := by
  rw [depth, hp]

theorem depth_object {p q : Octets} (hp : skip p = 123 :: q) (fuel : Nat) :
    depth M R (fuel + 1) p =
      (if (skip q).head? = some 125 then 0 else membersDepth M R fuel (skip q)) + 1 := by
  rw [depth, hp]
  rfl

theorem depth_array {p q : Octets} (hp : skip p = 91 :: q) (fuel : Nat) :
    depth M R (fuel + 1) p =
      (if (skip q).head? = some 93 then 0 else elementsDepth M R fuel (skip q)) + 1 := by
  rw [depth, hp]
  rfl

theorem depth_single {p q : Octets} {c : UInt8} (hp : skip p = c :: q) (ho : c ≠ 123) (ha : c ≠ 91)
    (fuel : Nat) : depth M R (fuel + 1) p = 1 := by
  rw [depth, hp]
  simp [ho, ha]

theorem depth_succ (M : Meaning V K) (R : Readers V K) (fuel : Nat) (p : Octets) :
    ∃ d, depth M R (fuel + 1) p = d + 1 := by
  cases hp : skip p with
  | nil => exact ⟨0, depth_empty hp fuel⟩
  | cons c q =>
      by_cases ho : c = 123
      · exact ⟨_, depth_object (ho ▸ hp) fuel⟩
      by_cases ha : c = 91
      · exact ⟨_, depth_array (ha ▸ hp) fuel⟩
      · exact ⟨0, depth_single hp ho ha fuel⟩

theorem depth_le_elementsDepth (fuel : Nat) (p : Octets) :
    depth M R fuel p ≤ elementsDepth M R (fuel + 1) p :=
  le_max_left _ _

-- Every opening bracket opens a value in the one before, and one is expected behind
-- the last.
theorem lt_depth_replicate (n : Nat) :
    ∀ fuel, 2 * n < fuel → n < depth M R fuel (List.replicate n 91) := by
  induction n with
  | zero =>
      intro fuel hfuel
      obtain ⟨fuel, rfl⟩ := Nat.exists_eq_succ_of_ne_zero (Nat.ne_of_gt hfuel)
      rw [List.replicate_zero, depth_empty rfl]
      exact Nat.one_pos
  | succ n ih =>
      intro fuel hfuel
      obtain ⟨fuel, rfl⟩ : ∃ k, fuel = k + 1 + 1 := ⟨fuel - 2, by omega⟩
      have hskip : skip (List.replicate n 91) = List.replicate n 91 := by
        cases n with
        | zero => rfl
        | succ n => exact skip_cons (by decide) _
      have hopen : (skip (List.replicate n 91)).head? ≠ some 93 := by
        rw [hskip]
        cases n <;> simp [List.replicate_succ]
      rw [List.replicate_succ, depth_array (skip_cons (by decide) _), if_neg hopen, hskip]
      exact Nat.succ_lt_succ ((ih fuel (by omega)).trans_le (depth_le_elementsDepth fuel _))

end Depth

end Draind.Grammar

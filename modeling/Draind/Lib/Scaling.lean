import Mathlib.Dynamics.FixedPoints.Basic
import Mathlib.Tactic.Linarith

namespace Draind.Scaling

section Scaling

-- A level between 0 and top, kept as a number of parts of which top has scale. Both
-- conversions round down.
variable (scale top : Int)

def share (level : Int) : Int :=
  level * scale / top

def level (share : Int) : Int :=
  top * share / scale

-- What a level becomes when it is kept as its share.
def settle (b : Int) : Int :=
  level scale top (share scale top b)

variable {scale top}

theorem share_nonneg (hs : 0 < scale) (ht : 0 < top) {b : Int} (hb : 0 ≤ b) : 0 ≤ share scale top b :=
  Int.ediv_nonneg (Int.mul_nonneg hb hs.le) ht.le

theorem share_le_scale (hs : 0 < scale) (ht : 0 < top) {b : Int} (hb : b ≤ top) :
    share scale top b ≤ scale := by
  unfold share
  refine Int.ediv_le_of_le_mul ht ?_
  rw [mul_comm scale top]
  exact mul_le_mul_of_nonneg_right hb hs.le

theorem level_nonneg (hs : 0 < scale) (ht : 0 < top) {n : Int} (hn : 0 ≤ n) : 0 ≤ level scale top n :=
  Int.ediv_nonneg (Int.mul_nonneg ht.le hn) hs.le

theorem level_le_iff (hs : 0 < scale) (n b : Int) : level scale top n ≤ b ↔ top * n < scale * (b + 1) := by
  unfold level
  rw [← Int.lt_add_one_iff, Int.ediv_lt_iff_lt_mul hs, mul_comm scale]

theorem settle_le (hs : 0 < scale) (ht : 0 < top) (b : Int) : settle scale top b ≤ b := by
  have hshare : top * (b * scale / top) ≤ b * scale := Int.mul_ediv_self_le ht.ne'
  rw [settle, level_le_iff hs]
  unfold share
  linarith

theorem settle_eq_iff (hs : 0 < scale) (ht : 0 < top) (b : Int) :
    settle scale top b = b ↔ top ∣ scale * b := by
  rw [mul_comm scale b]
  constructor
  · intro h
    have hle : top * (b * scale / top) ≤ b * scale := Int.mul_ediv_self_le ht.ne'
    have hge : b * scale ≤ top * (b * scale / top) := by
      rw [← Int.le_ediv_iff_mul_le hs]
      exact h.ge
    exact ⟨_, le_antisymm hge hle⟩
  · intro h
    unfold settle level share
    rw [Int.mul_ediv_cancel' h, Int.mul_ediv_cancel b hs.ne']

theorem iterate_settle_le (hs : 0 < scale) (ht : 0 < top) (n : Nat) (b : Int) :
    (settle scale top)^[n] b ≤ b := by
  induction n generalizing b with
  | zero => exact le_rfl
  | succ n ih => exact (ih _).trans (settle_le hs ht b)

-- A level that its share does not reproduce never comes back.
theorem iterate_settle_eq_iff (hs : 0 < scale) (ht : 0 < top) (n : Nat) (b : Int) :
    (settle scale top)^[n] b = b ↔ n = 0 ∨ top ∣ scale * b := by
  cases n with
  | zero => simp
  | succ n =>
      rw [← settle_eq_iff hs ht b]
      constructor
      · intro h
        refine .inr ((settle_le hs ht b).antisymm ?_)
        calc b = (settle scale top)^[n] (settle scale top b) := h.symm
          _ ≤ settle scale top b := iterate_settle_le hs ht n _
      · rintro (h | h)
        · cases h
        · exact Function.iterate_fixed h (n + 1)

end Scaling

end Draind.Scaling

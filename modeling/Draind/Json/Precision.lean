import Draind.Json.Numerals
import Mathlib.Tactic.Ring

namespace Draind.Json

-- The double is the integer n, up to its sign.
def Double.Holds (d : Double) (n : Nat) : Prop :=
  (scaleDown 2 (-d.exp) d.mant 1).1 = n * (scaleDown 2 (-d.exp) d.mant 1).2

-- n with all but its leading digits turned into zeros, to the nearest such number
-- and between two of them to the one that ends in an even digit.
def roundSignificant (digits n : Nat) : Nat :=
  let cut := 10 ^ (Nat.log 10 n + 1 - digits)
  roundHalfEven n cut * cut

section Rounding

theorem scaleDown_pos (base : Nat) (exponent : Int) (numerator denominator : Nat) (hb : 0 < base)
    (hd : 0 < denominator) : 0 < (scaleDown base exponent numerator denominator).2 := by
  unfold scaleDown
  split
  · exact Nat.mul_pos hd (Nat.pow_pos hb)
  · exact hd

theorem scaleDown_zero (base : Nat) (exponent : Int) (denominator : Nat) :
    (scaleDown base exponent 0 denominator).1 = 0 := by
  unfold scaleDown
  split
  · rfl
  · exact Nat.zero_mul _

theorem roundHalfEven_mul (a b c : Nat) (hc : 0 < c) : roundHalfEven (a * c) (b * c) = roundHalfEven a b := by
  have hlt : b * c < 2 * (a % b * c) ↔ b < 2 * (a % b) := by
    rw [← Nat.mul_assoc]
    exact Nat.mul_lt_mul_right hc
  have heq : 2 * (a % b * c) = b * c ↔ 2 * (a % b) = b := by
    rw [← Nat.mul_assoc]
    exact Nat.mul_left_inj (by omega)
  simp only [roundHalfEven, Nat.mul_div_mul_right a b hc, Nat.mul_mod_mul_right, hlt, heq]

theorem roundHalfEven_exact (a b : Nat) (hb : 0 < b) : roundHalfEven (a * b) b = a := by
  simp [roundHalfEven, Nat.mul_div_cancel a hb, Nat.mul_mod_left, Nat.ne_of_lt hb]

theorem roundHalfEven_bounds (a b : Nat) : a / b ≤ roundHalfEven a b ∧ roundHalfEven a b ≤ a / b + 1 := by
  unfold roundHalfEven
  dsimp only
  split <;> omega

end Rounding

section Nearest

theorem floorLog2_mul (n d : Nat) (hn : 0 < n) (hd : 0 < d) : floorLog2 (n * d) d = Nat.log 2 n := by
  have hnd : n * d ≠ 0 := Nat.mul_ne_zero (by omega) (by omega)
  have hlow := Nat.pow_log_le_self 2 hnd
  have hhigh := Nat.lt_pow_succ_log_self (b := 2) (by decide) (n * d)
  have hnlow := Nat.pow_log_le_self 2 (show n ≠ 0 by omega)
  have hnhigh := Nat.lt_pow_succ_log_self (b := 2) (by decide) n
  have hdlow := Nat.pow_log_le_self 2 (show d ≠ 0 by omega)
  have hdhigh := Nat.lt_pow_succ_log_self (b := 2) (by decide) d
  have hle : Nat.log 2 n + Nat.log 2 d ≤ Nat.log 2 (n * d) := by
    rw [Nat.le_log_iff_pow_le (by decide) hnd, Nat.pow_add]
    exact Nat.mul_le_mul hnlow hdlow
  have hge : Nat.log 2 (n * d) < Nat.log 2 n + 1 + (Nat.log 2 d + 1) := by
    rw [← Nat.pow_lt_pow_iff_right (a := 2) (by decide), Nat.pow_add]
    exact lt_of_le_of_lt hlow (Nat.mul_lt_mul'' hnhigh hdhigh)
  obtain ⟨k, hk⟩ : ∃ k : Nat, Nat.log 2 (n * d) = k + Nat.log 2 d :=
    ⟨Nat.log 2 (n * d) - Nat.log 2 d, by omega⟩
  have hscale : scaleDown 2 (k : Int) (n * d) d = (n * d, d * 2 ^ k) := by
    simp [scaleDown]
  have hcut : d * 2 ^ k ≤ n * d ↔ k ≤ Nat.log 2 n := by
    rw [Nat.mul_comm n d, Nat.mul_le_mul_left_iff hd, ← Nat.le_log_iff_pow_le (by decide) (by omega)]
  unfold floorLog2
  rw [hk, Nat.cast_add, Int.add_sub_cancel]
  dsimp only
  rw [hscale]
  dsimp only
  split
  · rename_i h
    have := hcut.mp h
    omega
  · rename_i h
    have := mt hcut.mpr h
    omega

-- The two sides of an integer's binary point, by the place of its leading bit.
theorem scale_bit (n d : Nat) (e : Int) :
    scaleDown 2 e (n * d) d =
      if 0 ≤ e then (n * d, 2 ^ e.toNat * d) else (n * 2 ^ (-e).toNat * d, d) := by
  unfold scaleDown
  split
  · rw [Nat.mul_comm d]
  · rw [Nat.mul_right_comm]

theorem holds_up (neg : Bool) (m j n : Nat) : Double.Holds ⟨neg, m, j⟩ n ↔ m * 2 ^ j = n := by
  unfold Double.Holds scaleDown
  dsimp only
  cases j with
  | zero => simp
  | succ j =>
      rw [if_neg (by omega)]
      simp

theorem holds_down (neg : Bool) (m j n : Nat) : Double.Holds ⟨neg, m, -j⟩ n ↔ m = n * 2 ^ j := by
  unfold Double.Holds scaleDown
  simp

-- An integer with at most 53 significant bits is converted without loss.
theorem nearestDouble_exact (neg : Bool) (n d q t : Nat) (hn : 0 < n) (hd : 0 < d) (hq : q < 2 ^ 53)
    (heq : n = q * 2 ^ t) :
    ∃ m, nearestDouble neg (n * d) d = ⟨neg, m, Nat.log 2 n - 52⟩ ∧ 2 ^ 52 ≤ m ∧
      Double.Holds ⟨neg, m, Nat.log 2 n - 52⟩ n := by
  have hlow := Nat.pow_log_le_self 2 (show n ≠ 0 by omega)
  have hhigh := Nat.lt_pow_succ_log_self (b := 2) (by decide) n
  have hexp : max (floorLog2 (n * d) d - 52) (-1074) = (Nat.log 2 n : Int) - 52 := by
    rw [floorLog2_mul n d hn hd]
    omega
  have hnd : n * d ≠ 0 := Nat.mul_ne_zero (by omega) (by omega)
  have hlog : Nat.log 2 n < t + 53 := by
    rw [← Nat.pow_lt_pow_iff_right (a := 2) (by decide), Nat.pow_add, Nat.mul_comm (2 ^ t)]
    refine lt_of_le_of_lt hlow ?_
    rw [heq]
    exact Nat.mul_lt_mul_of_pos_right hq (Nat.two_pow_pos t)
  unfold nearestDouble
  rw [if_neg hnd]
  dsimp only
  rw [hexp, scale_bit]
  generalize Nat.log 2 n = k at *
  by_cases hk : 52 ≤ k
  · obtain ⟨j, rfl⟩ := Nat.exists_eq_add_of_le hk
    obtain ⟨i, rfl⟩ := Nat.exists_eq_add_of_le (show j ≤ t by omega)
    have hcast : ((52 + j : Nat) : Int) - 52 = j := by omega
    have hm : n = q * 2 ^ i * 2 ^ j := by
      rw [heq, Nat.add_comm j, Nat.pow_add, Nat.mul_assoc]
    have hpos := Nat.two_pow_pos j
    have hmlow : 2 ^ 52 ≤ q * 2 ^ i := by
      rw [hm, Nat.pow_add] at hlow
      exact Nat.le_of_mul_le_mul_right hlow hpos
    have hmhigh : q * 2 ^ i < 2 ^ 53 := by
      rw [hm, show (52 + j).succ = 53 + j by omega, Nat.pow_add] at hhigh
      exact Nat.lt_of_mul_lt_mul_right hhigh
    have hround : roundHalfEven (n * d) (2 ^ j * d) = q * 2 ^ i := by
      rw [roundHalfEven_mul _ _ _ hd, hm, roundHalfEven_exact _ _ hpos]
    rw [hcast, if_pos (show (0 : Int) ≤ j by omega)]
    dsimp only
    rw [Int.toNat_natCast, hround, if_neg (by omega)]
    exact ⟨_, rfl, hmlow, (holds_up neg _ j n).mpr hm.symm⟩
  · obtain ⟨j, hj⟩ := Nat.exists_eq_add_of_le (show k ≤ 52 by omega)
    have hcast : (k : Int) - 52 = -(j : Int) := by omega
    have hpos := Nat.two_pow_pos j
    have hmlow : 2 ^ 52 ≤ n * 2 ^ j := by
      rw [hj, Nat.pow_add]
      exact Nat.mul_le_mul_right _ hlow
    have hmhigh : n * 2 ^ j < 2 ^ 53 := by
      rw [show 53 = k + 1 + j by omega, Nat.pow_add]
      exact Nat.mul_lt_mul_of_pos_right hhigh hpos
    rw [hcast, if_neg (show ¬(0 : Int) ≤ -j by omega)]
    dsimp only
    rw [Int.neg_neg, Int.toNat_natCast, roundHalfEven_exact _ _ hd, if_neg (by omega)]
    exact ⟨_, rfl, hmlow, (holds_down neg _ j n).mpr rfl⟩

theorem isTiny_integer (n d : Nat) (hn : 0 < n) (hd : 0 < d) : isTiny (n * d) d = false := by
  have hexp : ¬floorLog2 (n * d) d - 52 < -1074 := by
    rw [floorLog2_mul n d hn hd]
    omega
  unfold isTiny
  rw [Bool.and_eq_false_imp]
  exact fun h => absurd (of_decide_eq_true h) hexp

-- A numeral that denotes an integer with at most 53 significant bits is held as it is.
theorem stod_integer (text : Bytes) (neg : Bool) (digits : Nat) (exp : Int) (n q t : Nat)
    (hscan : scanNumeral text = some ⟨neg, digits, exp⟩)
    (hn : (scaleDown 10 (-exp) digits 1).1 = n * (scaleDown 10 (-exp) digits 1).2)
    (hq : q < 2 ^ 53) (heq : n = q * 2 ^ t) (ht : t ≤ 900) :
    ∃ d, stod text = .ok d ∧ d.neg = neg ∧ d.Holds n := by
  have hd := scaleDown_pos 10 (-exp) digits 1 (by decide) (by decide)
  unfold stod
  rw [hscan]
  dsimp only
  rw [hn]
  generalize (scaleDown 10 (-exp) digits 1).2 = d at *
  by_cases h0 : n = 0
  · subst h0
    have hzero : nearestDouble neg (0 * d) d = ⟨neg, 0, -1074⟩ := by simp [nearestDouble]
    rw [hzero]
    refine ⟨⟨neg, 0, -1074⟩, if_neg ?_, rfl, (holds_down neg 0 1074 0).mpr (Nat.zero_mul _).symm⟩
    rintro (h | ⟨-, h⟩)
    · dsimp only at h
      omega
    · exact h (by rw [scaleDown_zero]; simp)
  · obtain ⟨m, hm, hlow, hholds⟩ := nearestDouble_exact neg n d q t (by omega) hd hq heq
    have hlog : Nat.log 2 n < t + 53 := by
      refine Nat.log_lt_of_lt_pow h0 ?_
      rw [heq, Nat.add_comm, Nat.pow_add]
      exact Nat.mul_lt_mul_of_pos_right hq (Nat.two_pow_pos t)
    rw [hm]
    have htiny := isTiny_integer n d (Nat.pos_of_ne_zero h0) hd
    refine ⟨_, if_neg ?_, rfl, hholds⟩
    rintro (h | ⟨h, -⟩)
    · dsimp only at h
      omega
    · exact Bool.noConfusion (htiny.symm.trans h)

theorem Double.Holds.toInt64 {d : Double} {n : Nat} (h : d.Holds n) (hn : n < 2 ^ 63) :
    d.toInt64 = Int64.ofInt (if d.neg then -n else n) := by
  have hpos := scaleDown_pos 2 (-d.exp) d.mant 1 (by decide) (by decide)
  have hdiv : (scaleDown 2 (-d.exp) d.mant 1).1 / (scaleDown 2 (-d.exp) d.mant 1).2 = n := by
    rw [h, Nat.mul_div_cancel _ hpos]
  unfold Double.toInt64
  dsimp only
  rw [hdiv]
  refine if_neg ?_
  split <;> omega

end Nearest

section Digits

theorem natDecimal_length (n : Nat) (hn : n ≠ 0) : (natDecimal n).length = Nat.log 10 n + 1 := by
  rw [natDecimal, if_neg hn]
  simp [Nat.length_digits 10 n (by decide) hn]

theorem natDecimal_shift (n j : Nat) (hn : 0 < n) :
    natDecimal (n * 10 ^ j) = natDecimal n ++ List.replicate j 48 := by
  have hne : n * 10 ^ j ≠ 0 := Nat.mul_ne_zero (by omega) (by simp)
  have hdigits := Nat.digits_base_pow_mul (b := 10) (k := j) (by decide) hn
  rw [natDecimal, natDecimal, if_neg hne, if_neg (by omega), Nat.mul_comm, hdigits]
  simp

theorem natOfDecimal_concat (digits : Bytes) (c : UInt8) :
    natOfDecimal (digits ++ [c]) = 10 * natOfDecimal digits + digitValue c := by
  simp [natOfDecimal]

theorem natOfDecimal_append (whole rest : Bytes) :
    natOfDecimal (whole ++ rest) = natOfDecimal whole * 10 ^ rest.length + natOfDecimal rest := by
  induction rest using List.reverseRecOn with
  | nil => simp [natOfDecimal]
  | append_singleton rest c ih =>
      rw [← List.append_assoc, natOfDecimal_concat, natOfDecimal_concat, ih, List.length_append,
        List.length_singleton]
      ring

theorem natOfDecimal_zeros (j : Nat) : natOfDecimal (List.replicate j 48) = 0 := by
  induction j with
  | zero => rfl
  | succ j ih => simpa [natOfDecimal, List.replicate_succ, digitValue] using ih

theorem stripZeros_append (digits : Bytes) :
    ∃ j, digits = stripZeros digits ++ List.replicate j 48 := by
  have hsplit := List.takeWhile_append_dropWhile (p := (· = (48 : UInt8))) (l := digits.reverse)
  have hzeros : digits.reverse.takeWhile (· = (48 : UInt8)) =
      List.replicate (digits.reverse.takeWhile (· = (48 : UInt8))).length 48 := by
    refine List.eq_replicate_iff.mpr ⟨rfl, fun c hc => ?_⟩
    simpa using List.mem_takeWhile_imp hc
  refine ⟨(digits.reverse.takeWhile (· = (48 : UInt8))).length, ?_⟩
  have hreverse := congrArg List.reverse hsplit
  rw [List.reverse_append, List.reverse_reverse, hzeros, List.reverse_replicate] at hreverse
  simpa [stripZeros] using hreverse.symm

theorem stripZeros_zeros (j : Nat) : stripZeros (List.replicate j 48) = [] := by
  simp [stripZeros]

end Digits

section Integers

theorem floorLog10_mul (n d : Nat) (hn : 0 < n) (hd : 0 < d) : floorLog10 (n * d) d = Nat.log 10 n := by
  rw [floorLog10, if_pos (Nat.le_mul_of_pos_left d hn), Nat.mul_div_cancel n hd]

-- Six digits of an integer, before trailing zeros are cut.
theorem six_digits (n d : Nat) (hd : 0 < d) :
    roundHalfEven (scaleDown 10 ((Nat.log 10 n : Int) - 5) (n * d) d).1
        (scaleDown 10 ((Nat.log 10 n : Int) - 5) (n * d) d).2 =
      if Nat.log 10 n ≤ 5 then n * 10 ^ (5 - Nat.log 10 n)
      else roundHalfEven n (10 ^ (Nat.log 10 n - 5)) := by
  generalize Nat.log 10 n = k
  by_cases hk : k ≤ 5
  · obtain ⟨j, hj⟩ := Nat.exists_eq_add_of_le hk
    rw [if_pos hk, show 5 - k = j by omega, show (k : Int) - 5 = -(j : Int) by omega]
    unfold scaleDown
    cases j with
    | zero => simpa using roundHalfEven_exact n d hd
    | succ j =>
        rw [if_neg (by omega)]
        dsimp only
        rw [Int.neg_neg, Int.toNat_natCast, Nat.mul_right_comm]
        exact roundHalfEven_exact _ _ hd
  · obtain ⟨j, rfl⟩ := Nat.exists_eq_add_of_le (show 5 ≤ k by omega)
    rw [if_neg hk, show 5 + j - 5 = j by omega, show ((5 + j : Nat) : Int) - 5 = j by omega]
    unfold scaleDown
    rw [if_pos (by omega)]
    dsimp only
    rw [Int.toNat_natCast, Nat.mul_comm d]
    exact roundHalfEven_mul _ _ _ hd

theorem Double.Holds.mant_eq_zero {d : Double} {n : Nat} (h : d.Holds n) : d.mant = 0 ↔ n = 0 := by
  have hpos := scaleDown_pos 2 (-d.exp) d.mant 1 (by decide) (by decide)
  unfold Double.Holds at h
  constructor
  · intro hm
    rw [hm] at h hpos
    rw [scaleDown_zero] at h
    exact (Nat.mul_eq_zero.mp h.symm).resolve_right (by omega)
  · rintro rfl
    rw [Nat.zero_mul] at h
    unfold scaleDown at h
    split at h
    · exact h
    · exact (Nat.mul_eq_zero.mp h).resolve_right (by simp)

-- Up to six digits an integer is printed as it is.
theorem formatG_small {d : Double} {n : Nat} (h : d.Holds n) (hn : n < 10 ^ 6) :
    formatG d = (if d.neg then [45] else []) ++ natDecimal n := by
  unfold formatG
  dsimp only
  by_cases h0 : n = 0
  · rw [if_pos (h.mant_eq_zero.mpr h0), h0]
    rfl
  rw [if_neg (mt h.mant_eq_zero.mp h0)]
  have hpos := scaleDown_pos 2 (-d.exp) d.mant 1 (by decide) (by decide)
  have hlog : Nat.log 10 n ≤ 5 := by
    have := Nat.log_lt_of_lt_pow h0 hn
    omega
  have hsix := six_digits n (scaleDown 2 (-d.exp) d.mant 1).2 hpos
  have hten := floorLog10_mul n (scaleDown 2 (-d.exp) d.mant 1).2 (by omega) hpos
  unfold Double.Holds at h
  rw [if_pos hlog] at hsix
  rw [h, hten, hsix]
  have hhigh := Nat.lt_pow_succ_log_self (b := 10) (by decide) n
  have hlt : n * 10 ^ (5 - Nat.log 10 n) < 10 ^ 6 := by
    rw [show 6 = Nat.log 10 n + 1 + (5 - Nat.log 10 n) by omega, Nat.pow_add 10 (Nat.log 10 n + 1)]
    exact Nat.mul_lt_mul_of_pos_right hhigh (by simp)
  have hlen : (natDecimal n).length = Nat.log 10 n + 1 := natDecimal_length n h0
  rw [if_neg (Nat.ne_of_lt hlt)]
  dsimp only
  rw [if_neg (by omega), if_pos (by omega), Int.toNat_natCast, natDecimal_shift n _ (by omega), ← hlen,
    List.take_left, List.drop_left, stripZeros_zeros]
  rfl

-- Above, six digits and a power of ten are left.
theorem formatG_large {d : Double} {n : Nat} (h : d.Holds n) (hn : 10 ^ 6 ≤ n) :
    ∃ r x, 10 ^ 5 ≤ r ∧ r < 10 ^ 6 ∧ r * 10 ^ (x + 1) = roundSignificant 6 n ∧
      formatG d = (if d.neg then [45] else []) ++
        withPoint ((natDecimal r).take 1) (stripZeros ((natDecimal r).drop 1)) ++ [101, 43] ++
        if (natDecimal (x + 6)).length < 2 then 48 :: natDecimal (x + 6) else natDecimal (x + 6) := by
  have h0 : n ≠ 0 := by omega
  have hpos := scaleDown_pos 2 (-d.exp) d.mant 1 (by decide) (by decide)
  have hlow := Nat.pow_log_le_self 10 h0
  have hhigh := Nat.lt_pow_succ_log_self (b := 10) (by decide) n
  have hsix := six_digits n (scaleDown 2 (-d.exp) d.mant 1).2 hpos
  have hten := floorLog10_mul n (scaleDown 2 (-d.exp) d.mant 1).2 (by omega) hpos
  have hmant := mt h.mant_eq_zero.mp h0
  obtain ⟨k, hk⟩ := Nat.exists_eq_add_of_le (Nat.le_log_of_pow_le (by decide) hn)
  unfold Double.Holds at h
  unfold formatG roundSignificant
  dsimp only
  rw [hk] at hlow hhigh hsix hten ⊢
  rw [if_neg (by omega), show 6 + k - 5 = k + 1 by omega] at hsix
  rw [if_neg hmant, h, hten, hsix, show 6 + k + 1 - 6 = k + 1 by omega]
  have hcut : 0 < 10 ^ (k + 1) := by simp
  have hdiv : 10 ^ 5 ≤ n / 10 ^ (k + 1) ∧ n / 10 ^ (k + 1) < 10 ^ 6 := by
    rw [Nat.le_div_iff_mul_le hcut, Nat.div_lt_iff_lt_mul hcut, ← Nat.pow_add, ← Nat.pow_add]
    exact ⟨by rwa [show 5 + (k + 1) = 6 + k by omega], by rwa [show 6 + (k + 1) = (6 + k).succ by omega]⟩
  have hbounds := roundHalfEven_bounds n (10 ^ (k + 1))
  generalize roundHalfEven n (10 ^ (k + 1)) = r at *
  -- Rounding up may reach a seventh digit.
  by_cases hr : r = 10 ^ 6
  · refine ⟨10 ^ 5, k + 1, by decide, by decide, by rw [hr]; ring, ?_⟩
    have hx : ((6 + k : Nat) : Int) + 1 = (k + 1 + 6 : Nat) := by omega
    rw [if_pos hr, hx]
    exact if_pos (.inr (by omega))
  · refine ⟨r, k, by omega, by omega, rfl, ?_⟩
    rw [if_neg hr, Nat.add_comm 6 k]
    exact if_pos (.inr (by omega))

theorem roundSignificant_small (n : Nat) (hn : n < 10 ^ 6) : roundSignificant 6 n = n := by
  have hlog : Nat.log 10 n < 6 := by
    by_cases h0 : n = 0
    · simp [h0]
    · exact Nat.log_lt_of_lt_pow h0 hn
  have hround := roundHalfEven_exact n 1 (by decide)
  rw [Nat.mul_one] at hround
  rw [roundSignificant, show Nat.log 10 n + 1 - 6 = 0 by omega, Nat.pow_zero, hround, Nat.mul_one]

theorem roundSignificant_le (digits n : Nat) (hd : 0 < digits) : roundSignificant digits n ≤ 2 * n := by
  by_cases h0 : n = 0
  · subst h0
    simp [roundSignificant, roundHalfEven]
  unfold roundSignificant
  dsimp only
  have hcut : 10 ^ (Nat.log 10 n + 1 - digits) ≤ n :=
    le_trans (Nat.pow_le_pow_right (by decide) (by omega)) (Nat.pow_log_le_self 10 h0)
  generalize 10 ^ (Nat.log 10 n + 1 - digits) = cut at *
  have hround := Nat.mul_le_mul_right cut (roundHalfEven_bounds n cut).2
  have hdiv := Nat.div_mul_le_self n cut
  rw [Nat.add_mul, Nat.one_mul] at hround
  omega

end Integers

section Reading

theorem stoll_signed (neg : Bool) (n : Nat) (hn : n < 2 ^ 63) :
    stoll ((if neg then [45] else []) ++ natDecimal n) = .ok (Int64.ofInt (if neg then -n else n)) := by
  have hscan : scanInteger ((if neg then [45] else []) ++ natDecimal n) =
      some (if neg then -(n : Int) else n) := by
    cases neg with
    | false => exact scanInteger_decimal n
    | true =>
        by_cases h0 : n = 0
        · subst h0
          rfl
        · have hdecimal : decimal (-(n : Int)) = 45 :: natDecimal n := by
            rw [decimal, if_pos (by omega), Int.natAbs_neg, Int.natAbs_natCast]
          have h := scanInteger_decimal (-(n : Int))
          rwa [hdecimal] at h
  rw [stoll, hscan]
  refine if_neg ?_
  split <;> omega

-- A numeral with an exponent that is not negative, part by part.
theorem scanNumeral_parts {text whole left fraction exponent : Bytes} {neg : Bool}
    (hneg : decide (text.head? = some 45) = neg)
    (hwhole : (if text.head? = some 45 then text.tail else text).span isDigit = (whole, left))
    (hfraction : (if left.head? = some 46 then left.tail.span isDigit else ([], left)) =
      (fraction, 101 :: 43 :: exponent))
    (hexponent : ∀ c ∈ exponent, isDigit c = true) (hne : whole ≠ []) :
    scanNumeral text =
      some ⟨neg, natOfDecimal (whole ++ fraction), (natOfDecimal exponent : Int) - fraction.length⟩ := by
  have htake : exponent.takeWhile isDigit = exponent := List.takeWhile_eq_self_iff.mpr hexponent
  unfold scanNumeral
  dsimp only
  rw [hneg, hwhole]
  dsimp only
  rw [hfraction]
  simp [htake, hne]

theorem scanNumeral_scientific (neg : Bool) (whole fraction exponent : Bytes) (hne : whole ≠ [])
    (hw : ∀ c ∈ whole, isDigit c = true) (hf : ∀ c ∈ fraction, isDigit c = true)
    (he : ∀ c ∈ exponent, isDigit c = true) :
    scanNumeral ((if neg then [45] else []) ++ withPoint whole fraction ++ [101, 43] ++ exponent) =
      some ⟨neg, natOfDecimal (whole ++ fraction), (natOfDecimal exponent : Int) - fraction.length⟩ := by
  obtain ⟨c, digits, hc⟩ := List.exists_cons_of_ne_nil hne
  have hminus : c ≠ 45 := (isDigit_cases c (hw c (by simp [hc]))).2.1
  have hsign : ∀ rest, decide (((if neg then [45] else []) ++ (whole ++ rest)).head? = some 45) = neg := by
    intro rest
    cases neg <;> simp [hc, hminus]
  have hbody : ∀ rest, (if ((if neg then [45] else []) ++ (whole ++ rest)).head? = some 45 then
      ((if neg then [45] else []) ++ (whole ++ rest)).tail
      else (if neg then [45] else []) ++ (whole ++ rest)) = whole ++ rest := by
    intro rest
    cases neg <;> simp [hc, hminus]
  have hspan := fun rest (h : isDigit (Parser.peek rest) = false) => Parser.span_digits whole rest hw h
  unfold withPoint
  by_cases hempty : fraction = []
  · subst hempty
    rw [if_pos rfl, List.append_assoc, List.append_assoc]
    have hwhole := hspan ([101, 43] ++ exponent) rfl
    rw [← hbody] at hwhole
    exact scanNumeral_parts (hsign _) hwhole rfl he hne
  · rw [if_neg hempty, List.append_assoc, List.append_assoc, List.append_assoc]
    have hwhole := hspan (46 :: fraction ++ ([101, 43] ++ exponent)) rfl
    rw [← hbody] at hwhole
    exact scanNumeral_parts (hsign _) hwhole (Parser.span_digits fraction _ hf rfl) he hne

theorem reprintDouble_small {d : Double} {n : Nat} (h : d.Holds n) (hn : n < 10 ^ 6) :
    reprintDouble d = .ok (.int (Int64.ofInt (if d.neg then -n else n))) := by
  have hll := stoll_signed d.neg n (by omega)
  have hdigits := natDecimal_digits n
  obtain ⟨c, digits, hc⟩ := List.exists_cons_of_ne_nil (natDecimal_ne_nil n)
  have hminus : c ≠ minus := (isDigit_cases c (hdigits c (by simp [hc]))).2.1
  have hs : (if d.neg then [45] else [] : Bytes) = [minus] ∨
      (if d.neg then [45] else [] : Bytes) = [] ∧ Parser.peek (natDecimal n ++ []) ≠ minus := by
    cases d.neg with
    | true => exact .inl rfl
    | false => exact .inr ⟨rfl, by rw [hc]; exact hminus⟩
  have hnumber := Parser.parseNumber_integer _ (natDecimal n) [] _ hs hdigits
    ⟨by decide, by decide, by decide, by decide⟩ hll
  rw [List.append_nil] at hnumber
  rw [reprintDouble, formatG_small h hn, hnumber]
  rfl

-- Six digits, the first of them before the point, stand for the integer they are cut from.
theorem natOfDecimal_six (r : Nat) (hlow : 10 ^ 5 ≤ r) (hhigh : r < 10 ^ 6) :
    ∃ j, (stripZeros ((natDecimal r).drop 1)).length + j = 5 ∧
      natOfDecimal ((natDecimal r).take 1 ++ stripZeros ((natDecimal r).drop 1)) * 10 ^ j = r := by
  obtain ⟨j, hj⟩ := stripZeros_append ((natDecimal r).drop 1)
  have hlog : Nat.log 10 r = 5 :=
    (Nat.log_eq_iff (.inl (by decide))).mpr ⟨hlow, hhigh⟩
  have hlen := congrArg List.length hj
  rw [List.length_drop, natDecimal_length r (by omega), hlog, List.length_append,
    List.length_replicate] at hlen
  refine ⟨j, hlen.symm, ?_⟩
  have hvalue := natOfDecimal_append ((natDecimal r).take 1 ++ stripZeros ((natDecimal r).drop 1))
    (List.replicate j 48)
  rw [List.append_assoc, ← hj, List.take_append_drop, natOfDecimal_natDecimal, List.length_replicate,
    natOfDecimal_zeros, Nat.add_zero] at hvalue
  exact hvalue.symm

theorem reprintDouble_large {d : Double} {n : Nat} (h : d.Holds n) (hlow : 10 ^ 6 ≤ n) (hn : n < 2 ^ 53) :
    ∃ d', reprintDouble d = .ok (.double d') ∧ d'.neg = d.neg ∧ d'.Holds (roundSignificant 6 n) := by
  obtain ⟨r, x, hr, hr', hround, hformat⟩ := formatG_large h hlow
  have hle := roundSignificant_le 6 n (by decide)
  obtain ⟨j, hj, hvalue⟩ := natOfDecimal_six r hr hr'
  have hd := natDecimal_digits r
  have hne : (natDecimal r).take 1 ≠ [] := by simpa using natDecimal_ne_nil r
  have hw : ∀ c ∈ (natDecimal r).take 1, isDigit c = true := fun c hc => hd c (List.mem_of_mem_take hc)
  have hf : ∀ c ∈ stripZeros ((natDecimal r).drop 1), isDigit c = true :=
    fun c hc => hd c (List.mem_of_mem_drop (mem_of_mem_stripZeros hc))
  generalize stripZeros ((natDecimal r).drop 1) = fraction at *
  generalize (natDecimal r).take 1 = whole at *
  have hexponent := exponent_digits (x + 6)
  have hpower : natOfDecimal (if (natDecimal (x + 6)).length < 2 then 48 :: natDecimal (x + 6)
      else natDecimal (x + 6)) = x + 6 := by
    split
    · exact natOfDecimal_natDecimal (x + 6)
    · exact natOfDecimal_natDecimal (x + 6)
  generalize (if (natDecimal (x + 6)).length < 2 then 48 :: natDecimal (x + 6)
      else natDecimal (x + 6)) = exponent at *
  have hscan := scanNumeral_scientific d.neg whole fraction exponent hne hw hf hexponent
  rw [← hformat, hpower] at hscan
  -- The digits end in as many zeros as the exponent still has places for.
  have hscale : (scaleDown 10 (-((x + 6 : Nat) - fraction.length : Int)) (natOfDecimal (whole ++ fraction)) 1) =
      (roundSignificant 6 n, 1) := by
    have hdown : -((x + 6 : Nat) - fraction.length : Int) = -((j + (x + 1) : Nat) : Int) := by omega
    rw [hdown, ← hround, ← hvalue, Nat.mul_assoc, ← Nat.pow_add]
    unfold scaleDown
    rw [if_neg (by omega), Int.neg_neg, Int.toNat_natCast]
  obtain ⟨d', hstod, hneg, hholds⟩ := stod_integer (formatG d) d.neg _ _ (roundSignificant 6 n)
    (r * 10 ^ x * 5) 1 hscan (by rw [hscale, Nat.mul_one]) (by rw [← hround] at hle; ring_nf at hle ⊢; omega)
    (by rw [← hround]; ring) (by decide)
  refine ⟨d', ?_, hneg, hholds⟩
  have hs : (if d.neg then [45] else [] : Bytes) = [minus] ∨ (if d.neg then [45] else [] : Bytes) = [] := by
    cases d.neg with
    | true => exact .inl rfl
    | false => exact .inr rfl
  obtain ⟨point, hnumeric, htext, -⟩ := withPoint_numeric _ whole fraction ([101, 43] ++ exponent) hs hne hw hf
    (.inr ⟨43, exponent, rfl, .inl rfl, hexponent⟩)
  rw [List.append_assoc, htext] at hformat
  have hnumber := Parser.parseNumber_numeric hnumeric [] ⟨by decide, by decide, by decide, by decide⟩
  rw [List.append_nil, ← hformat, hstod, if_neg (by simp)] at hnumber
  rw [reprintDouble, hnumber]
  rfl

-- Printed and read again, an integer keeps six significant digits.
theorem reprintDouble_integer {d : Double} {n : Nat} (h : d.Holds n) (hn : n < 2 ^ 53) :
    ∃ v, reprintDouble d = .ok v ∧
      v.getInt 0 = Int64.ofInt (if d.neg then -(roundSignificant 6 n : Int) else roundSignificant 6 n) := by
  by_cases hsmall : n < 10 ^ 6
  · refine ⟨_, reprintDouble_small h hsmall, ?_⟩
    rw [roundSignificant_small n hsmall]
    rfl
  · obtain ⟨d', hd', hneg, hholds⟩ := reprintDouble_large h (by omega) hn
    have hle := roundSignificant_le 6 n (by decide)
    refine ⟨.double d', hd', ?_⟩
    rw [← hneg]
    exact hholds.toInt64 (by omega)

end Reading

end Draind.Json

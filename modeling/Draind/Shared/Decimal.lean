import Draind.Shared.Bytes
import Mathlib.Data.List.TakeWhile
import Mathlib.Data.Nat.Digits.Lemmas

namespace Draind

section Digits

theorem digitValue_digit (d : Nat) (h : d < 10) : digitValue (48 + d).toUInt8 = d := by
  simp only [digitValue, Nat.toUInt8, UInt8.toNat_ofNat']
  omega

theorem isDigit_digit (d : Nat) (h : d < 10) : isDigit (48 + d).toUInt8 = true := by
  simp only [isDigit, Bool.and_eq_true, decide_eq_true_eq, UInt8.le_iff_toNat_le, Nat.toUInt8,
    UInt8.toNat_ofNat']
  constructor
  · show 48 ≤ _
    omega
  · show _ ≤ 57
    omega

theorem natDecimal_digits (n : Nat) : ∀ c ∈ natDecimal n, isDigit c = true := by
  unfold natDecimal
  split
  · intro c hc
    rw [List.mem_singleton.mp hc]
    rfl
  · intro c hc
    obtain ⟨d, hd, rfl⟩ := List.mem_map.mp hc
    exact isDigit_digit d (Nat.digits_lt_base (by decide) (List.mem_reverse.mp hd))

theorem natDecimal_ne_nil (n : Nat) : natDecimal n ≠ [] := by
  unfold natDecimal
  split
  · exact List.cons_ne_nil _ _
  · rename_i h
    simp [Nat.digits_ne_nil_iff_ne_zero.mpr h]

theorem natOfDecimal_map (digits : List Nat) (h : ∀ d ∈ digits, d < 10) :
    natOfDecimal (digits.reverse.map fun d => (48 + d).toUInt8) = Nat.ofDigits 10 digits := by
  induction digits with
  | nil => rfl
  | cons d rest ih =>
      have hd := digitValue_digit d (h d (by simp))
      have ih := ih fun d hd => h d (by simp [hd])
      simp only [natOfDecimal, List.reverse_cons, List.map_append, List.map_cons, List.map_nil,
        List.foldl_append, List.foldl_cons, List.foldl_nil, hd] at ih ⊢
      rw [ih, Nat.ofDigits_cons]
      exact Nat.add_comm _ _

theorem natOfDecimal_natDecimal (n : Nat) : natOfDecimal (natDecimal n) = n := by
  unfold natDecimal
  split
  · rename_i h
    rw [h]
    rfl
  · rw [natOfDecimal_map _ fun d hd => Nat.digits_lt_base (by decide) hd, Nat.ofDigits_digits]

theorem isDigit_cases (c : UInt8) (h : isDigit c = true) :
    isSpace c = false ∧ c ≠ 45 ∧ c ≠ 43 ∧ c ≠ 10 ∧ c ≠ 32 := by
  have hne : ∀ d, isDigit d = false → c ≠ d := by
    rintro d hd rfl
    rw [hd] at h
    cases h
  have hle : 48 ≤ c.toNat := by
    simp only [isDigit, Bool.and_eq_true, decide_eq_true_eq, UInt8.le_iff_toNat_le] at h
    exact h.1
  have hrange : ¬c ≤ 13 := by
    rw [UInt8.le_iff_toNat_le, show (13 : UInt8).toNat = 13 from rfl]
    omega
  refine ⟨?_, hne 45 (by decide), hne 43 (by decide), hne 10 (by decide), hne 32 (by decide)⟩
  simp [isSpace, hne 32 (by decide), hrange]

theorem decimal_ne_nil (n : Int) : decimal n ≠ [] := by
  unfold decimal
  split
  · exact List.cons_ne_nil _ _
  · exact natDecimal_ne_nil _

theorem decimal_eq_concat (n : Int) : ∃ init c, decimal n = init ++ [c] ∧ isDigit c = true := by
  have hne := natDecimal_ne_nil n.natAbs
  have hlast : isDigit ((natDecimal n.natAbs).getLast hne) = true :=
    natDecimal_digits _ _ (List.getLast_mem hne)
  have hsplit := (List.dropLast_append_getLast hne).symm
  unfold decimal
  split
  · exact ⟨45 :: (natDecimal n.natAbs).dropLast, _, congrArg (45 :: ·) hsplit, hlast⟩
  · exact ⟨_, _, hsplit, hlast⟩

-- What to_string writes is read back.
theorem scanInteger_decimal (n : Int) : scanInteger (decimal n) = some n := by
  have htake : (natDecimal n.natAbs).takeWhile isDigit = natDecimal n.natAbs :=
    List.takeWhile_eq_self_iff.mpr (natDecimal_digits n.natAbs)
  obtain ⟨c, rest, hc⟩ := List.exists_cons_of_ne_nil (natDecimal_ne_nil n.natAbs)
  obtain ⟨hs, hminus, hplus, -⟩ := isDigit_cases c (natDecimal_digits n.natAbs c (by simp [hc]))
  unfold scanInteger decimal
  split
  · rename_i hneg
    have hspace : isSpace 45 = false := by decide
    simp only [List.dropWhile_cons, hspace, Bool.false_eq_true, if_false, List.head?_cons,
      List.tail_cons, decide_true, Bool.true_or, if_true, htake, natDecimal_ne_nil,
      natOfDecimal_natDecimal]
    congr 1
    omega
  · rename_i hpos
    rw [hc] at htake ⊢
    simp only [List.dropWhile_cons, hs, Bool.false_eq_true, if_false, List.head?_cons,
      Option.some.injEq, hminus, hplus, decide_false, Bool.or_self, htake, reduceCtorEq]
    rw [← hc, natOfDecimal_natDecimal]
    omega

theorem stoi_decimal (n : Int32) : stoi (decimal n.toInt) = .ok n := by
  have hl := n.le_toInt
  have hu := n.toInt_lt
  rw [stoi, scanInteger_decimal]
  dsimp only
  rw [if_neg (by omega), Int32.ofInt_toInt]

theorem stoll_decimal (n : Int64) : stoll (decimal n.toInt) = .ok n := by
  have hl := n.le_toInt
  have hu := n.toInt_lt
  rw [stoll, scanInteger_decimal]
  dsimp only
  rw [if_neg (by omega), Int64.ofInt_toInt]

end Digits

end Draind

import Draind.Lib.JsonGrammar

namespace Draind.Grammar

def utf8 (text : List Char) : Octets :=
  text.flatMap String.utf8EncodeChar

-- What may stand for itself between the quotation marks.
def Unescaped (c : Char) : Prop :=
  32 ≤ c.toNat ∧ c ≠ '"' ∧ c ≠ '\\'

-- The escapes of one letter, each with its character.
def shortEscapes : List (UInt8 × Char) :=
  [(34, '"'), (92, '\\'), (47, '/'), (98, '\x08'), (102, '\x0c'), (110, '\n'), (114, '\r'), (116, '\t')]

def isHex (c : UInt8) : Bool :=
  isDecimal c || (65 ≤ c && c ≤ 70) || (97 ≤ c && c ≤ 102)

def hexValue (c : UInt8) : Nat :=
  if isDecimal c then c.toNat - 48 else if c ≤ 70 then c.toNat - 55 else c.toNat - 87

structure HexCode (digits : Octets) (code : Nat) : Prop where
  length : digits.length = 4
  hex : ∀ c ∈ digits, isHex c = true
  value : code = digits.foldl (fun n c => 16 * n + hexValue c) 0

-- What may stand between the quotation marks.
inductive StringBody : Octets → Prop where
  | nil : StringBody []
  | char {c : Char} {body : Octets} (hc : Unescaped c) (h : StringBody body) :
      StringBody (String.utf8EncodeChar c ++ body)
  | short {e : UInt8} {c : Char} {body : Octets} (he : (e, c) ∈ shortEscapes) (h : StringBody body) :
      StringBody (92 :: e :: body)
  | code {digits body : Octets} {n : Nat} (hd : HexCode digits n) (h : StringBody body) :
      StringBody (92 :: 117 :: digits ++ body)

-- The text it stands for. A code that is half of a surrogate pair stands for a
-- character only together with the other half.
inductive Denotes : Octets → List Char → Prop where
  | nil : Denotes [] []
  | char {c : Char} {body : Octets} {text : List Char} (hc : Unescaped c) (h : Denotes body text) :
      Denotes (String.utf8EncodeChar c ++ body) (c :: text)
  | short {e : UInt8} {c : Char} {body : Octets} {text : List Char} (he : (e, c) ∈ shortEscapes)
      (h : Denotes body text) : Denotes (92 :: e :: body) (c :: text)
  | code {digits body : Octets} {n : Nat} {text : List Char} (hd : HexCode digits n)
      (hn : n < 0xD800 ∨ 0xDFFF < n) (h : Denotes body text) :
      Denotes (92 :: 117 :: digits ++ body) (Char.ofNat n :: text)
  | pair {first second body : Octets} {high low : Nat} {text : List Char} (hfirst : HexCode first high)
      (hsecond : HexCode second low) (hhigh : 0xD800 ≤ high ∧ high ≤ 0xDBFF)
      (hlow : 0xDC00 ≤ low ∧ low ≤ 0xDFFF) (h : Denotes body text) :
      Denotes (92 :: 117 :: first ++ (92 :: 117 :: second ++ body))
        (Char.ofNat (0x10000 + (high - 0xD800) * 0x400 + (low - 0xDC00)) :: text)

def StringLiteral (text : Octets) : Prop :=
  ∃ body, text = 34 :: body ++ [34] ∧ StringBody body

-- The letters behind the backslashes.
def escapes : Octets → Octets
  | [] => []
  | [_] => []
  | c :: e :: rest => if c = 92 then e :: escapes rest else escapes (e :: rest)

section Characters

theorem utf8EncodeChar_low {c : Char} (h : c.toNat ≤ 127) :
    String.utf8EncodeChar c = [UInt8.ofNat c.toNat] :=
  if_pos h

theorem utf8EncodeChar_high {c : Char} (h : 127 < c.toNat) : ∀ b ∈ String.utf8EncodeChar c, 128 ≤ b.toNat := by
  have hn : ¬c.val.toNat ≤ 127 := Nat.not_le.mpr h
  unfold String.utf8EncodeChar
  dsimp only
  rw [if_neg hn]
  split
  · simp only [List.mem_cons, List.not_mem_nil, or_false, forall_eq_or_imp, forall_eq, UInt8.toNat_ofNat']
    omega
  split
  · simp only [List.mem_cons, List.not_mem_nil, or_false, forall_eq_or_imp, forall_eq, UInt8.toNat_ofNat']
    omega
  · simp only [List.mem_cons, List.not_mem_nil, or_false, forall_eq_or_imp, forall_eq, UInt8.toNat_ofNat']
    omega

theorem utf8EncodeChar_length (c : Char) :
    1 ≤ (String.utf8EncodeChar c).length ∧ (String.utf8EncodeChar c).length ≤ 4 := by
  rw [String.length_utf8EncodeChar]
  exact ⟨c.utf8Size_pos, c.utf8Size_le_four⟩

-- No octet of a character that stands for itself ends the string or begins an escape.
theorem Unescaped.octets {c : Char} (h : Unescaped c) :
    ∀ b ∈ String.utf8EncodeChar c, 32 ≤ b.toNat ∧ b ≠ 34 ∧ b ≠ 92 := by
  obtain ⟨hlo, hq, hb⟩ := h
  intro b hm
  rcases Nat.lt_or_ge 127 c.toNat with hc | hc
  · have hbig := utf8EncodeChar_high hc b hm
    refine ⟨by omega, ?_, ?_⟩
    · rintro rfl
      exact absurd hbig (by decide)
    · rintro rfl
      exact absurd hbig (by decide)
  · rw [utf8EncodeChar_low hc] at hm
    obtain rfl := List.mem_singleton.mp hm
    have hnat : (UInt8.ofNat c.toNat).toNat = c.toNat := by
      rw [UInt8.toNat_ofNat']
      omega
    have hne : ∀ d : Char, c ≠ d → c.toNat ≠ d.toNat := fun d hd he => hd (Char.toNat_inj.mp he)
    refine ⟨by omega, fun he => ?_, fun he => ?_⟩
    · rw [he] at hnat
      exact hne '"' hq hnat.symm
    · rw [he] at hnat
      exact hne '\\' hb hnat.symm

theorem isHex_octet {c : UInt8} (h : isHex c = true) : 32 ≤ c.toNat ∧ c ≠ 34 ∧ c ≠ 92 := by
  have hne : ∀ d, isHex d = false → c ≠ d := by
    rintro d hd rfl
    rw [hd] at h
    cases h
  refine ⟨?_, hne 34 rfl, hne 92 rfl⟩
  simp only [isHex, isDecimal, Bool.or_eq_true, Bool.and_eq_true, decide_eq_true_eq, UInt8.le_iff_toNat_le] at h
  rcases h with (⟨h, -⟩ | ⟨h, -⟩) | ⟨h, -⟩
  · exact Nat.le_trans (by decide) h
  · exact Nat.le_trans (by decide) h
  · exact Nat.le_trans (by decide) h

end Characters

section Texts

theorem utf8_cons (c : Char) (text : List Char) : utf8 (c :: text) = String.utf8EncodeChar c ++ utf8 text :=
  List.flatMap_cons

theorem escapes_run (run body : Octets) (h : ∀ b ∈ run, b ≠ 92) : escapes (run ++ body) = escapes body := by
  induction run with
  | nil => rfl
  | cons c run ih =>
      obtain ⟨hc, hrun⟩ := List.forall_mem_cons.mp h
      rw [← ih hrun, List.cons_append]
      cases run ++ body with
      | nil => rfl
      | cons d rest => exact if_neg hc

-- No control character stands in a string as it is.
theorem Denotes.octets {body : Octets} {text : List Char} (h : Denotes body text) :
    ∀ b ∈ body, 32 ≤ b.toNat := by
  have hcode : ∀ {digits : Octets} {n : Nat}, HexCode digits n → ∀ b ∈ 92 :: 117 :: digits, 32 ≤ b.toNat := by
    intro digits n hd
    have hdigits : ∀ b ∈ digits, 32 ≤ b.toNat := fun b hb => (isHex_octet (hd.hex b hb)).1
    simpa using hdigits
  induction h with
  | nil => exact nofun
  | char hc h ih => exact List.forall_mem_append.mpr ⟨fun b hb => (hc.octets b hb).1, ih⟩
  | @short e c body text he h ih =>
      have hletter : 32 ≤ e.toNat := by
        simp only [shortEscapes, List.mem_cons, List.not_mem_nil, or_false, Prod.mk.injEq] at he
        rcases he with ⟨rfl, -⟩ | ⟨rfl, -⟩ | ⟨rfl, -⟩ | ⟨rfl, -⟩ | ⟨rfl, -⟩ | ⟨rfl, -⟩ | ⟨rfl, -⟩ | ⟨rfl, -⟩
        all_goals decide
      exact List.forall_mem_cons.mpr ⟨by decide, List.forall_mem_cons.mpr ⟨hletter, ih⟩⟩
  | code hd hn h ih => exact List.forall_mem_append.mpr ⟨hcode hd, ih⟩
  | pair hfirst hsecond hhigh hlow h ih =>
      exact List.forall_mem_append.mpr ⟨hcode hfirst, List.forall_mem_append.mpr ⟨hcode hsecond, ih⟩⟩

end Texts

end Draind.Grammar

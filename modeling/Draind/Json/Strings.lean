import Draind.Json.RoundTrip
import Draind.Lib.JsonString

namespace Draind.Json

open Grammar

namespace Parser

theorem parseChars_run (run p : Bytes) (h : ∀ c ∈ run, c ≠ quote ∧ c ≠ backslash) :
    parseChars (run ++ p) = (parseChars p).map fun (s, p) => (run ++ s, p) := by
  induction run with
  | nil =>
      rw [List.nil_append]
      cases parseChars p <;> rfl
  | cons c run ih =>
      obtain ⟨⟨hq, hb⟩, hrun⟩ := List.forall_mem_cons.mp h
      rw [List.cons_append, parseChars_char c _ hq hb, ih hrun]
      cases parseChars p <;> rfl

-- The escapes the source knows are those without b, f and u.
theorem unescape_short {e : UInt8} {c : Char} (he : (e, c) ∈ shortEscapes) :
    c.toNat ≤ 127 ∧ (unescape e = UInt8.ofNat c.toNat ↔ e ≠ 98 ∧ e ≠ 102 ∧ e ≠ 117) := by
  simp only [shortEscapes, List.mem_cons, List.not_mem_nil, or_false, Prod.mk.injEq] at he
  rcases he with ⟨rfl, rfl⟩ | ⟨rfl, rfl⟩ | ⟨rfl, rfl⟩ | ⟨rfl, rfl⟩ | ⟨rfl, rfl⟩ | ⟨rfl, rfl⟩ | ⟨rfl, rfl⟩ | ⟨rfl, rfl⟩
  all_goals decide

-- What an unknown escape of a code leaves is longer than any character.
theorem parseChars_code {digits p s rest : Bytes} {n : Nat} (hd : HexCode digits n)
    (hp : parseChars p = .ok (s, rest)) :
    parseChars (92 :: 117 :: digits ++ p) = .ok (117 :: digits ++ s, rest) := by
  have hrun := parseChars_run digits p fun c hc => (isHex_octet (hd.hex c hc)).2
  rw [List.cons_append, List.cons_append, parseChars_escaped, hrun, hp]
  rfl

theorem code_not_read {s body : Bytes} {text : List Char} (hlonger : (utf8 text).length < s.length)
    (hu : 117 ∈ escapes body) : s = utf8 text ↔ ∀ e ∈ escapes body, e ≠ 98 ∧ e ≠ 102 ∧ e ≠ 117 := by
  refine iff_of_false (fun he => ?_) fun hall => (hall 117 hu).2.2 rfl
  rw [he] at hlonger
  exact Nat.lt_irrefl _ hlonger

-- The text is read, and as what it denotes just when no escape is one of b, f and u.
-- What is read instead is never shorter, so a code cannot be made up for behind it.
theorem parseChars_denotes {body : Bytes} {text : List Char} (h : Denotes body text) :
    ∃ s, (∀ rest, parseChars (body ++ quote :: rest) = .ok (s, rest)) ∧ (utf8 text).length ≤ s.length ∧
      (s = utf8 text ↔ ∀ e ∈ escapes body, e ≠ 98 ∧ e ≠ 102 ∧ e ≠ 117) := by
  induction h with
  | nil => exact ⟨[], parseChars_quote, Nat.le_refl _, iff_of_true rfl nofun⟩
  | @char c body text hc h ih =>
      obtain ⟨s, hs, hlen, hiff⟩ := ih
      refine ⟨String.utf8EncodeChar c ++ s, fun rest => ?_, ?_, ?_⟩
      · rw [List.append_assoc, parseChars_run _ _ fun b hb => (hc.octets b hb).2, hs]
        rfl
      · rw [utf8_cons, List.length_append, List.length_append]
        omega
      · rw [utf8_cons, List.append_cancel_left_eq, escapes_run _ _ fun b hb => (hc.octets b hb).2.2]
        exact hiff
  | @short e c body text he h ih =>
      obtain ⟨s, hs, hlen, hiff⟩ := ih
      obtain ⟨hlow, hknown⟩ := unescape_short he
      refine ⟨unescape e :: s, fun rest => ?_, ?_, ?_⟩
      · rw [List.cons_append, List.cons_append, parseChars_escaped, hs]
        rfl
      · rw [utf8_cons, utf8EncodeChar_low hlow]
        exact Nat.succ_le_succ hlen
      · rw [utf8_cons, utf8EncodeChar_low hlow, List.singleton_append, List.cons_eq_cons, hknown, hiff,
          show escapes (92 :: e :: body) = e :: escapes body from rfl, List.forall_mem_cons]
  | @code digits body n text hd hn h ih =>
      obtain ⟨s, hs, hlen, -⟩ := ih
      have hlonger : (utf8 (Char.ofNat n :: text)).length < (117 :: digits ++ s).length := by
        have hchar := (utf8EncodeChar_length (Char.ofNat n)).2
        have hfour := hd.length
        simp only [utf8_cons, List.length_append, List.length_cons]
        omega
      refine ⟨117 :: digits ++ s, fun rest => ?_, Nat.le_of_lt hlonger, code_not_read hlonger (by simp [escapes])⟩
      rw [List.append_assoc]
      exact parseChars_code hd (hs rest)
  | @pair first second body high low text hfirst hsecond hhigh hlow h ih =>
      obtain ⟨s, hs, hlen, -⟩ := ih
      have hlonger : (utf8 (Char.ofNat (0x10000 + (high - 0xD800) * 0x400 + (low - 0xDC00)) :: text)).length <
          (117 :: first ++ (117 :: second ++ s)).length := by
        have hchar := (utf8EncodeChar_length
          (Char.ofNat (0x10000 + (high - 0xD800) * 0x400 + (low - 0xDC00)))).2
        have hfour := hfirst.length
        simp only [utf8_cons, List.length_append, List.length_cons]
        omega
      refine ⟨117 :: first ++ (117 :: second ++ s), fun rest => ?_, Nat.le_of_lt hlonger,
        code_not_read hlonger (by simp [escapes])⟩
      rw [List.append_assoc, List.append_assoc]
      exact parseChars_code hfirst (parseChars_code hsecond (hs rest))

theorem parseString_quoted (body rest : Bytes) :
    parseString (quote :: body ++ quote :: rest) = parseChars (body ++ quote :: rest) :=
  if_pos rfl

end Parser

section Escaping

theorem escapeChar_octets {run : Bytes} (h : ∀ b ∈ run, 32 ≤ b.toNat ∧ b ≠ 34 ∧ b ≠ 92) :
    run.flatMap escapeChar = run := by
  induction run with
  | nil => rfl
  | cons b run ih =>
      obtain ⟨⟨hlow, hq, hb⟩, hrun⟩ := List.forall_mem_cons.mp h
      have hne : ∀ c : UInt8, c.toNat < 32 → b ≠ c := by
        rintro c hc rfl
        omega
      rw [List.flatMap_cons, ih hrun, escapeChar, if_neg hq, if_neg hb, if_neg (hne 10 (by decide)),
        if_neg (hne 13 (by decide)), if_neg (hne 9 (by decide))]
      rfl

-- A control character with no escape of its own comes out as it is.
theorem escapeChar_control {c : UInt8} (hc : c.toNat < 32) (hn : c ≠ 10) (hr : c ≠ 13) (ht : c ≠ 9) :
    escapeChar c = [c] := by
  have hne : ∀ d : UInt8, 32 ≤ d.toNat → c ≠ d := by
    rintro d hd rfl
    omega
  rw [escapeChar, if_neg (hne quote (by decide)), if_neg (hne backslash (by decide)), if_neg hn, if_neg hr,
    if_neg ht]

theorem escape_denotes {text : List Char}
    (h : ∀ c ∈ text, c.toNat < 32 → c = '\n' ∨ c = '\r' ∨ c = '\t') :
    Denotes ((utf8 text).flatMap escapeChar) text := by
  induction text with
  | nil => exact .nil
  | cons c text ih =>
      obtain ⟨hc, htext⟩ := List.forall_mem_cons.mp h
      have hrest := ih htext
      rw [utf8_cons, List.flatMap_append]
      by_cases hq : c = '"'
      · subst hq
        exact .short (e := 34) (by decide) hrest
      by_cases hb : c = '\\'
      · subst hb
        exact .short (e := 92) (by decide) hrest
      rcases Nat.lt_or_ge c.toNat 32 with hlow | hlow
      · rcases hc hlow with rfl | rfl | rfl
        · exact .short (e := 110) (by decide) hrest
        · exact .short (e := 114) (by decide) hrest
        · exact .short (e := 116) (by decide) hrest
      · have hchar : Unescaped c := ⟨hlow, hq, hb⟩
        rw [escapeChar_octets hchar.octets]
        exact .char hchar hrest

end Escaping

-- A literal is read as the text it denotes just when it is spelled without \b, \f
-- and \u, and a text is written as a literal that denotes it just when its only
-- control characters are those with an escape of one letter that the source knows.
theorem strings_standard_iff (literal : Bytes) (denoted : List Char) (hl : Denotes literal denoted)
    (rest : Bytes) (text : List Char) :
    (Parser.parseString (quote :: literal ++ quote :: rest) = .ok (utf8 denoted, rest) ↔
      ∀ e ∈ escapes literal, e ≠ 98 ∧ e ≠ 102 ∧ e ≠ 117) ∧
    ((∃ body, escape (utf8 text) = quote :: body ++ [quote] ∧ Denotes body text) ↔
      ∀ c ∈ text, c.toNat < 32 → c = '\n' ∨ c = '\r' ∨ c = '\t') := by
  refine ⟨?_, ?_, fun h => ⟨_, rfl, escape_denotes h⟩⟩
  · obtain ⟨s, hs, -, hiff⟩ := Parser.parseChars_denotes hl
    rw [Parser.parseString_quoted, hs, ← hiff]
    simp
  · rintro ⟨body, he, hbody⟩ c hc hlow
    obtain rfl : (utf8 text).flatMap escapeChar = body := by simpa [escape] using he
    by_contra hne
    obtain ⟨hn, hr, ht⟩ : c ≠ '\n' ∧ c ≠ '\r' ∧ c ≠ '\t' := by simpa [not_or] using hne
    have hnat : (UInt8.ofNat c.toNat).toNat = c.toNat := by
      rw [UInt8.toNat_ofNat']
      omega
    have hbyte : ∀ d : Char, c ≠ d → d.toNat < 32 → UInt8.ofNat c.toNat ≠ UInt8.ofNat d.toNat := by
      intro d hd hdlow heq
      refine hd (Char.toNat_inj.mp ?_)
      rw [← hnat, heq, UInt8.toNat_ofNat']
      omega
    have hout : UInt8.ofNat c.toNat ∈ (utf8 text).flatMap escapeChar := by
      refine List.mem_flatMap.mpr ⟨UInt8.ofNat c.toNat, ?_, ?_⟩
      · exact List.mem_flatMap.mpr ⟨c, hc, by rw [utf8EncodeChar_low (by omega)]; simp⟩
      · rw [escapeChar_control (by omega) (hbyte '\n' hn (by decide)) (hbyte '\r' hr (by decide))
          (hbyte '\t' ht (by decide))]
        simp
    have hraw := hbody.octets _ hout
    omega

theorem strings_standard_newline :
    (Parser.parseString (quote :: [92, 110] ++ quote :: []) = .ok (utf8 ['\n'], []) ↔
      ∀ e ∈ escapes [92, 110], e ≠ 98 ∧ e ≠ 102 ∧ e ≠ 117) ∧
    ((∃ body, escape (utf8 ['\t']) = quote :: body ++ [quote] ∧ Denotes body ['\t']) ↔
      ∀ c ∈ ['\t'], c.toNat < 32 → c = '\n' ∨ c = '\r' ∨ c = '\t') :=
  strings_standard_iff [92, 110] ['\n'] (.short (by decide) .nil) [] ['\t']

-- A backspace is read as the letter b, and written as it is.
theorem strings_backspace :
    Denotes [92, 98] ['\x08'] ∧
    Parser.parseString (quote :: [92, 98] ++ quote :: []) ≠ .ok (utf8 ['\x08'], []) ∧
    ¬∃ body, escape (utf8 ['\x08']) = quote :: body ++ [quote] ∧ Denotes body ['\x08'] := by
  refine ⟨.short (by decide) .nil, ?_, ?_⟩
  · rw [show Parser.parseString (quote :: [92, 98] ++ quote :: []) = .ok ([98], []) from rfl]
    decide
  · rintro ⟨body, he, hbody⟩
    obtain rfl : (utf8 ['\x08']).flatMap escapeChar = body := by simpa [escape] using he
    exact absurd (hbody.octets 8 (by decide)) (by decide)

end Draind.Json

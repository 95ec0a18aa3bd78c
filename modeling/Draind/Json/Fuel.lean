import Draind.Json.Accepted
import Draind.Json.Prefix

namespace Draind.Json.Parser

-- An outcome that is the program's own. A value leaves less than n bytes.
structure Fueled {β : Type} (n : Nat) (r : Except Exn (β × Bytes)) : Prop where
  fuel : r ≠ .error .outOfFuel
  rest : ∀ b rest, r = .ok (b, rest) → rest.length < n

section Outcomes

variable {β γ : Type} {m n : Nat}

theorem Fueled.ok {b : β} {rest : Bytes} (h : rest.length < n) : Fueled n (.ok (b, rest)) where
  fuel := by simp
  rest := by
    rintro _ _ ⟨⟩
    exact h

theorem Fueled.error {e : Exn} (h : e ≠ .outOfFuel) : Fueled (β := β) n (.error e) where
  fuel hr := h (Except.error.inj hr)
  rest := by simp

theorem Fueled.mono {r : Except Exn (β × Bytes)} (h : Fueled m r) (hle : m ≤ n) : Fueled n r where
  fuel := h.fuel
  rest b rest hr := Nat.lt_of_lt_of_le (h.rest b rest hr) hle

theorem Fueled.bind {r : Except Exn (β × Bytes)} {f : β × Bytes → Except Exn (γ × Bytes)} (h : Fueled m r)
    (hf : ∀ b rest, rest.length < m → Fueled n (f (b, rest))) : Fueled n (r >>= f) := by
  cases r with
  | error e => exact .error fun he => h.fuel (by rw [he])
  | ok x => exact hf x.1 x.2 (h.rest x.1 x.2 rfl)

theorem Fueled.map {r : Except Exn (β × Bytes)} (h : Fueled n r) (f : β → γ) :
    Fueled n (r.map fun x => (f x.1, x.2)) := by
  cases r with
  | error e => exact .error fun he => h.fuel (by rw [he])
  | ok x => exact .ok (h.rest x.1 x.2 rfl)

end Outcomes

section Consumption

theorem length_skipWs_le (p : Bytes) : (skipWs p).length ≤ p.length :=
  List.Sublist.length_le (List.dropWhile_sublist isWs)

theorem length_skipWs_tail_le (p : Bytes) : (skipWs p).tail.length ≤ p.length :=
  Nat.le_trans (List.Sublist.length_le (List.tail_sublist _)) (length_skipWs_le p)

theorem length_tail_lt {p : Bytes} (h : p ≠ []) : p.tail.length < p.length := by
  have := List.length_pos_iff.mpr h
  rw [List.length_tail]
  omega

theorem unterminated_fuel : unterminated ≠ .outOfFuel := by
  simp [unterminated]

theorem parseChars_fueled (p : Bytes) : Fueled p.length (parseChars p) := by
  fun_induction parseChars p with
  | case1 => exact .error unterminated_fuel
  | case2 p => exact .ok (by simp)
  | case3 => exact .error unterminated_fuel
  | case4 escaped p hq ih => exact (ih.mono (by simp; omega)).map (unescape escaped :: ·)
  | case5 c p hq hb ih => exact (ih.mono (by simp)).map (c :: ·)

theorem parseString_fueled (p : Bytes) : Fueled p.length (parseString p) := by
  unfold parseString
  split
  · exact (parseChars_fueled p.tail).mono (by simp)
  · exact .error (by simp)

theorem stoll_fuel (text : Bytes) : stoll text ≠ .error .outOfFuel := by
  unfold stoll
  split
  · simp
  · split <;> simp

theorem stod_fuel (text : Bytes) : stod text ≠ .error .outOfFuel := by
  unfold stod
  split
  · simp
  · dsimp only
    split <;> simp

theorem parseNumber_fueled (p : Bytes) (hp : peek p = minus ∨ isDigit (peek p) = true) :
    Fueled p.length (parseNumber p) := by
  have hconverted : ∀ {β : Type} (x : Except Exn β) (f : β → Value) (rest : Bytes), rest.length < p.length →
      x ≠ .error .outOfFuel → Fueled p.length (x.map fun b => (f b, rest)) := by
    intro β x f rest hrest hx
    cases x with
    | error e => exact .error fun he => hx (by rw [he])
    | ok b => exact .ok hrest
  have hsplit := congrArg List.length (takeNumeral_split p)
  have htaken := List.length_pos_iff.mpr (numeral_ne_nil hp)
  rcases hsign : scanSign p with ⟨sign, p₁⟩
  rcases hwhole : p₁.span isDigit with ⟨whole, p₂⟩
  rcases hfraction : scanFraction p₂ with ⟨fraction, p₃⟩
  rcases hexponent : scanExponent p₃ with ⟨exponent, rest⟩
  rw [takeNumeral_scan hsign hwhole hfraction hexponent] at hsplit htaken
  rw [List.length_append] at hsplit
  have hrest : rest.length < p.length := by
    dsimp only at hsplit htaken
    omega
  rw [parseNumber_scan hsign hwhole hfraction hexponent]
  split
  · exact hconverted _ .int rest hrest (stoll_fuel _)
  · exact hconverted _ .double rest hrest (stod_fuel _)

end Consumption

section Recursion

theorem opened_fueled (close : UInt8) (empty : Value) {loop : Bytes → Except Exn (Value × Bytes)} {p : Bytes}
    (hp : p ≠ []) (h : ∀ q, q.length < p.length → Fueled q.length (loop q)) :
    Fueled p.length (opened close empty loop p) := by
  have hskip := length_skipWs_le p.tail
  have htail := length_tail_lt hp
  unfold opened
  split
  · refine .ok ?_
    rw [List.length_tail]
    omega
  · exact (h (skipWs p.tail) (by omega)).mono (by omega)

-- Each function with one more of fuel, from the functions it calls.
theorem parseValue_fueled {fuel : Nat}
    (ho : ∀ obj p, 2 * p.length + 1 < fuel → Fueled p.length (objectLoop fuel obj p))
    (ha : ∀ arr p, 2 * p.length + 1 < fuel → Fueled p.length (arrayLoop fuel arr p))
    {p : Bytes} (hp : 2 * p.length < fuel + 1) : Fueled p.length (parseValue (fuel + 1) p) := by
  have hskip := length_skipWs_le p
  rw [parseValue]
  dsimp only
  split
  · exact .error (by simp)
  rename_i hne
  have hpos := List.length_pos_iff.mpr hne
  have hdrop : ∀ n v, 0 < n → Fueled (β := Value) p.length (.ok (v, (skipWs p).drop n)) := by
    intro n v hn
    refine .ok ?_
    rw [List.length_drop]
    omega
  split
  · exact ((parseString_fueled _).mono hskip).map Value.string
  split
  · refine (opened_fueled closeBrace (.object []) hne fun q hq => ho [] q ?_).mono hskip
    omega
  split
  · refine (opened_fueled closeBracket (.array []) hne fun q hq => ha [] q ?_).mono hskip
    omega
  split
  · exact hdrop 4 (.bool true) (by omega)
  split
  · exact hdrop 5 (.bool false) (by omega)
  split
  · exact hdrop 4 .null (by omega)
  split
  · rename_i hnumber
    exact (parseNumber_fueled _ hnumber).mono hskip
  · exact .error (by simp)

theorem objectLoop_fueled {fuel : Nat}
    (hv : ∀ p, 2 * p.length < fuel → Fueled p.length (parseValue fuel p))
    (ho : ∀ obj p, 2 * p.length + 1 < fuel → Fueled p.length (objectLoop fuel obj p))
    (obj : List (Bytes × Value)) {p : Bytes} (hp : 2 * p.length + 1 < fuel + 1) :
    Fueled p.length (objectLoop (fuel + 1) obj p) := by
  have hskip := length_skipWs_le p
  rw [objectLoop]
  refine (parseString_fueled _).bind fun key p₁ h₁ => ?_
  have htail₁ := length_skipWs_tail_le p₁
  dsimp only
  split
  · exact .error (by simp)
  refine (hv (skipWs p₁).tail (by omega)).bind fun value p₂ h₂ => ?_
  have htail₂ := length_skipWs_tail_le p₂
  dsimp only
  split
  · exact .ok (by omega)
  split
  · exact .error (by simp)
  · exact (ho _ (skipWs p₂).tail (by omega)).mono (by omega)

theorem arrayLoop_fueled {fuel : Nat}
    (hv : ∀ p, 2 * p.length < fuel → Fueled p.length (parseValue fuel p))
    (ha : ∀ arr p, 2 * p.length + 1 < fuel → Fueled p.length (arrayLoop fuel arr p))
    (arr : List Value) {p : Bytes} (hp : 2 * p.length + 1 < fuel + 1) :
    Fueled p.length (arrayLoop (fuel + 1) arr p) := by
  rw [arrayLoop]
  refine (hv p (by omega)).bind fun value p₁ h₁ => ?_
  have htail := length_skipWs_tail_le p₁
  dsimp only
  split
  · exact .ok (by omega)
  split
  · exact .error (by simp)
  · exact (ha _ (skipWs p₁).tail (by omega)).mono (by omega)

theorem fueled (fuel : Nat) :
    (∀ p, 2 * p.length < fuel → Fueled p.length (parseValue fuel p)) ∧
      (∀ obj p, 2 * p.length + 1 < fuel → Fueled p.length (objectLoop fuel obj p)) ∧
      ∀ arr p, 2 * p.length + 1 < fuel → Fueled p.length (arrayLoop fuel arr p) := by
  induction fuel with
  | zero => exact ⟨fun _ h => by omega, fun _ _ h => by omega, fun _ _ h => by omega⟩
  | succ fuel ih =>
      obtain ⟨hv, ho, ha⟩ := ih
      exact ⟨fun _ => parseValue_fueled ho ha, fun obj _ => objectLoop_fueled hv ho obj,
        fun arr _ => arrayLoop_fueled hv ha arr⟩

end Recursion

end Parser

-- The bound on the recursion is never met.
theorem parse_fueled (s : Bytes) : parse s ≠ .error .outOfFuel := by
  have h := ((Parser.fueled (Parser.fuelFor s)).1 s (Nat.lt_succ_self _)).fuel
  unfold parse
  cases hr : Parser.parseValue (Parser.fuelFor s) s with
  | ok x => simp [Except.map]
  | error e =>
      rw [hr] at h
      exact fun he => h (congrArg _ (Except.error.inj he))

end Draind.Json

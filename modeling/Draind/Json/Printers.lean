import Draind.Json.Reprint

namespace Draind.Json

-- depth + 1 and its product with indent are ints.
def PadsFit (indent depth : Nat) : Prop :=
  depth + 1 < 2 ^ 31 ∧ (depth + 1) * indent < 2 ^ 31

instance (indent depth : Nat) : Decidable (PadsFit indent depth) :=
  inferInstanceAs (Decidable (_ ∧ _))

mutual

-- dump_pretty with the pads it makes at every value, also where it does not use
-- them. Where a length is no int there is no text: the first that overflows is
-- negative, and std::string throws.
def printPrettyAt (indent depth : Nat) : Value → Option Bytes
  | .array elements =>
      if ¬PadsFit indent depth then none
      else
        match elements with
        | [] => some (bytes "[]")
        | e :: rest => do
            let text ← printPrettyElements indent depth (e :: rest)
            some (bytes "[\n" ++ text ++ pad indent depth ++ [closeBracket])
  | .object members =>
      if ¬PadsFit indent depth then none
      else
        match members with
        | [] => some (bytes "\x7b\x7d")
        | m :: rest => do
            let text ← printPrettyMembers indent depth (m :: rest)
            some (bytes "\x7b\n" ++ text ++ pad indent depth ++ [closeBrace])
  | v => if ¬PadsFit indent depth then none else some (dump v)

def printPrettyElements (indent depth : Nat) : List Value → Option Bytes
  | [] => some []
  | e :: rest => do
      let text ← printPrettyAt indent (depth + 1) e
      let more ← printPrettyElements indent depth rest
      some (pad indent (depth + 1) ++ text ++ (if rest = [] then [] else [comma]) ++ 10 :: more)

def printPrettyMembers (indent depth : Nat) : List (Bytes × Value) → Option Bytes
  | [] => some []
  | (k, v) :: rest => do
      let text ← printPrettyAt indent (depth + 1) v
      let more ← printPrettyMembers indent depth rest
      some (pad indent (depth + 1) ++ escape k ++ bytes ": " ++ text ++
        (if rest = [] then [] else [comma]) ++ 10 :: more)

end

def printPretty (indent : Nat) (v : Value) : Option Bytes :=
  (printPrettyAt indent 0 v).map (· ++ [10])

mutual

-- How deep the containers are nested. An empty one calls for no deeper pads.
def height : Value → Nat
  | .array elements => heightElements elements
  | .object members => heightMembers members
  | _ => 0

def heightElements : List Value → Nat
  | [] => 0
  | e :: rest => max (height e + 1) (heightElements rest)

def heightMembers : List (Bytes × Value) → Nat
  | [] => 0
  | (_, v) :: rest => max (height v + 1) (heightMembers rest)

end

section Pads

theorem PadsFit.mono {indent depth depth' : Nat} (h : PadsFit indent depth') (hd : depth ≤ depth') :
    PadsFit indent depth :=
  ⟨by have := h.1; omega, (Nat.mul_le_mul_right indent (by omega)).trans_lt h.2⟩

theorem padsFit_max (indent first second : Nat) :
    PadsFit indent (max first second) ↔ PadsFit indent first ∧ PadsFit indent second := by
  constructor
  · intro h
    exact ⟨h.mono (le_max_left first second), h.mono (le_max_right first second)⟩
  · rintro ⟨hfirst, hsecond⟩
    rcases max_choice first second with h | h
    · rwa [h]
    · rwa [h]

-- The text is the one without bounds where the pads fit down to the deepest value.
mutual

theorem printPrettyAt_eq (indent depth : Nat) (v : Value) :
    printPrettyAt indent depth v =
      if PadsFit indent (depth + height v) then some (dumpPrettyAt indent depth v) else none := by
  cases v with
  | array elements =>
      have hfit : PadsFit indent (depth + heightElements elements) → PadsFit indent depth :=
        fun h => h.mono (Nat.le_add_right _ _)
      cases elements with
      | nil =>
          simp only [printPrettyAt, height, heightElements, dumpPrettyAt]
          split <;> simp_all
      | cons e rest =>
          rw [printPrettyAt, height]
          by_cases hp : PadsFit indent depth
          · rw [if_neg (not_not.mpr hp), printPrettyElements_eq indent depth (e :: rest) hp]
            split
            · simp [dumpPrettyAt]
            · rfl
          · rw [if_pos hp, if_neg (mt hfit hp)]
  | object members =>
      have hfit : PadsFit indent (depth + heightMembers members) → PadsFit indent depth :=
        fun h => h.mono (Nat.le_add_right _ _)
      cases members with
      | nil =>
          simp only [printPrettyAt, height, heightMembers, dumpPrettyAt]
          split <;> simp_all
      | cons m rest =>
          rw [printPrettyAt, height]
          by_cases hp : PadsFit indent depth
          · rw [if_neg (not_not.mpr hp), printPrettyMembers_eq indent depth (m :: rest) hp]
            split
            · simp [dumpPrettyAt]
            · rfl
          · rw [if_pos hp, if_neg (mt hfit hp)]
  | null | bool | int | double | string =>
      simp only [printPrettyAt, height, dumpPrettyAt]
      split <;> simp_all

theorem printPrettyElements_eq (indent depth : Nat) (elements : List Value) (hp : PadsFit indent depth) :
    printPrettyElements indent depth elements =
      if PadsFit indent (depth + heightElements elements) then
        some (dumpPrettyElements indent depth elements) else none := by
  cases elements with
  | nil => simp [printPrettyElements, heightElements, dumpPrettyElements, hp]
  | cons e rest =>
      have hmax : depth + heightElements (e :: rest) =
          max (depth + 1 + height e) (depth + heightElements rest) := by
        rw [heightElements]
        omega
      rw [printPrettyElements, printPrettyAt_eq, printPrettyElements_eq indent depth rest hp, hmax]
      simp only [padsFit_max]
      by_cases he : PadsFit indent (depth + 1 + height e)
      · by_cases hr : PadsFit indent (depth + heightElements rest)
        · simp [he, hr, dumpPrettyElements]
        · simp [he, hr]
      · simp [he]

theorem printPrettyMembers_eq (indent depth : Nat) (members : List (Bytes × Value))
    (hp : PadsFit indent depth) :
    printPrettyMembers indent depth members =
      if PadsFit indent (depth + heightMembers members) then
        some (dumpPrettyMembers indent depth members) else none := by
  match members with
  | [] => simp [printPrettyMembers, heightMembers, dumpPrettyMembers, hp]
  | (k, v) :: rest =>
      have hmax : depth + heightMembers ((k, v) :: rest) =
          max (depth + 1 + height v) (depth + heightMembers rest) := by
        rw [heightMembers]
        omega
      rw [printPrettyMembers, printPrettyAt_eq, printPrettyMembers_eq indent depth rest hp, hmax]
      simp only [padsFit_max]
      by_cases hv : PadsFit indent (depth + 1 + height v)
      · by_cases hr : PadsFit indent (depth + heightMembers rest)
        · simp [hv, hr, dumpPrettyMembers]
        · simp [hv, hr]
      · simp [hv]

end

end Pads

section Plain

mutual

theorem plain_ordered (v : Value) (hv : Plain v) : Ordered v := by
  cases v with
  | array elements => exact plainElements_ordered elements hv
  | object members => exact ⟨hv.1, plainMembers_ordered members hv.2⟩
  | null | bool | int | double | string => trivial

theorem plainElements_ordered (elements : List Value) (hv : PlainElements elements) :
    OrderedElements elements := by
  cases elements with
  | nil => trivial
  | cons e rest => exact ⟨plain_ordered e hv.1, plainElements_ordered rest hv.2⟩

theorem plainMembers_ordered (members : List (Bytes × Value)) (hv : PlainMembers members) :
    OrderedMembers members := by
  match members with
  | [] => trivial
  | (k, v) :: rest => exact ⟨plain_ordered v hv.1, plainMembers_ordered rest hv.2⟩

end

mutual

-- Only doubles lose something on the way.
theorem reprint_plain (v : Value) (hv : Plain v) : reprint v = .ok v := by
  cases v with
  | array elements => rw [reprint, reprintElements_plain elements hv]; rfl
  | object members => rw [reprint, reprintMembers_plain members hv.2]; rfl
  | double d => exact absurd hv id
  | null | bool | int | string => rfl

theorem reprintElements_plain (elements : List Value) (hv : PlainElements elements) :
    reprintElements elements = .ok elements := by
  cases elements with
  | nil => rfl
  | cons e rest =>
      rw [reprintElements, reprint_plain e hv.1, reprintElements_plain rest hv.2]
      rfl

theorem reprintMembers_plain (members : List (Bytes × Value)) (hv : PlainMembers members) :
    reprintMembers members = .ok members := by
  match members with
  | [] => rfl
  | (k, v) :: rest =>
      rw [reprintMembers, reprint_plain v hv.1, reprintMembers_plain rest hv.2]
      rfl

end

end Plain

-- Both printers are undone exactly when the pads of the deepest value fit.
theorem printers_undone_iff (v : Value) (hv : Plain v) (indent : Nat) :
    (parse (dump v) = .ok v ∧ ∃ text, printPretty indent v = some text ∧ parse text = .ok v) ↔
      height v + 1 < 2 ^ 31 ∧ (height v + 1) * indent < 2 ^ 31 := by
  have hpretty := (parse_dumpPretty indent v (plain_ordered v hv)).2
  rw [reprint_plain v hv] at hpretty
  have hprint := printPrettyAt_eq indent 0 v
  rw [Nat.zero_add] at hprint
  change _ ↔ PadsFit indent (height v)
  rw [printPretty, hprint]
  constructor
  · rintro ⟨-, text, ht, -⟩
    by_contra hn
    rw [if_neg hn] at ht
    cases ht
  · intro hf
    refine ⟨parse_dump v hv, dumpPretty indent v, ?_, hpretty⟩
    rw [if_pos hf]
    rfl

-- [1] with every level indented by 2 ^ 30.
theorem printers_wide :
    Plain (.array [.int 1]) ∧ (2 : Int) ^ 30 ≤ 2147483647 ∧
      ¬(parse (dump (.array [.int 1])) = .ok (.array [.int 1]) ∧
        ∃ text, printPretty (2 ^ 30) (.array [.int 1]) = some text ∧ parse text = .ok (.array [.int 1])) := by
  refine ⟨⟨trivial, trivial⟩, by decide, ?_⟩
  rintro ⟨-, text, ht, -⟩
  have hfit : ¬PadsFit (2 ^ 30) (0 + height (.array [.int 1])) := by decide
  rw [printPretty, printPrettyAt_eq, if_neg hfit] at ht
  cases ht

theorem printers_undone_two :
    (parse (dump (.array [.int 1])) = .ok (.array [.int 1]) ∧
      ∃ text, printPretty 2 (.array [.int 1]) = some text ∧ parse text = .ok (.array [.int 1])) ↔
      height (.array [.int 1]) + 1 < 2 ^ 31 ∧ (height (.array [.int 1]) + 1) * 2 < 2 ^ 31 :=
  printers_undone_iff (.array [.int 1]) ⟨trivial, trivial⟩ 2

end Draind.Json

import Mathlib.Data.List.Induction
import Mathlib.Order.Defs.LinearOrder

namespace Draind

section Sorted

variable {κ ν : Type} [LT κ] [DecidableLT κ] [DecidableEq κ]

-- An ordered map is the list of its entries in increasing key order.
def SortedMap.insert (key : κ) (value : ν) : List (κ × ν) → List (κ × ν)
  | [] => [(key, value)]
  | (k, v) :: rest =>
      if key = k then (key, value) :: rest
      else if key < k then (key, value) :: (k, v) :: rest
      else (k, v) :: insert key value rest

-- An ordered set is the list of its elements in increasing order.
def SortedSet.insert (a : κ) : List κ → List κ
  | [] => [a]
  | b :: rest =>
      if a = b then b :: rest
      else if a < b then a :: b :: rest
      else b :: insert a rest

def SortedSet.erase (a : κ) (set : List κ) : List κ :=
  set.filter (· ≠ a)

omit [LT κ] [DecidableLT κ] in
theorem lookup_cons_ite [BEq κ] [LawfulBEq κ] (key other : κ) (value : ν) (rest : List (κ × ν)) :
    ((key, value) :: rest).lookup other = if other = key then some value else rest.lookup other := by
  by_cases h : other = key
  · simp [h]
  · have hb : (other == key) = false := by simpa using h
    rw [List.lookup_cons, hb, if_neg h]

theorem SortedMap.lookup_insert [BEq κ] [LawfulBEq κ] (key other : κ) (value : ν) (entries : List (κ × ν)) :
    (SortedMap.insert key value entries).lookup other =
      if other = key then some value else entries.lookup other := by
  induction entries with
  | nil => simp [SortedMap.insert, lookup_cons_ite]
  | cons entry rest ih =>
      obtain ⟨k, v⟩ := entry
      unfold SortedMap.insert
      split
      · rename_i hk
        subst hk
        simp only [lookup_cons_ite]
        split <;> rfl
      · rename_i hk
        split
        · simp only [lookup_cons_ite]
        · simp only [lookup_cons_ite, ih]
          by_cases h : other = k
          · subst h
            simp [Ne.symm hk]
          · simp [h]

theorem SortedMap.of_mem_insert {key : κ} {value : ν} {entries : List (κ × ν)} {entry : κ × ν}
    (h : entry ∈ SortedMap.insert key value entries) : entry = (key, value) ∨ entry ∈ entries := by
  induction entries with
  | nil => exact .inl (List.mem_singleton.mp h)
  | cons first rest ih =>
      obtain ⟨k, v⟩ := first
      unfold SortedMap.insert at h
      split at h
      · exact (List.mem_cons.mp h).imp_right (List.mem_cons_of_mem _)
      · split at h
        · exact List.mem_cons.mp h
        · rcases List.mem_cons.mp h with rfl | hm
          · exact .inr List.mem_cons_self
          · exact (ih hm).imp_right (List.mem_cons_of_mem _)

theorem SortedMap.insert_all (key : κ) {value : ν} {entries : List (κ × ν)} {p : ν → Prop}
    (hv : p value) (h : ∀ entry ∈ entries, p entry.2) :
    ∀ entry ∈ SortedMap.insert key value entries, p entry.2 := by
  intro entry hm
  rcases SortedMap.of_mem_insert hm with rfl | hm
  · exact hv
  · exact h entry hm

theorem SortedMap.insert_sorted [Trans (α := κ) (· < ·) (· < ·) (· < ·)]
    [Std.Trichotomous (α := κ) (· < ·)] (key : κ) (value : ν) (entries : List (κ × ν))
    (h : (entries.map Prod.fst).Pairwise (· < ·)) :
    ((SortedMap.insert key value entries).map Prod.fst).Pairwise (· < ·) := by
  induction entries with
  | nil => exact List.pairwise_singleton _ _
  | cons first rest ih =>
      obtain ⟨k, v⟩ := first
      obtain ⟨hfirst, hrest⟩ := List.pairwise_cons.mp h
      unfold SortedMap.insert
      split
      · rename_i hk
        subst hk
        exact h
      rename_i hne
      split
      · rename_i hlt
        refine List.pairwise_cons.mpr ⟨fun other ho => ?_, h⟩
        rcases List.mem_cons.mp ho with rfl | ho
        · exact hlt
        · exact Trans.trans hlt (hfirst other ho)
      · rename_i hnlt
        have hgt : k < key := by
          by_contra hn
          exact hne (Std.Trichotomous.trichotomous (r := (· < ·)) key k hnlt hn)
        refine List.pairwise_cons.mpr ⟨fun other ho => ?_, ih hrest⟩
        obtain ⟨entry, hm, rfl⟩ := List.mem_map.mp ho
        rcases SortedMap.of_mem_insert hm with rfl | hm
        · exact hgt
        · exact hfirst entry.1 (List.mem_map_of_mem hm)

-- The map that assigning these entries in order leads to.
def SortedMap.ofList (entries : List (κ × ν)) : List (κ × ν) :=
  entries.foldl (fun map entry => SortedMap.insert entry.1 entry.2 map) []

theorem SortedMap.ofList_concat (entries : List (κ × ν)) (key : κ) (value : ν) :
    SortedMap.ofList (entries ++ [(key, value)]) = SortedMap.insert key value (SortedMap.ofList entries) := by
  simp [SortedMap.ofList]

-- Of several entries with the same key the last one counts.
theorem SortedMap.lookup_ofList [BEq κ] [LawfulBEq κ] (entries : List (κ × ν)) (key : κ) :
    (SortedMap.ofList entries).lookup key = entries.reverse.lookup key := by
  induction entries using List.reverseRecOn with
  | nil => rfl
  | append_singleton entries entry ih =>
      obtain ⟨k, v⟩ := entry
      rw [ofList_concat, lookup_insert, List.reverse_append, List.reverse_singleton, List.singleton_append,
        lookup_cons_ite, ih]

theorem SortedMap.ofList_sorted [Trans (α := κ) (· < ·) (· < ·) (· < ·)]
    [Std.Trichotomous (α := κ) (· < ·)] (entries : List (κ × ν)) :
    ((SortedMap.ofList entries).map Prod.fst).Pairwise (· < ·) := by
  induction entries using List.reverseRecOn with
  | nil => exact .nil
  | append_singleton entries entry ih =>
      rw [ofList_concat]
      exact insert_sorted entry.1 entry.2 _ ih

omit [DecidableLT κ] [DecidableEq κ] in
-- The first key is the least, so that a key below it is not found.
theorem SortedMap.lookup_below [Trans (α := κ) (· < ·) (· < ·) (· < ·)] [Std.Irrefl (α := κ) (· < ·)]
    [BEq κ] [LawfulBEq κ] {key k : κ} {entries : List (κ × ν)}
    (hs : (k :: entries.map Prod.fst).Pairwise (· < ·)) (hk : key < k ∨ key = k) :
    entries.lookup key = none := by
  obtain ⟨hfirst, -⟩ := List.pairwise_cons.mp hs
  refine List.lookup_eq_none_iff.mpr fun entry hm => ?_
  have hlt : k < entry.1 := hfirst entry.1 (List.mem_map_of_mem hm)
  have hne : key ≠ entry.1 := by
    rintro rfl
    rcases hk with hk | rfl
    · exact Std.Irrefl.irrefl (r := (· < ·)) _ (Trans.trans hlt hk)
    · exact Std.Irrefl.irrefl (r := (· < ·)) _ hlt
  simpa using hne

omit [DecidableLT κ] in
-- A map is what its keys are looked up as.
theorem SortedMap.ext [Trans (α := κ) (· < ·) (· < ·) (· < ·)] [Std.Irrefl (α := κ) (· < ·)]
    [Std.Trichotomous (α := κ) (· < ·)] [BEq κ] [LawfulBEq κ] {first second : List (κ × ν)}
    (h₁ : (first.map Prod.fst).Pairwise (· < ·)) (h₂ : (second.map Prod.fst).Pairwise (· < ·))
    (h : ∀ key, first.lookup key = second.lookup key) : first = second := by
  induction first generalizing second with
  | nil =>
      cases second with
      | nil => rfl
      | cons entry rest =>
          have hfound := h entry.1
          rw [lookup_cons_ite, if_pos rfl] at hfound
          cases hfound
  | cons entry rest ih =>
      obtain ⟨k, v⟩ := entry
      cases second with
      | nil =>
          have hfound := h k
          rw [lookup_cons_ite, if_pos rfl] at hfound
          cases hfound
      | cons entry' rest' =>
          obtain ⟨k', v'⟩ := entry'
          -- Of two different first keys the smaller one is found on one side only.
          have hnlt : ¬k < k' := by
            intro hlt
            have hne : k ≠ k' := fun he => Std.Irrefl.irrefl (r := (· < ·)) k' (he ▸ hlt)
            have hfound := h k
            rw [lookup_cons_ite, if_pos rfl, lookup_cons_ite, if_neg hne, lookup_below h₂ (.inl hlt)] at hfound
            cases hfound
          have hngt : ¬k' < k := by
            intro hlt
            have hne : k' ≠ k := fun he => Std.Irrefl.irrefl (r := (· < ·)) k (he ▸ hlt)
            have hfound := h k'
            rw [lookup_cons_ite, if_neg hne, lookup_below h₁ (.inl hlt), lookup_cons_ite, if_pos rfl] at hfound
            cases hfound
          obtain rfl : k = k' := Std.Trichotomous.trichotomous (r := (· < ·)) k k' hnlt hngt
          have hv : some v = some v' := by simpa [lookup_cons_ite] using h k
          obtain rfl := Option.some.inj hv
          have hrest : rest = rest' := by
            refine ih (List.pairwise_cons.mp h₁).2 (List.pairwise_cons.mp h₂).2 fun key => ?_
            by_cases hk : key = k
            · rw [lookup_below h₁ (.inr hk), lookup_below h₂ (.inr hk)]
            · simpa [lookup_cons_ite, hk] using h key
          rw [hrest]

@[simp]
theorem SortedSet.mem_insert (a b : κ) (set : List κ) :
    b ∈ SortedSet.insert a set ↔ b = a ∨ b ∈ set := by
  induction set with
  | nil => simp [SortedSet.insert]
  | cons c rest ih =>
      unfold SortedSet.insert
      split
      · rename_i h
        subst h
        simp
      · split
        · simp
        · simp only [List.mem_cons, ih]
          exact or_left_comm

omit [LT κ] [DecidableLT κ] in
@[simp]
theorem SortedSet.mem_erase (a b : κ) (set : List κ) :
    b ∈ SortedSet.erase a set ↔ b ∈ set ∧ b ≠ a := by
  simp [SortedSet.erase]

end Sorted

end Draind

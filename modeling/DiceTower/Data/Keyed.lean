/-! Lists of values under keys, in the order in which the keys were first given. -/

namespace DiceTower.Keyed

variable {κ α : Type} [DecidableEq κ]

/-- The list with a value under a key: in its place if the key is there, else at the end. -/
def put (key : κ) (value : α) : List (κ × α) → List (κ × α)
  | [] => [(key, value)]
  | (other, old) :: pairs =>
    if other = key then (key, value) :: pairs else (other, old) :: put key value pairs

def erase (key : κ) (pairs : List (κ × α)) : List (κ × α) := pairs.filter (·.1 ≠ key)

/-- The list of some pairs, the later of two with one key in the place of the earlier. -/
def ofPairs (pairs : List (κ × α)) : List (κ × α) :=
  pairs.foldl (fun kept p => put p.1 p.2 kept) []

theorem lookup_put (key : κ) (value : α) (pairs : List (κ × α)) :
    (put key value pairs).lookup key = some value := by
  induction pairs with
  | nil => simp [put]
  | cons p pairs ih =>
    obtain ⟨other, old⟩ := p
    by_cases h : other = key
    · simp [put, h]
    · have : (key == other) = false := by simpa using fun he => h he.symm
      simp [put, h, List.lookup_cons, this, ih]

theorem lookup_put_of_ne {key other : κ} (h : other ≠ key) (value : α) (pairs : List (κ × α)) :
    (put key value pairs).lookup other = pairs.lookup other := by
  have hk : (other == key) = false := by simpa using h
  induction pairs with
  | nil => simp [put, List.lookup_cons, hk]
  | cons p pairs ih =>
    obtain ⟨first, old⟩ := p
    by_cases hf : first = key
    · simp [put, hf, List.lookup_cons, hk]
    · simp [put, hf, List.lookup_cons, ih]

theorem mem_put {key : κ} {value : α} {p : κ × α} {pairs : List (κ × α)}
    (h : p ∈ put key value pairs) : p = (key, value) ∨ p ∈ pairs := by
  induction pairs with
  | nil => exact .inl (List.mem_singleton.mp h)
  | cons q pairs ih =>
    obtain ⟨other, old⟩ := q
    unfold put at h
    split at h
    · exact (List.mem_cons.mp h).imp_right (List.mem_cons_of_mem _)
    · rcases List.mem_cons.mp h with rfl | h
      · exact .inr List.mem_cons_self
      · exact (ih h).imp_right (List.mem_cons_of_mem _)

/-- A key that is there keeps its place, and a new one comes last. -/
theorem keys_put (key : κ) (value : α) (pairs : List (κ × α)) :
    (put key value pairs).map (·.1) =
      if key ∈ pairs.map (·.1) then pairs.map (·.1) else pairs.map (·.1) ++ [key] := by
  induction pairs with
  | nil => rfl
  | cons p pairs ih =>
    obtain ⟨other, old⟩ := p
    by_cases h : other = key
    · simp [put, h]
    · have hk : ¬ key = other := fun he => h he.symm
      rw [put, if_neg h, List.map_cons, ih]
      by_cases hm : key ∈ pairs.map (·.1)
      · rw [if_pos hm, if_pos (by simpa using .inr (by simpa using hm)), List.map_cons]
      · rw [if_neg hm, if_neg (by simpa [hk] using hm), List.map_cons, List.cons_append]

theorem lookup_erase (key : κ) (pairs : List (κ × α)) : (erase key pairs).lookup key = none := by
  induction pairs with
  | nil => rfl
  | cons p pairs ih =>
    obtain ⟨other, old⟩ := p
    by_cases h : other = key
    · simpa [erase, h] using ih
    · have : (key == other) = false := by simpa using fun he => h he.symm
      simpa [erase, h, List.lookup_cons, this] using ih

theorem lookup_erase_of_ne {key other : κ} (h : other ≠ key) (pairs : List (κ × α)) :
    (erase key pairs).lookup other = pairs.lookup other := by
  have hk : (other == key) = false := by simpa using h
  unfold erase
  induction pairs with
  | nil => rfl
  | cons p pairs ih =>
    obtain ⟨first, old⟩ := p
    by_cases hf : first = key
    · rw [List.filter_cons_of_neg (by simp [hf]), ih, List.lookup_cons, hf, hk]
    · rw [List.filter_cons_of_pos (by simpa using hf), List.lookup_cons, List.lookup_cons, ih]

end DiceTower.Keyed

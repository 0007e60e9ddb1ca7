import Mathlib.Algebra.BigOperators.Fin
import Mathlib.Data.Fin.Tuple.Finset
import Mathlib.Data.Finset.Sort
import DiceTower.Proofs.Odds.Ranks

/-! The average of the dice of some ranks, written out: the sum over every way in which the dice may
fall, each with the product of the chances of its faces. -/

namespace DiceTower

open Chance

def Law.onFaces (faces : Finset Int) (chance : Int → ℚ) : Law ℚ :=
  faces.sort.map fun face => (face, chance face)

section Faces

variable {faces : Finset Int} {chance : Int → ℚ}

theorem Law.sum_map_onFaces (faces : Finset Int) (chance : Int → ℚ) (g : Int × ℚ → ℚ) :
    ((Law.onFaces faces chance).map g).sum = ∑ face ∈ faces, g (face, chance face) := by
  rw [onFaces, List.map_map, ← Finset.sum_map_toList]
  exact ((Finset.sort_perm_toList faces (· ≤ ·)).map _).sum_eq

theorem Law.ordered_onFaces (hn : ∀ face ∈ faces, 0 ≤ chance face)
    (hc : ∑ face ∈ faces, chance face = 1) : (Law.onFaces faces chance).Ordered where
  ascending := by
    rw [onFaces, List.map_map]
    simpa [Function.comp_def] using faces.sortedLT_sort.pairwise
  nonneg := by
    intro f hf
    obtain ⟨face, hface, rfl⟩ := List.mem_map.mp hf
    exact hn face ((Finset.mem_sort _).mp hface)
  certain := (sum_map_onFaces faces chance _).trans hc

theorem sum_piFinset_cons {n : Nat} (faces : Finset Int) (g : (Fin (n + 1) → Int) → ℚ) :
    ∑ t ∈ Fintype.piFinset (fun _ : Fin (n + 1) => faces), g t =
      ∑ face ∈ faces, ∑ t ∈ Fintype.piFinset (fun _ : Fin n => faces), g (Fin.cons face t) := by
  rw [← Finset.sum_product']
  refine Finset.sum_nbij' (fun t => (t 0, Fin.tail t)) (fun p => Fin.cons p.1 p.2) ?_ ?_ ?_ ?_ ?_
  · intro t ht
    exact Finset.mem_product.mpr (Fin.mem_piFinset_iff_zero_tail.mp ht)
  · intro p hp
    refine Fin.mem_piFinset_iff_zero_tail.mpr ?_
    rw [Fin.cons_zero, Fin.tail_cons]
    exact Finset.mem_product.mp hp
  · exact fun t _ => Fin.cons_self_tail t
  · exact fun p _ => by simp
  · exact fun t _ => by rw [Fin.cons_self_tail]

/-- The average over several dice is a sum over all the ways in which they may fall. -/
theorem Law.expect_onFaces (faces : Finset Int) (chance : Int → ℚ) (n : Nat) (v : List Int → ℚ) :
    (Law.onFaces faces chance).expect n v = ∑ t ∈ Fintype.piFinset (fun _ : Fin n => faces),
      (∏ i, chance (t i)) * v (List.ofFn t) := by
  induction n generalizing v with
  | zero => simp [expect]
  | succ n ih =>
    rw [expect, sum_map_onFaces, sum_piFinset_cons]
    refine Finset.sum_congr rfl fun face _ => ?_
    rw [ih, Finset.mul_sum]
    refine Finset.sum_congr rfl fun t _ => ?_
    rw [Fin.prod_univ_succ, Fin.cons_zero, List.ofFn_succ, Fin.cons_zero, mul_assoc]
    simp only [Fin.cons_succ]

/-- What is computed for some ranks of the dice is the sum, over all ways in which the dice may fall,
of the product of the chances of the faces times what the dice of these ranks show, clamped. -/
theorem rankedAverage_eq_sum_piFinset (hn : ∀ face ∈ faces, 0 ≤ chance face)
    (hc : ∑ face ∈ faces, chance face = 1) {n : Nat} {ranks : List Nat} (hd : ranks.Nodup)
    (hr : ∀ r ∈ ranks, r < n) (low high : Option Int) :
    rankedAverage (Law.onFaces faces chance) n (ranks.map Int.ofNat) low high =
      .ok (∑ t ∈ Fintype.piFinset (fun _ : Fin n => faces), (∏ i, chance (t i)) *
        (ranks.map fun r => (clamp low high (ranked (List.ofFn t) r) : ℚ)).sum) := by
  rw [(Law.ordered_onFaces hn hc).rankedAverage_eq hd hr, Law.expect_onFaces]

def loaded (face : Int) : ℚ := if face = 2 then 3 / 4 else if face = 0 then 0 else 1 / 4

/-- The highest and the lowest of three such dice, none counted below zero. -/
theorem rankedAverage_loaded :
    (∀ face ∈ ({-1, 0, 2} : Finset Int), 0 ≤ loaded face) ∧
    ∑ face ∈ ({-1, 0, 2} : Finset Int), loaded face = 1 ∧
    [2, 0].Nodup ∧ (∀ r ∈ [2, 0], r < 3) ∧
    rankedAverage (Law.onFaces {-1, 0, 2} loaded) (3 : Nat) ([2, 0].map Int.ofNat) (some 0) none =
      .ok (∑ t ∈ Fintype.piFinset (fun _ : Fin 3 => ({-1, 0, 2} : Finset Int)),
        (∏ i, loaded (t i)) * ([2, 0].map fun r =>
          (clamp (some 0) none (ranked (List.ofFn t) r) : ℚ)).sum) := by
  have hn : ∀ face ∈ ({-1, 0, 2} : Finset Int), 0 ≤ loaded face := by decide +kernel
  have hc : ∑ face ∈ ({-1, 0, 2} : Finset Int), loaded face = 1 := by decide +kernel
  have hd : [2, 0].Nodup := by decide
  have hr : ∀ r ∈ [2, 0], r < 3 := by decide
  exact ⟨hn, hc, hd, hr, rankedAverage_eq_sum_piFinset hn hc hd hr (some 0) none⟩

end Faces

end DiceTower

import Mathlib.Algebra.BigOperators.Intervals
import Mathlib.Algebra.BigOperators.Ring.List
import Mathlib.Algebra.Order.BigOperators.Group.List
import Mathlib.Data.Nat.Choose.Sum
import Mathlib.Tactic.FieldSimp
import Mathlib.Tactic.Ring
import DiceTower.Proofs.Odds.Faces

/-! The average of a value over several dice of one law. For fresh dice it is the mean over all
streams of faces; how many of the dice show one of some faces follows a binomial law. -/

namespace DiceTower

open Chance

def streams (sides : Int) : Nat → List (List Int)
  | 0 => [[]]
  | n + 1 => (facesOf sides).flatMap fun face => (streams sides n).map (face :: ·)

section Streams

variable {sides : Int} {n : Nat}

theorem mem_facesOf {face : Int} : face ∈ facesOf sides ↔ 1 ≤ face ∧ face ≤ sides := by
  unfold facesOf
  simp only [List.mem_map, List.mem_range]
  constructor
  · rintro ⟨i, hi, rfl⟩
    omega
  · rintro ⟨hlow, hhigh⟩
    exact ⟨(face - 1).toNat, by omega, by omega⟩

theorem length_facesOf (sides : Int) : (facesOf sides).length = sides.toNat := by
  rw [facesOf, List.length_map, List.length_range]

theorem mem_streams {faces : List Int} : faces ∈ streams sides n ↔
    faces.length = n ∧ ∀ face ∈ faces, 1 ≤ face ∧ face ≤ sides := by
  induction n generalizing faces with
  | zero => simp +contextual [streams, List.length_eq_zero_iff]
  | succ n ih =>
    cases faces with
    | nil => simp [streams]
    | cons face faces => simp [streams, ih, mem_facesOf, and_left_comm]

theorem length_streams (sides : Int) (n : Nat) :
    (streams sides n).length = sides.toNat ^ n := by
  induction n with
  | zero => rfl
  | succ n ih =>
    simp only [streams, List.length_flatMap, List.length_map, ih, List.map_const',
      List.sum_replicate_nat, length_facesOf]
    rw [Nat.pow_succ, Nat.mul_comm]

end Streams

namespace Law

def Certain (law : Law ℚ) : Prop := (law.map (·.2)).sum = 1

def expect (law : Law ℚ) : Nat → (List Int → ℚ) → ℚ
  | 0, v => v []
  | n + 1, v => (law.map fun f => f.2 * law.expect n fun faces => v (f.1 :: faces)).sum

variable {law : Law ℚ} {n : Nat} {v w : List Int → ℚ}

theorem expect_congr
    (h : ∀ faces, faces.length = n → (∀ face ∈ faces, face ∈ law.map (·.1)) → v faces = w faces) :
    law.expect n v = law.expect n w := by
  induction n generalizing v w with
  | zero => exact h [] rfl (by simp)
  | succ n ih =>
    unfold expect
    refine congrArg List.sum (List.map_congr_left fun f hf => ?_)
    rw [ih fun faces hlength hfaces => h (f.1 :: faces) (by simp [hlength]) ?_]
    exact List.forall_mem_cons.mpr ⟨List.mem_map_of_mem hf, hfaces⟩

theorem expect_mono (hn : ∀ f ∈ law, 0 ≤ f.2)
    (h : ∀ faces, faces.length = n → (∀ face ∈ faces, face ∈ law.map (·.1)) → v faces ≤ w faces) :
    law.expect n v ≤ law.expect n w := by
  induction n generalizing v w with
  | zero => exact h [] rfl (by simp)
  | succ n ih =>
    unfold expect
    refine List.sum_le_sum fun f hf => mul_le_mul_of_nonneg_left ?_ (hn f hf)
    refine ih fun faces hlength hfaces => h (f.1 :: faces) (by simp [hlength]) ?_
    exact List.forall_mem_cons.mpr ⟨List.mem_map_of_mem hf, hfaces⟩

theorem expect_lt (hp : ∀ f ∈ law, 0 < f.2)
    (h : ∀ faces, faces.length = n → (∀ face ∈ faces, face ∈ law.map (·.1)) → v faces ≤ w faces)
    (faces : List Int) (hl : faces.length = n) (hf : ∀ face ∈ faces, face ∈ law.map (·.1))
    (hlt : v faces < w faces) : law.expect n v < law.expect n w := by
  induction n generalizing v w faces with
  | zero =>
    rw [List.length_eq_zero_iff.mp hl] at hlt
    exact hlt
  | succ n ih =>
    obtain ⟨face, faces, rfl⟩ := List.exists_cons_of_length_eq_add_one hl
    obtain ⟨hface, hfaces⟩ := List.forall_mem_cons.mp hf
    obtain ⟨f, hmem, rfl⟩ := List.mem_map.mp hface
    have hle : ∀ g ∈ law, ∀ rest : List Int, rest.length = n →
        (∀ face ∈ rest, face ∈ law.map (·.1)) → v (g.1 :: rest) ≤ w (g.1 :: rest) := by
      intro g hg rest hlength hrest
      refine h (g.1 :: rest) (by simp [hlength]) ?_
      exact List.forall_mem_cons.mpr ⟨List.mem_map_of_mem hg, hrest⟩
    unfold expect
    refine List.sum_lt_sum _ _ (fun g hg => ?_) ⟨f, hmem, ?_⟩
    · refine mul_le_mul_of_nonneg_left ?_ (hp g hg).le
      exact expect_mono (fun f hf => (hp f hf).le) (hle g hg)
    · refine mul_lt_mul_of_pos_left ?_ (hp f hmem)
      exact ih (hle f hmem) faces (by simpa using hl) hfaces hlt

theorem expect_add (n : Nat) (v w : List Int → ℚ) :
    law.expect n (fun faces => v faces + w faces) = law.expect n v + law.expect n w := by
  induction n generalizing v w with
  | zero => rfl
  | succ n ih => simp only [expect, ih, mul_add, List.sum_map_add]

theorem expect_mul (n : Nat) (c : ℚ) (v : List Int → ℚ) :
    law.expect n (fun faces => c * v faces) = c * law.expect n v := by
  induction n generalizing v with
  | zero => rfl
  | succ n ih => simp only [expect, ih, mul_left_comm _ c, List.sum_map_mul_left]

theorem expect_sub (n : Nat) (v w : List Int → ℚ) :
    law.expect n (fun faces => v faces - w faces) = law.expect n v - law.expect n w := by
  have hneg := law.expect_mul n (-1) w
  have hadd := law.expect_add n v fun faces => -1 * w faces
  simp only [neg_one_mul, ← sub_eq_add_neg] at hneg hadd
  rw [hadd, hneg, sub_eq_add_neg]

theorem expect_zero (law : Law ℚ) (n : Nat) : law.expect n (fun _ => 0) = 0 := by
  have h := law.expect_mul n 0 fun _ => 0
  simpa using h

theorem expect_sum {α : Type} (n : Nat) (xs : List α) (u : α → List Int → ℚ) :
    law.expect n (fun faces => (xs.map fun x => u x faces).sum) =
      (xs.map fun x => law.expect n (u x)).sum := by
  induction xs with
  | nil => exact law.expect_zero n
  | cons x xs ih =>
    simp only [List.map_cons, List.sum_cons]
    rw [expect_add, ih]

theorem Certain.expect_const (h : law.Certain) (n : Nat) (c : ℚ) :
    law.expect n (fun _ => c) = c := by
  induction n with
  | zero => rfl
  | succ n ih => rw [expect, ih, List.sum_map_mul_right, h, one_mul]

theorem Certain.expect_sum_map (h : law.Certain) (n : Nat) (g : Int → ℚ) :
    law.expect n (fun faces => (faces.map g).sum) = n * (law.map fun f => g f.1 * f.2).sum := by
  induction n with
  | zero => simp [expect]
  | succ n ih =>
    simp only [expect, List.map_cons, List.sum_cons, expect_add, ih, h.expect_const, mul_add,
      List.sum_map_add, List.sum_map_mul_right]
    rw [show (law.map (·.2)).sum = 1 from h, one_mul]
    simp only [mul_comm (Prod.snd _)]
    push_cast
    ring

theorem chance_cons (f : Int × ℚ) (law : Law ℚ) (p : Int → Bool) :
    Law.chance (f :: law) p = (if p f.1 then f.2 else 0) + law.chance p := by
  unfold chance
  rw [total_eq_sum, total_eq_sum]
  cases hp : p f.1
  · rw [List.filter_cons_of_neg (by simp [hp]), if_neg Bool.false_ne_true, zero_add]
  · rw [List.filter_cons_of_pos (by simp [hp]), List.map_cons, List.sum_cons, if_pos rfl]

theorem sum_ite (law : Law ℚ) (p : Int → Bool) (a b : ℚ) :
    (law.map fun f => f.2 * if p f.1 then a else b).sum =
      law.chance p * a + ((law.map (·.2)).sum - law.chance p) * b := by
  induction law with
  | nil => simp [chance, total_eq_sum]
  | cons f law ih =>
    simp only [List.map_cons, List.sum_cons, ih, chance_cons]
    split
    · ring
    · ring

/-- How many of the dice show one of some faces follows a binomial law. -/
theorem Certain.expect_countP (h : law.Certain) (n : Nat) (p : Int → Bool) (g : Nat → ℚ) :
    law.expect n (fun faces => g (faces.countP p)) =
      ∑ k ∈ Finset.HasAntidiagonal.antidiagonal n,
        n.choose k.1 * (law.chance p ^ k.1 * (1 - law.chance p) ^ k.2 * g k.1) := by
  have hstep (n : Nat) (g : Nat → ℚ) : law.expect (n + 1) (fun faces => g (faces.countP p)) =
      law.chance p * law.expect n (fun faces => g (faces.countP p + 1)) +
        (1 - law.chance p) * law.expect n (fun faces => g (faces.countP p)) := by
    have hsum : (law.map (·.2)).sum = 1 := h
    rw [expect, ← hsum, ← sum_ite]
    refine congrArg List.sum (List.map_congr_left fun f _ => ?_)
    cases hp : p f.1 <;> simp [hp]
  induction n generalizing g with
  | zero => simp [expect]
  | succ n ih =>
    rw [hstep, ih fun k => g (k + 1), ih g, add_comm,
      Finset.sum_antidiagonal_choose_succ_mul
        fun i j => law.chance p ^ i * (1 - law.chance p) ^ j * g i]
    rw [Finset.mul_sum, Finset.mul_sum]
    congr 1
    · refine Finset.sum_congr rfl fun k _ => ?_
      ring
    · refine Finset.sum_congr rfl fun k hk => ?_
      rw [Nat.choose_symm_of_eq_add (Finset.HasAntidiagonal.mem_antidiagonal.mp hk).symm]
      ring

theorem cast_sides {sides : Int} (h : 1 ≤ sides) :
    (sides : ℚ) = sides.toNat ∧ (sides.toNat : ℚ) ≠ 0 := by
  have hnat : ((sides.toNat : Int) : ℚ) = sides := by rw [Int.toNat_of_nonneg (by omega)]
  have hpos : sides.toNat ≠ 0 := by omega
  exact ⟨hnat.symm, by exact_mod_cast hpos⟩

theorem certain_uniform {sides : Int} (h : 1 ≤ sides) : (uniform sides : Law ℚ).Certain := by
  obtain ⟨hcast, hpos⟩ := cast_sides h
  unfold Certain uniform
  rw [List.map_map]
  show ((facesOf sides).map fun _ => (1 : ℚ) / sides).sum = 1
  rw [List.map_const', List.sum_replicate, length_facesOf, hcast, nsmul_eq_mul]
  field_simp

theorem expect_uniform {sides : Int} (h : 1 ≤ sides) (n : Nat) (v : List Int → ℚ) :
    (uniform sides : Law ℚ).expect n v =
      ((streams sides n).map v).sum / (streams sides n).length := by
  obtain ⟨hcast, hpos⟩ := cast_sides h
  rw [length_streams]
  induction n generalizing v with
  | zero => simp [expect, streams]
  | succ n ih =>
    have hfaces : ((streams sides (n + 1)).map v).sum = ((facesOf sides).map fun face =>
        ((streams sides n).map fun faces => v (face :: faces)).sum).sum := by
      rw [streams, List.flatMap_def, List.map_flatten, List.sum_flatten, List.map_map, List.map_map]
      simp only [Function.comp_def, List.map_map]
    rw [hfaces, expect, uniform, List.map_map]
    show ((facesOf sides).map fun face => (1 : ℚ) / sides * (uniform sides : Law ℚ).expect n
      fun faces => v (face :: faces)).sum = _
    simp only [ih, hcast, List.sum_map_mul_left, div_eq_mul_inv, List.sum_map_mul_right]
    push_cast
    rw [pow_succ]
    field_simp

end Law

end DiceTower

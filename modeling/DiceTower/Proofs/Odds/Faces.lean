import Mathlib.Algebra.Order.BigOperators.Group.List
import Mathlib.Data.Rat.Cast.Order
import Mathlib.Tactic.Linarith
import Mathlib.Tactic.Positivity
import DiceTower.Odds.Faces

/-! The faces that a die can show by its law, with exact chances. A die that is rerolled once and
not again can still show every face. -/

namespace DiceTower

open Chance

theorem Chance.total_eq_sum (xs : List ℚ) : total xs = xs.sum := by
  have hfold (y : ℚ) : xs.foldl (· + ·) y = y + xs.sum := by
    induction xs generalizing y with
    | nil => exact (add_zero y).symm
    | cons x xs ih => rw [List.foldl_cons, ih, List.sum_cons, add_assoc]
  exact (hfold 0).trans (zero_add _)

namespace Law

structure Full (sides : Int) (law : Law ℚ) : Prop where
  faces : law.map (·.1) = facesOf sides
  positive : ∀ f ∈ law, 0 < f.2

variable {sides : Int} {fresh law : Law ℚ}

theorem full_uniform (h : 1 ≤ sides) : (uniform sides : Law ℚ).Full sides := by
  constructor
  · simp [uniform, Function.comp_def]
  · intro f hf
    obtain ⟨face, _, rfl⟩ := List.mem_map.mp hf
    have hs : (0 : ℚ) < sides := by exact_mod_cast h
    exact div_pos one_pos hs

theorem Full.mem_iff (h : law.Full sides) {face : Int} :
    face ∈ facesOf sides ↔ ∃ p, (face, p) ∈ law := by
  rw [← h.faces]
  simp

def Shows (law : Law ℚ) (face : Int) : Prop := ∃ p, (face, p) ∈ law ∧ 0 < p

theorem chance_nonneg (h : ∀ f ∈ law, 0 ≤ f.2) (p : Int → Bool) : 0 ≤ law.chance p := by
  rw [chance, total_eq_sum]
  refine List.sum_nonneg fun x hx => ?_
  obtain ⟨f, hf, rfl⟩ := List.mem_map.mp hx
  exact h f (List.mem_filter.mp hf).1

theorem Shows.chance_pos (h : ∀ f ∈ law, 0 ≤ f.2) {face : Int} (hs : law.Shows face)
    {p : Int → Bool} (hp : p face = true) : 0 < law.chance p := by
  obtain ⟨x, hx, hpos⟩ := hs
  rw [chance, total_eq_sum]
  refine hpos.trans_le (List.single_le_sum (fun y hy => ?_) _
    (List.mem_map.mpr ⟨_, List.mem_filter.mpr ⟨hx, hp⟩, rfl⟩))
  obtain ⟨f, hf, rfl⟩ := List.mem_map.mp hy
  exact h f (List.mem_filter.mp hf).1

theorem faces_reroll (hf : fresh.map (·.1) = law.map (·.1)) (targets : List Int) :
    (Law.reroll fresh law targets false).map (·.1) = law.map (·.1) := by
  have hlen : fresh.length = law.length := by simpa using congrArg List.length hf
  have hz := congrArg (List.map (·.1)) (List.map_fst_zip hlen.le)
  rw [List.map_map, hf] at hz
  unfold Law.reroll
  simp only [Bool.false_and, Bool.false_eq_true, if_false, ← List.map_uncurry_zip_eq_zipWith]
  rw [List.map_map]
  exact hz

/-- The chance of a face after a reroll: its own, unless it is a target, and that of being drawn. -/
theorem mem_reroll_iff (targets : List Int) {face : Int} {x : ℚ} :
    (face, x) ∈ Law.reroll fresh law targets false ↔ ∃ p g, ((face, p), g) ∈ fresh.zip law ∧
      x = (if targets.contains face then 0 else g.2) + law.chance targets.contains * p := by
  unfold Law.reroll
  simp only [Bool.false_and, Bool.false_eq_true, if_false, ← List.map_uncurry_zip_eq_zipWith]
  constructor
  · intro h
    obtain ⟨⟨⟨_, p⟩, g⟩, hz, he⟩ := List.mem_map.mp h
    cases he
    exact ⟨p, g, hz, rfl⟩
  · rintro ⟨p, g, hz, rfl⟩
    exact List.mem_map.mpr ⟨_, hz, rfl⟩

theorem Full.reroll (hf : fresh.Full sides) (hl : law.Full sides) (targets : List Int) :
    (Law.reroll fresh law targets false).Full sides := by
  have hnonneg : ∀ f ∈ law, 0 ≤ f.2 := fun f hf => (hl.positive f hf).le
  constructor
  · exact (faces_reroll (hf.faces.trans hl.faces.symm) targets).trans hl.faces
  · rintro ⟨face, x⟩ hx
    obtain ⟨p, g, hz, rfl⟩ := (mem_reroll_iff targets).mp hx
    obtain ⟨hface, hkept⟩ := List.of_mem_zip hz
    have hp := hf.positive _ hface
    dsimp only at hp ⊢
    cases hc : targets.contains face
    · exact add_pos_of_pos_of_nonneg (hl.positive _ hkept)
        (mul_nonneg (chance_nonneg hnonneg _) hp.le)
    · obtain ⟨q, hq⟩ := hl.mem_iff.mp (hf.mem_iff.mpr ⟨p, hface⟩)
      have hpos := Shows.chance_pos hnonneg ⟨q, hq, hl.positive _ hq⟩ hc
      exact add_pos_of_nonneg_of_pos le_rfl (mul_pos hpos hp)

theorem full_foldl_reroll (hf : fresh.Full sides) (hl : law.Full sides) {ops : List Operation}
    (h : ∀ op ∈ ops, op.recursive = false) :
    (ops.foldl (fun law op => if op.kind = .reroll
      then Law.reroll fresh law op.operand.values op.recursive else law) law).Full sides := by
  induction ops generalizing law with
  | nil => exact hl
  | cons op ops ih =>
    refine ih ?_ fun op hop => h op (by simp [hop])
    dsimp only
    split
    · rw [h op (by simp)]
      exact hf.reroll hl _
    · exact hl

theorem ofPool_eq_foldl {p : Pool} (hs : 1 ≤ p.sides)
    (h : ∀ op ∈ p.operations, op.recursive = false) :
    (ofPool p : Law ℚ) = p.operations.foldl (fun law op => if op.kind = .reroll
      then Law.reroll (uniform p.sides) law op.operand.values op.recursive else law)
      (uniform p.sides) :=
  List.filter_eq_self.mpr (full_foldl_reroll (full_uniform hs) (full_uniform hs) h).positive

theorem full_ofPool {p : Pool} (hs : 1 ≤ p.sides) (h : ∀ op ∈ p.operations, op.recursive = false) :
    (ofPool p : Law ℚ).Full p.sides := by
  rw [ofPool_eq_foldl hs h]
  exact full_foldl_reroll (full_uniform hs) (full_uniform hs) h

end Law

end DiceTower

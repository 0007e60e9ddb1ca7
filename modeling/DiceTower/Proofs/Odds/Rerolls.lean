import DiceTower.Proofs.Odds.Tuples

/-! Rerolls on a stream of faces. A reroll takes a face from the stream only where a target shows, so
that how much of the stream is read depends on it; what comes of it on average follows the law that
each reroll gives to a single die, however long the stream is. -/

namespace DiceTower

open Chance

/-- Faces after a reroll, in which each target in turn gives way to the next face of a stream; and
what is left of the stream. -/
def rerolled (targets : List Int) : List Int → List Int → List Int × List Int
  | [], stream => ([], stream)
  | face :: faces, stream =>
    if targets.contains face then
      let (faces, rest) := rerolled targets faces stream.tail
      (stream.headD 1 :: faces, rest)
    else
      let (faces, rest) := rerolled targets faces stream
      (face :: faces, rest)

def rerollings : List (List Int) → List Int → List Int → List Int × List Int
  | [], faces, stream => (faces, stream)
  | targets :: more, faces, stream =>
    let (faces, rest) := rerolled targets faces stream
    rerollings more faces rest

theorem length_le_rerolled (targets faces stream : List Int) :
    stream.length ≤ (rerolled targets faces stream).2.length + faces.length := by
  induction faces generalizing stream with
  | nil => exact Nat.le_refl _
  | cons face faces ih =>
    have hnext := ih stream
    have htail := ih stream.tail
    rw [List.length_tail] at htail
    unfold rerolled
    rw [List.length_cons]
    split
    · dsimp only
      omega
    · dsimp only
      omega

namespace Law

def redrawn (fresh : Law ℚ) (targets : List Int) : List Int → (List Int → ℚ) → ℚ
  | [], v => v []
  | face :: faces, v =>
    if targets.contains face then
      (fresh.map fun f => f.2 * fresh.redrawn targets faces fun rest => v (f.1 :: rest)).sum
    else fresh.redrawn targets faces fun rest => v (face :: rest)

def settled (fresh : Law ℚ) : List (List Int) → List Int → (List Int → ℚ) → ℚ
  | [], faces, v => v faces
  | targets :: more, faces, v =>
    fresh.redrawn targets faces fun faces => fresh.settled more faces v

variable {sides : Int} {fresh law : Law ℚ} {faces targets : List Int} {more : List (List Int)} {n m l : Nat}

theorem expect_rerolled {g : List Int → List Int → ℚ} {v : List Int → ℚ}
    (h : ∀ faces', faces'.length = faces.length → ∀ l ≥ m, fresh.expect l (g faces') = v faces')
    (hl : m + faces.length ≤ l) :
    fresh.expect l (fun stream =>
      g (rerolled targets faces stream).1 (rerolled targets faces stream).2) =
        fresh.redrawn targets faces v := by
  induction faces generalizing g v l with
  | nil => exact h [] rfl l hl
  | cons face faces ih =>
    rw [List.length_cons] at hl
    unfold rerolled redrawn
    split
    · obtain ⟨l, rfl⟩ : ∃ k, l = k + 1 := ⟨l - 1, by omega⟩
      rw [expect]
      refine congrArg List.sum (List.map_congr_left fun f _ => congrArg _ ?_)
      exact ih (g := fun rest => g (f.1 :: rest))
        (fun rest hrest => h _ (by simp [hrest])) (by omega)
    · exact ih (g := fun rest => g (face :: rest))
        (fun rest hrest => h _ (by simp [hrest])) (by omega)

theorem Certain.expect_rerollings (h : fresh.Certain) (v : List Int → ℚ)
    (hl : more.length * faces.length ≤ l) :
    fresh.expect l (fun stream => v (rerollings more faces stream).1) =
      fresh.settled more faces v := by
  induction more generalizing faces l with
  | nil => exact h.expect_const l (v faces)
  | cons targets more ih =>
    rw [List.length_cons, Nat.succ_mul] at hl
    refine expect_rerolled (g := fun faces stream => v (rerollings more faces stream).1)
      (fun faces' hlength l' hl' => ih ?_) hl
    rwa [hlength]

theorem sum_zipWith_reroll (hf : fresh.map (·.1) = law.map (·.1)) (targets : List Int) (hit : ℚ)
    (e : Int → ℚ) :
    ((List.zipWith (fun f g => (f.1, (if targets.contains f.1 then 0 else g.2) + hit * f.2))
      fresh law).map fun f => f.2 * e f.1).sum =
        (law.map fun f => f.2 * if targets.contains f.1 then 0 else e f.1).sum +
          hit * (fresh.map fun f => f.2 * e f.1).sum := by
  induction fresh generalizing law with
  | nil =>
    rw [List.map_eq_nil_iff.mp hf.symm]
    simp
  | cons f fresh ih =>
    cases law with
    | nil => cases hf
    | cons g law =>
      obtain ⟨hface, hf⟩ := List.cons.inj hf
      simp only [List.zipWith_cons_cons, List.map_cons, List.sum_cons, ih hf, hface]
      split
      · ring
      · ring

theorem sum_reroll (hf : fresh.map (·.1) = law.map (·.1)) (targets : List Int) (e : Int → ℚ) :
    ((Law.reroll fresh law targets false).map fun f => f.2 * e f.1).sum =
      (law.map fun f => f.2 * if targets.contains f.1
        then (fresh.map fun f => f.2 * e f.1).sum else e f.1).sum := by
  have hsplit (a : ℚ) : (law.map fun f => f.2 * if targets.contains f.1 then a else e f.1).sum =
      (law.map fun f => f.2 * if targets.contains f.1 then 0 else e f.1).sum +
        law.chance targets.contains * a := by
    have hite := law.sum_ite targets.contains a 0
    rw [mul_zero, add_zero] at hite
    rw [← hite, ← List.sum_map_add]
    refine congrArg List.sum (List.map_congr_left fun f _ => ?_)
    split
    · ring
    · ring
  rw [hsplit]
  exact sum_zipWith_reroll hf targets _ e

theorem Certain.reroll (h : fresh.Certain) (hl : law.Certain)
    (hf : fresh.map (·.1) = law.map (·.1)) (targets : List Int) :
    (Law.reroll fresh law targets false).Certain := by
  have hsum := sum_reroll hf targets fun _ => 1
  simp only [mul_one] at hsum
  rw [show (fresh.map (·.2)).sum = 1 from h] at hsum
  simp only [ite_self, mul_one] at hsum
  exact hsum.trans hl

/-- Dice that are rerolled once show faces by the law of one die that is. -/
theorem expect_redrawn (hf : fresh.map (·.1) = law.map (·.1)) (targets : List Int) (n : Nat)
    (v : List Int → ℚ) :
    law.expect n (fun faces => fresh.redrawn targets faces v) =
      (Law.reroll fresh law targets false).expect n v := by
  induction n generalizing v with
  | zero => rfl
  | succ n ih =>
    -- what the first die shows after its reroll does not depend on the others
    have hdie (f : Int × ℚ) : law.expect n (fun faces => fresh.redrawn targets (f.1 :: faces) v) =
        if targets.contains f.1 then (fresh.map fun f => f.2 *
            (Law.reroll fresh law targets false).expect n fun faces => v (f.1 :: faces)).sum
        else (Law.reroll fresh law targets false).expect n fun faces => v (f.1 :: faces) := by
      unfold redrawn
      split
      · rw [expect_sum]
        simp only [expect_mul, ih]
      · exact ih _
    rw [expect, expect, sum_reroll hf targets fun face =>
      (Law.reroll fresh law targets false).expect n fun faces => v (face :: faces)]
    simp only [hdie]

/-- The law of a die after rerolls one after another. -/
def afterRerolls (fresh : Law ℚ) (rerolls : List (List Int)) (law : Law ℚ) : Law ℚ :=
  rerolls.foldl (fun law targets => Law.reroll fresh law targets false) law

theorem Certain.afterRerolls (h : fresh.Certain) (hf : fresh.Full sides) (hc : law.Certain)
    (hl : law.Full sides) (rerolls : List (List Int)) :
    (fresh.afterRerolls rerolls law).Certain := by
  induction rerolls generalizing law with
  | nil => exact hc
  | cons targets rerolls ih =>
    exact ih (h.reroll hc (hf.faces.trans hl.faces.symm) targets) (hf.reroll hl targets)

theorem Full.expect_settled (hf : fresh.Full sides) (hl : law.Full sides)
    (rerolls : List (List Int)) (n : Nat) (v : List Int → ℚ) :
    law.expect n (fun faces => fresh.settled rerolls faces v) =
      (fresh.afterRerolls rerolls law).expect n v := by
  induction rerolls generalizing law with
  | nil => rfl
  | cons targets rerolls ih =>
    exact (expect_redrawn (hf.faces.trans hl.faces.symm) targets n _).trans
      (ih (hf.reroll hl targets))

theorem expect_append (n m : Nat) (g : List Int → List Int → ℚ) :
    law.expect (n + m) (fun faces => g (faces.take n) (faces.drop n)) =
      law.expect n fun faces => law.expect m (g faces) := by
  induction n generalizing g with
  | zero => rw [Nat.zero_add]; rfl
  | succ n ih =>
    rw [Nat.succ_add, expect, expect]
    refine congrArg List.sum (List.map_congr_left fun f _ => congrArg _ ?_)
    exact ih fun faces => g (f.1 :: faces)

end Law

def Pool.rerolls (p : Pool) : List (List Int) :=
  (p.operations.filter (·.kind = .reroll)).map (·.operand.values)

theorem Pool.length_rerolls (p : Pool) :
    p.rerolls.length = p.operations.countP (·.kind = .reroll) := by
  rw [rerolls, List.length_map, List.countP_eq_length_filter]

namespace Law

theorem ofPool_eq_afterRerolls {p : Pool} (hs : 1 ≤ p.sides)
    (h : ∀ op ∈ p.operations, op.recursive = false) :
    (ofPool p : Law ℚ) = (uniform p.sides : Law ℚ).afterRerolls p.rerolls (uniform p.sides) := by
  rw [ofPool_eq_foldl hs h, afterRerolls, Pool.rerolls, List.foldl_map, List.foldl_filter]
  refine List.foldl_ext _ _ _ fun law op hop => ?_
  simp [h op hop]

theorem certain_ofPool {p : Pool} (hs : 1 ≤ p.sides)
    (h : ∀ op ∈ p.operations, op.recursive = false) : (ofPool p : Law ℚ).Certain := by
  rw [ofPool_eq_afterRerolls hs h]
  exact (certain_uniform hs).afterRerolls (full_uniform hs) (certain_uniform hs) (full_uniform hs) _

/-- The dice that a stream of faces leaves after the rerolls of a pool show faces by its law. -/
theorem expect_ofPool {p : Pool} (hs : 1 ≤ p.sides)
    (h : ∀ op ∈ p.operations, op.recursive = false) (n : Nat) (v : List Int → ℚ) :
    (ofPool p : Law ℚ).expect n v = (uniform p.sides : Law ℚ).expect (n * (1 + p.rerolls.length))
      fun stream => v (rerollings p.rerolls (stream.take n) (stream.drop n)).1 := by
  have hu := full_uniform hs
  rw [ofPool_eq_afterRerolls hs h, ← hu.expect_settled hu, Nat.mul_add, Nat.mul_one,
    expect_append n (n * p.rerolls.length) fun faces rest => v (rerollings p.rerolls faces rest).1]
  refine expect_congr fun faces hlength _ => ?_
  rw [(certain_uniform hs).expect_rerollings v]
  rw [hlength, Nat.mul_comm]

end Law

end DiceTower

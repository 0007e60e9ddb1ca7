import DiceTower.Odds.Chance
import DiceTower.Proofs.Number.Rounding

/-! Rationals rounded to whole numbers and to two places. Rounding keeps the order, and a number that
needs no rounding stays what it is. -/

namespace DiceTower.Chance

open Number

def roundQuotient (n : Int) (den : Nat) : Int :=
  if n < 0 then -(roundDiv n.natAbs den : Int) else roundDiv n.natAbs den

theorem roundRat_eq (x : ℚ) : roundRat x = roundQuotient x.num x.den := rfl

theorem roundQuotient_mono {m n : Int} {den : Nat} (h : m ≤ n) (hd : 0 < den) :
    roundQuotient m den ≤ roundQuotient n den := by
  unfold roundQuotient
  by_cases hm : m < 0
  · by_cases hn : n < 0
    · have hle := roundDiv_mono (show n.natAbs ≤ m.natAbs by omega) hd
      rw [if_pos hm, if_pos hn]
      omega
    · rw [if_pos hm, if_neg hn]
      omega
  · have hle := roundDiv_mono (show m.natAbs ≤ n.natAbs by omega) hd
    rw [if_neg hm, if_neg (by omega)]
    omega

theorem roundDiv_mul_mul (n den : Nat) {k : Nat} (hk : 0 < k) :
    roundDiv (n * k) (den * k) = roundDiv n den := by
  have hless : 2 * (n % den * k) < den * k ↔ 2 * (n % den) < den := by
    rw [← Nat.mul_assoc, Nat.mul_lt_mul_right hk]
  have hmore : den * k < 2 * (n % den * k) ↔ den < 2 * (n % den) := by
    rw [← Nat.mul_assoc, Nat.mul_lt_mul_right hk]
  unfold roundDiv
  rw [Nat.mul_div_mul_right _ _ hk, Nat.mul_mod_mul_right]
  simp only [hless, hmore]

theorem roundQuotient_mul_mul (n : Int) (den : Nat) {k : Nat} (hk : 0 < k) :
    roundQuotient (n * k) (den * k) = roundQuotient n den := by
  have hsign : n * k < 0 ↔ n < 0 := by
    have hk' : (0 : Int) < k := by exact_mod_cast hk
    constructor
    · exact fun hlt => neg_of_mul_neg_left hlt hk'.le
    · exact fun hlt => mul_neg_of_neg_of_pos hlt hk'
  unfold roundQuotient
  rw [Int.natAbs_mul, Int.natAbs_natCast, roundDiv_mul_mul _ _ hk]
  simp only [hsign]

theorem roundRat_mono {x y : ℚ} (h : x ≤ y) : roundRat x ≤ roundRat y := by
  have hle := (Rat.le_iff ..).mp h
  rw [roundRat_eq, roundRat_eq, ← roundQuotient_mul_mul x.num x.den y.pos,
    ← roundQuotient_mul_mul y.num y.den x.pos, Nat.mul_comm y.den]
  exact roundQuotient_mono hle (Nat.mul_pos x.pos y.pos)

theorem roundRat_intCast (n : Int) : roundRat n = n := by
  have hround : roundDiv n.natAbs 1 = n.natAbs := by simpa using roundDiv_mul n.natAbs Nat.one_pos
  rw [roundRat_eq, Rat.num_intCast, Rat.den_intCast, roundQuotient, hround]
  split <;> omega

theorem hundredths_eq (x : ℚ) : hundredths x = (roundRat (x * 100) : ℚ) / 100 := rfl

theorem hundredths_mono {x y : ℚ} (h : x ≤ y) : hundredths x ≤ hundredths y := by
  rw [hundredths_eq, hundredths_eq]
  have hround := roundRat_mono (show x * 100 ≤ y * 100 by linarith)
  have hcast : (roundRat (x * 100) : ℚ) ≤ roundRat (y * 100) := by exact_mod_cast hround
  linarith

theorem hundredths_intCast (n : Int) : hundredths (n : ℚ) = n := by
  have hround := roundRat_intCast (n * 100)
  push_cast at hround
  rw [hundredths_eq, hround]
  push_cast
  ring

end DiceTower.Chance

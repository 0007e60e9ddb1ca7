import Mathlib.Algebra.Order.Field.Power
import Mathlib.Algebra.Order.Floor.Ring
import Mathlib.Data.Rat.Floor
import Mathlib.Tactic.Linarith
import Mathlib.Tactic.Positivity
import Mathlib.Tactic.Ring
import DiceTower.Number.Binary64

/-! Rounding a quotient to double precision keeps the order: each quotient goes to a whole number
times the same power of two as those of its size, and a power of two that is passed is never rounded
past. -/

namespace DiceTower.Number

theorem roundDiv_mono {n n' den : Nat} (h : n ≤ n') (hd : 0 < den) :
    roundDiv n den ≤ roundDiv n' den := by
  have hq : n / den ≤ n' / den := Nat.div_le_div_right h
  have hn := Nat.div_add_mod n den
  have hn' := Nat.div_add_mod n' den
  have hr := Nat.mod_lt n hd
  have hr' := Nat.mod_lt n' hd
  unfold roundDiv
  dsimp only
  rcases Nat.lt_or_ge (n / den) (n' / den) with hlt | hge
  · split <;> split <;> (try split) <;> (try split) <;> omega
  · have he : n / den = n' / den := by omega
    rw [he] at hn ⊢
    have hm : n % den ≤ n' % den := by omega
    split <;> split <;> (try split) <;> (try split) <;> omega

theorem le_roundDiv_of_mul_le {n den k : Nat} (hd : 0 < den) (h : k * den ≤ n) :
    k ≤ roundDiv n den := by
  simpa [roundDiv_mul k hd] using roundDiv_mono h hd

theorem roundDiv_le_of_le_mul {n den k : Nat} (hd : 0 < den) (h : n ≤ k * den) :
    roundDiv n den ≤ k := by
  simpa [roundDiv_mul k hd] using roundDiv_mono h hd

theorem cast_twoTo (n : Nat) : ((twoTo n : Nat) : ℚ) = 2 ^ n := by
  show ((Nat.pow 2 n : Nat) : ℚ) = 2 ^ n
  simp

theorem twoTo_pos (n : Nat) : 0 < twoTo n := Nat.two_pow_pos n

theorem zpow_eq_twoTo_div (e : Int) : (2 : ℚ) ^ e = twoTo e.toNat / twoTo (-e).toNat := by
  rw [cast_twoTo, cast_twoTo]
  rcases Int.le_total 0 e with h | h
  · obtain ⟨n, rfl⟩ := Int.eq_ofNat_of_zero_le h
    simp
  · obtain ⟨n, hn⟩ := Int.eq_ofNat_of_zero_le (show 0 ≤ -e by omega)
    obtain rfl : e = -n := by omega
    simp

theorem mul_twoTo_le_iff {num den k : Nat} (hd : 0 < den) (e : Int) :
    k * (den * twoTo e.toNat) ≤ num * twoTo (-e).toNat ↔ (k : ℚ) * 2 ^ e ≤ (num : ℚ) / den := by
  have hd' : (0 : ℚ) < den := by exact_mod_cast hd
  have ht : (0 : ℚ) < twoTo (-e).toNat := by exact_mod_cast twoTo_pos _
  rw [zpow_eq_twoTo_div, ← mul_div_assoc, div_le_div_iff₀ ht hd', ← Nat.cast_le (α := ℚ)]
  push_cast
  constructor <;> intro h <;> linarith

theorem le_mul_twoTo_iff {num den k : Nat} (hd : 0 < den) (e : Int) :
    num * twoTo (-e).toNat ≤ k * (den * twoTo e.toNat) ↔ (num : ℚ) / den ≤ (k : ℚ) * 2 ^ e := by
  have hd' : (0 : ℚ) < den := by exact_mod_cast hd
  have ht : (0 : ℚ) < twoTo (-e).toNat := by exact_mod_cast twoTo_pos _
  rw [zpow_eq_twoTo_div, ← mul_div_assoc, div_le_div_iff₀ hd' ht, ← Nat.cast_le (α := ℚ)]
  push_cast
  constructor <;> intro h <;> linarith

theorem two_zpow_pos (e : Int) : (0 : ℚ) < 2 ^ e := zpow_pos (by norm_num) e

theorem two_zpow_le {e e' : Int} (h : e ≤ e') : (2 : ℚ) ^ e ≤ 2 ^ e' :=
  zpow_le_zpow_right₀ (by norm_num) h

theorem cast_pow_mul_zpow (n : Nat) (e : Int) : ((2 ^ n : Nat) : ℚ) * 2 ^ e = 2 ^ (n + e) := by
  rw [Nat.cast_pow, Nat.cast_ofNat, ← zpow_natCast, ← zpow_add₀ (by norm_num)]

/-- The place of the first binary digit of a quotient. -/
def sizeOf (num den : Nat) : Int :=
  let k : Int := (Nat.log2 num : Int) - Nat.log2 den
  if num * twoTo (-k).toNat < den * twoTo k.toNat then k - 1 else k

def exponentAt (s : Int) : Int := max (s - 52) (-1074)

def unitsIn (num den : Nat) (e : Int) : Nat :=
  roundDiv (num * twoTo (-e).toNat) (den * twoTo e.toNat)

def valueOf (p : Nat × Int) : ℚ := p.1 * 2 ^ p.2

theorem nearestParts_eq {num den : Nat} (hn : 0 < num) :
    nearestParts num den =
      if unitsIn num den (exponentAt (sizeOf num den)) = twoTo 53
        then (twoTo 52, exponentAt (sizeOf num den) + 1)
        else (unitsIn num den (exponentAt (sizeOf num den)), exponentAt (sizeOf num den)) := by
  simp only [nearestParts, if_neg (show ¬ num = 0 by omega), decide_eq_true_eq]
  rfl

theorem sizeOf_bounds {num den : Nat} (hn : 0 < num) (hd : 0 < den) :
    (2 : ℚ) ^ sizeOf num den ≤ (num : ℚ) / den ∧ (num : ℚ) / den < 2 ^ (sizeOf num den + 1) := by
  have hd' : (0 : ℚ) < den := by exact_mod_cast hd
  have hnl : (2 : ℚ) ^ (Nat.log2 num) ≤ num := by
    exact_mod_cast Nat.log2_self_le (by omega)
  have hnu : (num : ℚ) < 2 ^ (Nat.log2 num + 1) := by exact_mod_cast Nat.lt_log2_self
  have hdl : (2 : ℚ) ^ (Nat.log2 den) ≤ den := by
    exact_mod_cast Nat.log2_self_le (by omega)
  have hdu : (den : ℚ) < 2 ^ (Nat.log2 den + 1) := by exact_mod_cast Nat.lt_log2_self
  unfold sizeOf
  dsimp only
  generalize hk : (Nat.log2 num : Int) - Nat.log2 den = k
  have hlow : (2 : ℚ) ^ (k - 1) ≤ (num : ℚ) / den := by
    rw [le_div_iff₀ hd']
    calc (2 : ℚ) ^ (k - 1) * den ≤ 2 ^ (k - 1) * 2 ^ (Nat.log2 den + 1) :=
          mul_le_mul_of_nonneg_left hdu.le (two_zpow_pos _).le
      _ = 2 ^ (Nat.log2 num) := by
          rw [← zpow_natCast, ← zpow_natCast, ← zpow_add₀ (by norm_num)]
          congr 1
          push_cast
          omega
      _ ≤ num := hnl
  have hhigh : (num : ℚ) / den < 2 ^ (k + 1) := by
    rw [div_lt_iff₀ hd']
    calc (num : ℚ) < 2 ^ (Nat.log2 num + 1) := hnu
      _ = 2 ^ (k + 1) * 2 ^ (Nat.log2 den) := by
          rw [← zpow_natCast, ← zpow_natCast, ← zpow_add₀ (by norm_num)]
          congr 1
          push_cast
          omega
      _ ≤ 2 ^ (k + 1) * den := mul_le_mul_of_nonneg_left hdl (two_zpow_pos _).le
  have hcut := @mul_twoTo_le_iff num den 1 hd k
  rw [Nat.one_mul, Nat.cast_one, one_mul] at hcut
  split
  · next hb =>
    refine ⟨hlow, ?_⟩
    rw [show k - 1 + 1 = k by omega]
    exact not_le.mp fun h => absurd (hcut.mpr h) (by omega)
  · next hb => exact ⟨hcut.mp (by omega), hhigh⟩

theorem exponent_nearestParts {num den : Nat} (hn : 0 < num) :
    (nearestParts num den).2 ≤ exponentAt (sizeOf num den) + 1 := by
  rw [nearestParts_eq hn]
  split
  · exact le_refl _
  · exact Int.le_of_lt (Int.lt_succ _)

theorem valueOf_nearestParts {num den : Nat} (hn : 0 < num) :
    valueOf (nearestParts num den) =
      unitsIn num den (exponentAt (sizeOf num den)) * 2 ^ exponentAt (sizeOf num den) := by
  rw [nearestParts_eq hn]
  split
  · next h =>
    rw [h, valueOf, cast_twoTo, cast_twoTo, zpow_add₀ (by norm_num), zpow_one]
    ring
  · rfl

theorem le_unitsIn {num den k : Nat} (hd : 0 < den) {e : Int}
    (h : (k : ℚ) * 2 ^ e ≤ (num : ℚ) / den) : k ≤ unitsIn num den e :=
  le_roundDiv_of_mul_le (Nat.mul_pos hd (twoTo_pos _)) ((mul_twoTo_le_iff hd e).mpr h)

theorem unitsIn_le {num den k : Nat} (hd : 0 < den) {e : Int}
    (h : (num : ℚ) / den ≤ (k : ℚ) * 2 ^ e) : unitsIn num den e ≤ k :=
  roundDiv_le_of_le_mul (Nat.mul_pos hd (twoTo_pos _)) ((le_mul_twoTo_iff hd e).mpr h)

theorem sizeOf_mono {num num' den : Nat} (hn : 0 < num) (hd : 0 < den) (h : num ≤ num') :
    sizeOf num den ≤ sizeOf num' den := by
  have hlow := (sizeOf_bounds hn hd).1
  have hhigh := (sizeOf_bounds (hn.trans_le h) hd).2
  have hle : (num : ℚ) / den ≤ (num' : ℚ) / den := by gcongr
  have hlt := (zpow_lt_zpow_iff_right₀ (by norm_num)).mp ((hlow.trans hle).trans_lt hhigh)
  omega

theorem valueOf_nearestParts_mono {num num' den : Nat} (hd : 0 < den) (h : num ≤ num') :
    valueOf (nearestParts num den) ≤ valueOf (nearestParts num' den) := by
  rcases Nat.eq_zero_or_pos num with rfl | hn
  · have h0 : valueOf (nearestParts 0 den) = 0 := by simp [nearestParts, valueOf]
    rw [h0]
    exact mul_nonneg (Nat.cast_nonneg _) (two_zpow_pos _).le
  have hn' := hn.trans_le h
  have hs := sizeOf_mono hn hd h
  obtain ⟨_, hhigh⟩ := sizeOf_bounds hn hd
  obtain ⟨hlow, _⟩ := sizeOf_bounds hn' hd
  rw [valueOf_nearestParts hn, valueOf_nearestParts hn']
  generalize sizeOf num den = s at hs hhigh ⊢
  generalize sizeOf num' den = s' at hs hlow ⊢
  have he : exponentAt s ≤ exponentAt s' := by unfold exponentAt; omega
  rcases he.eq_or_lt with he | he
  · rw [← he]
    refine mul_le_mul_of_nonneg_right ?_ (two_zpow_pos _).le
    exact_mod_cast roundDiv_mono (Nat.mul_le_mul_right _ h) (Nat.mul_pos hd (twoTo_pos _))
  · have hupper : unitsIn num den (exponentAt s) ≤ 2 ^ 53 := by
      refine unitsIn_le hd (hhigh.le.trans ?_)
      rw [cast_pow_mul_zpow]
      exact two_zpow_le (by unfold exponentAt; omega)
    have hlower : 2 ^ 52 ≤ unitsIn num' den (exponentAt s') := by
      refine le_unitsIn hd (le_trans ?_ hlow)
      rw [cast_pow_mul_zpow]
      exact two_zpow_le (by unfold exponentAt at *; omega)
    calc (unitsIn num den (exponentAt s) : ℚ) * 2 ^ exponentAt s
        ≤ (2 ^ 53 : Nat) * 2 ^ exponentAt s :=
          mul_le_mul_of_nonneg_right (by exact_mod_cast hupper) (two_zpow_pos _).le
      _ = 2 ^ (((53 : Nat) : Int) + exponentAt s) := cast_pow_mul_zpow ..
      _ ≤ 2 ^ (((52 : Nat) : Int) + exponentAt s') := two_zpow_le (by omega)
      _ = (2 ^ 52 : Nat) * 2 ^ exponentAt s' := (cast_pow_mul_zpow ..).symm
      _ ≤ unitsIn num' den (exponentAt s') * 2 ^ exponentAt s' :=
          mul_le_mul_of_nonneg_right (by exact_mod_cast hlower) (two_zpow_pos _).le

theorem sizeOf_le_of_lt {n den : Nat} (hn : 0 < n) (hd : 0 < den) (h : n < 2 ^ 53) :
    sizeOf n den ≤ 52 := by
  have hlow := (sizeOf_bounds hn hd).1
  have hle : (n : ℚ) / den ≤ n := div_le_self (Nat.cast_nonneg _) (by exact_mod_cast hd)
  have hlt : (n : ℚ) < 2 ^ (53 : Int) := by exact_mod_cast h
  have := (zpow_lt_zpow_iff_right₀ (by norm_num)).mp ((hlow.trans hle).trans_lt hlt)
  omega

theorem exponent_le_of_lt {n den : Nat} (hd : 0 < den) (h : n < 2 ^ 53) :
    (nearestParts n den).2 ≤ 971 := by
  rcases Nat.eq_zero_or_pos n with rfl | hn
  · simp [nearestParts]
  · have hs := sizeOf_le_of_lt hn hd h
    refine (exponent_nearestParts hn).trans ?_
    unfold exponentAt
    omega

theorem valueOf_nearestParts_one {n : Nat} (h : n < 2 ^ 53) : valueOf (nearestParts n 1) = n := by
  rcases Nat.eq_zero_or_pos n with rfl | hn
  · simp [nearestParts, valueOf]
  have hs := sizeOf_le_of_lt hn Nat.one_pos h
  have he : exponentAt (sizeOf n 1) ≤ 0 := by unfold exponentAt; omega
  rw [valueOf_nearestParts hn]
  generalize exponentAt (sizeOf n 1) = e at he
  obtain ⟨k, hk⟩ := Int.eq_ofNat_of_zero_le (show 0 ≤ -e by omega)
  obtain rfl : e = -k := by omega
  have hu : unitsIn n 1 (-k) = n * twoTo k := by
    have hz : (-(k : Int)).toNat = 0 := by omega
    rw [unitsIn, hz, Int.neg_neg, Int.toNat_natCast]
    simpa [twoTo] using roundDiv_mul (n * twoTo k) Nat.one_pos
  rw [hu]
  push_cast
  rw [cast_twoTo, zpow_neg, zpow_natCast, mul_assoc, mul_inv_cancel₀ (by positivity), mul_one]

def signedValue (a : Int) (k : Nat) : ℚ :=
  if a < 0 then -valueOf (nearestParts a.natAbs k) else valueOf (nearestParts a.natAbs k)

theorem valueOf_nonneg (p : Nat × Int) : 0 ≤ valueOf p :=
  mul_nonneg (Nat.cast_nonneg _) (two_zpow_pos _).le

theorem signedValue_mono {a b : Int} {k : Nat} (hk : 0 < k) (h : a ≤ b) :
    signedValue a k ≤ signedValue b k := by
  unfold signedValue
  by_cases ha : a < 0
  · rw [if_pos ha]
    by_cases hb : b < 0
    · rw [if_pos hb]
      exact neg_le_neg (valueOf_nearestParts_mono hk (by omega))
    · rw [if_neg hb]
      exact (neg_nonpos.mpr (valueOf_nonneg _)).trans (valueOf_nonneg _)
  · rw [if_neg ha, if_neg (by omega)]
    exact valueOf_nearestParts_mono hk (by omega)

theorem signedValue_one {n : Int} (h : n.natAbs < 2 ^ 53) : signedValue n 1 = n := by
  unfold signedValue
  rw [valueOf_nearestParts_one h, Nat.cast_natAbs]
  split
  · next hn => rw [abs_of_neg hn]; push_cast; ring
  · next hn => rw [abs_of_nonneg (by omega)]

theorem floor?_finite (negative : Bool) (p : Nat × Int) :
    (Binary64.finite negative p.1 p.2).floor? =
      some ⌊if negative then -valueOf p else valueOf p⌋ := by
  have hf (n : Int) : n * twoTo p.2.toNat / twoTo (-p.2).toNat = ⌊(n : ℚ) * 2 ^ p.2⌋ := by
    rw [zpow_eq_twoTo_div, ← mul_div_assoc, ← Rat.floor_intCast_div_natCast]
    push_cast
    rfl
  cases negative
  · simpa [Binary64.floor?, valueOf] using hf p.1
  · simpa [Binary64.floor?, valueOf] using hf (-p.1)

/-- A quotient by a positive number is the value of the nearest number rounded down, unless it is
out of range. -/
theorem floorDiv?_eq {k : Int} (hk : 0 < k) (a : Int) :
    floorDiv? a k =
      if (nearestParts a.natAbs k.natAbs).2 ≤ 971 then some ⌊signedValue a k.natAbs⌋ else none := by
  have hneg : ((decide (a < 0)) != (decide (k < 0))) = decide (a < 0) := by
    simp [show ¬ k < 0 by omega]
  simp only [floorDiv?, hneg, floor?_finite, decide_eq_true_eq]
  rfl

theorem floorDiv?_mono {a b k m n : Int} (hk : 0 < k) (h : a ≤ b) (ha : floorDiv? a k = some m)
    (hb : floorDiv? b k = some n) : m ≤ n := by
  rw [floorDiv?_eq hk] at ha hb
  split at ha
  · split at hb
    · rw [← Option.some.inj ha, ← Option.some.inj hb]
      exact Int.floor_le_floor (signedValue_mono (by omega) h)
    · cases hb
  · cases ha

theorem floorDiv?_ne_none {n k : Int} (hk : 0 < k) (h : n.natAbs < 2 ^ 53) :
    floorDiv? n k ≠ none := by
  rw [floorDiv?_eq hk, if_pos (exponent_le_of_lt (by omega) h)]
  exact Option.some_ne_none _

theorem floorDiv?_one {n : Int} (h : n.natAbs < 2 ^ 53) : floorDiv? n 1 = some n := by
  rw [floorDiv?_eq Int.one_pos, Int.natAbs_one, if_pos (exponent_le_of_lt Nat.one_pos h),
    signedValue_one h, Int.floor_intCast]

/-- The least quotient that is rounded beyond the range of double precision. -/
def beyond : Nat := (2 ^ 54 - 1) * twoTo 970

theorem le_roundDiv_iff_of_even {k num den : Nat} (hd : 0 < den) (hk : k % 2 = 0) :
    k ≤ roundDiv num den ↔ 2 * (k * den) ≤ 2 * num + den := by
  constructor
  · intro h
    have hle := Nat.mul_le_mul_right den h
    have hround := roundDiv_le num hd
    omega
  · intro h
    by_contra hlt
    have hround := le_roundDiv num hd
    have hk1 : k = roundDiv num den + 1 := by
      by_contra hne
      have hle := Nat.mul_le_mul_right den (show roundDiv num den + 2 ≤ k by omega)
      rw [Nat.add_mul] at hle
      omega
    have hhalf : 2 * num = 2 * (roundDiv num den * den) + den := by
      rw [hk1, Nat.add_mul] at h
      omega
    have hq : num / den = roundDiv num den := by
      rw [Nat.div_eq_iff hd]
      omega
    have hr : 2 * (num % den) = den := by
      have hmod := Nat.div_add_mod num den
      rw [hq, Nat.mul_comm] at hmod
      omega
    have hodd : num / den % 2 = 1 := by omega
    have hup : roundDiv num den = num / den + 1 := by
      simp [roundDiv, hr, hodd]
    omega

theorem twoTo_add (n k : Nat) : twoTo (n + k) = 2 ^ n * twoTo k := Nat.pow_add 2 n k

theorem lt_twoTo_mul_of_sizeOf_lt {num den k : Nat} (hn : 0 < num) (hd : 0 < den)
    (h : sizeOf num den < k) : num < twoTo k * den := by
  have hdq : (0 : ℚ) < den := by exact_mod_cast hd
  have hhigh := (sizeOf_bounds hn hd).2
  rw [div_lt_iff₀ hdq] at hhigh
  have hlt : (num : ℚ) < twoTo k * den := by
    refine hhigh.trans_le (mul_le_mul_of_nonneg_right ?_ hdq.le)
    rw [cast_twoTo, ← zpow_natCast]
    exact two_zpow_le (by omega)
  exact_mod_cast hlt

theorem twoTo_mul_le_of_le_sizeOf {num den k : Nat} (hn : 0 < num) (hd : 0 < den)
    (h : k ≤ sizeOf num den) : twoTo k * den ≤ num := by
  have hdq : (0 : ℚ) < den := by exact_mod_cast hd
  have hlow := (sizeOf_bounds hn hd).1
  rw [le_div_iff₀ hdq] at hlow
  have hle : (twoTo k * den : ℚ) ≤ num := by
    refine le_trans (mul_le_mul_of_nonneg_right ?_ hdq.le) hlow
    rw [cast_twoTo, ← zpow_natCast]
    exact two_zpow_le h
  exact_mod_cast hle

theorem exponent_nearestParts_le_iff_of_sizeOf {num den : Nat} (hn : 0 < num) (hd : 0 < den)
    (hs : sizeOf num den = 1023) : (nearestParts num den).2 ≤ 971 ↔ num < beyond * den := by
  have hhigh := (sizeOf_bounds hn hd).2
  have hexp := @nearestParts_eq num den hn
  have he : exponentAt 1023 = 971 := by decide
  rw [hs] at hhigh hexp
  rw [he] at hexp
  have hu : unitsIn num den 971 = roundDiv num (den * twoTo 971) := by
    show roundDiv (num * twoTo 0) (den * twoTo 971) = _
    rw [show twoTo 0 = 1 from rfl, Nat.mul_one]
  have hround := @le_roundDiv_iff_of_even (2 ^ 53) num _ (Nat.mul_pos hd (twoTo_pos 971)) (by decide)
  rw [← hu, twoTo_add 1 970, Nat.mul_left_comm den] at hround
  have hupper : unitsIn num den 971 ≤ 2 ^ 53 := by
    refine unitsIn_le hd (hhigh.le.trans ?_)
    rw [cast_pow_mul_zpow]
    exact two_zpow_le (by omega)
  have hbound : num < beyond * den ↔ ¬ 2 ^ 53 ≤ unitsIn num den 971 := by
    rw [hround, beyond, Nat.mul_assoc, Nat.mul_comm den]
    omega
  have h53 : twoTo 53 = 2 ^ 53 := rfl
  rw [hbound, hexp, h53]
  split
  · next hm => simp [hm]
  · next hm => exact ⟨fun _ => by omega, fun _ => le_refl _⟩

/-- Quotients have a nearest number in double precision up to a bound. -/
theorem exponent_nearestParts_le_iff {num den : Nat} (hd : 0 < den) :
    (nearestParts num den).2 ≤ 971 ↔ num < beyond * den := by
  have hpos := Nat.mul_pos (twoTo_pos 970) hd
  rcases Nat.eq_zero_or_pos num with rfl | hn
  · simp only [nearestParts, if_true, beyond, Nat.mul_assoc]
    omega
  rcases Int.lt_trichotomy (sizeOf num den) 1023 with hlt | hs | hgt
  · have hle : (nearestParts num den).2 ≤ 971 := by
      have := @exponent_nearestParts num den hn
      rw [exponentAt] at this
      omega
    have hnum := lt_twoTo_mul_of_sizeOf_lt (k := 1023) hn hd (by omega)
    rw [twoTo_add 53 970, Nat.mul_assoc] at hnum
    refine ⟨fun _ => ?_, fun _ => hle⟩
    rw [beyond, Nat.mul_assoc]
    omega
  · exact exponent_nearestParts_le_iff_of_sizeOf hn hd hs
  · have hge : ¬ (nearestParts num den).2 ≤ 971 := by
      rw [@nearestParts_eq num den hn, exponentAt]
      split
      · show ¬ max (sizeOf num den - 52) (-1074) + 1 ≤ 971
        omega
      · show ¬ max (sizeOf num den - 52) (-1074) ≤ 971
        omega
    have hnum := twoTo_mul_le_of_le_sizeOf (k := 1024) hn hd (by omega)
    rw [twoTo_add 54 970, Nat.mul_assoc] at hnum
    refine ⟨fun h => absurd h hge, fun h => ?_⟩
    rw [beyond, Nat.mul_assoc] at h
    omega

theorem nearest?_eq_none_iff {negative : Bool} {num den : Nat} (hd : 0 < den) :
    nearest? negative num den = none ↔ beyond * den ≤ num := by
  have h := @exponent_nearestParts_le_iff num den hd
  unfold nearest?
  dsimp only
  split
  · next he => simpa using h.mp he
  · next he => simpa using fun hlt => he (h.mpr hlt)

end DiceTower.Number

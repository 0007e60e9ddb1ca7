/-! Double precision numbers as exact quantities. Every finite one is a whole number times a power
of two; every quotient of whole numbers has a nearest one, of two equally near the even one. -/

namespace DiceTower.Number

def twoTo (n : Nat) : Nat := Nat.pow 2 n

def tenTo (n : Nat) : Nat := Nat.pow 10 n

/-- What a double precision number denotes: a finite one is `mantissa * 2 ^ exponent`, signed. -/
inductive Binary64 where
  | nan
  | infinity (negative : Bool)
  | finite (negative : Bool) (mantissa : Nat) (exponent : Int)
  deriving DecidableEq

namespace Binary64

def ofBits (bits : Nat) : Binary64 :=
  let negative := bits / twoTo 63 % 2 == 1
  let biased : Nat := bits / twoTo 52 % twoTo 11
  let fraction : Nat := bits % twoTo 52
  if biased = 2047 then
    if fraction = 0 then .infinity negative else .nan
  else if biased = 0 then .finite negative fraction (-1074)
  else .finite negative (twoTo 52 + fraction) ((biased : Int) - 1075)

def ofFloat (x : Float) : Binary64 := ofBits x.toBits.toNat

/-- The bits of a normalised mantissa, or of one below `2 ^ 52` at the least exponent. -/
def bitsOf (negative : Bool) (mantissa : Nat) (exponent : Int) : Nat :=
  let sign := if negative then twoTo 63 else 0
  if mantissa < twoTo 52 then sign + mantissa
  else sign + (exponent + 1075).toNat * twoTo 52 + (mantissa - twoTo 52)

end Binary64

/-- The quotient rounded to a whole number, a half to the even neighbour. -/
def roundDiv (num den : Nat) : Nat :=
  let q := num / den
  let r := num % den
  if 2 * r < den then q else if den < 2 * r then q + 1 else q + q % 2

theorem roundDiv_mul (n : Nat) {d : Nat} (h : 0 < d) : roundDiv (n * d) d = n := by
  simp [roundDiv, Nat.mul_div_cancel _ h, h]

theorem roundDiv_le (num : Nat) {den : Nat} (h : 0 < den) :
    2 * (roundDiv num den * den) ≤ 2 * num + den := by
  have hq := Nat.div_add_mod num den
  have hr := Nat.mod_lt num h
  unfold roundDiv
  dsimp only
  rw [Nat.mul_comm] at hq
  split
  · omega
  · split
    · rw [Nat.add_mul]; omega
    · rcases Nat.mod_two_eq_zero_or_one (num / den) with h2 | h2 <;> rw [h2, Nat.add_mul] <;> omega

theorem le_roundDiv (num : Nat) {den : Nat} (h : 0 < den) :
    2 * num ≤ 2 * (roundDiv num den * den) + den := by
  have hq := Nat.div_add_mod num den
  have hr := Nat.mod_lt num h
  unfold roundDiv
  dsimp only
  rw [Nat.mul_comm] at hq
  split
  · omega
  · split
    · rw [Nat.add_mul]; omega
    · rcases Nat.mod_two_eq_zero_or_one (num / den) with h2 | h2 <;> rw [h2, Nat.add_mul] <;> omega

/-- The mantissa and exponent of the number nearest to a quotient; the mantissa of a quotient of any
size, so that the exponent may be too large for a double. -/
def nearestParts (num den : Nat) : Nat × Int :=
  if num = 0 then (0, -1074) else
    -- the quotient lies between 2 ^ (size - 1) and 2 ^ (size + 1)
    let size : Int := (Nat.log2 num : Int) - Nat.log2 den
    let scale (e : Int) : Nat := roundDiv (num * twoTo (-e).toNat) (den * twoTo e.toNat)
    let below (e : Int) : Bool := num * twoTo (-e).toNat < den * twoTo e.toNat
    let size := if below size then size - 1 else size
    let e := max (size - 52) (-1074)
    let m := scale e
    if m = twoTo 53 then (twoTo 52, e + 1) else (m, e)

/-- The number nearest to a quotient, unless it is beyond the range of double precision. -/
def nearest? (negative : Bool) (num den : Nat) : Option Float :=
  let (m, e) := nearestParts num den
  if e ≤ 971 then some (Float.ofBits (UInt64.ofNat (Binary64.bitsOf negative m e))) else none

def ofInt? (n : Int) : Option Float := nearest? (n < 0) n.natAbs 1

namespace Binary64

def floor? : Binary64 → Option Int
  | .finite negative m e =>
    let n : Int := if negative then -m else m
    some (n * twoTo e.toNat / twoTo (-e).toNat)
  | _ => none

def round? : Binary64 → Option Int
  | .finite negative m e =>
    let n := roundDiv (m * twoTo e.toNat) (twoTo (-e).toNat)
    some (if negative then -n else n)
  | _ => none

end Binary64

/-- The quotient of two whole numbers as a double, then rounded down. Quotients beyond the range of
double precision have none. -/
def floorDiv? (a : Int) (b : Int) : Option Int :=
  let negative := (a < 0) != (b < 0)
  let (m, e) := nearestParts a.natAbs b.natAbs
  if e ≤ 971 then (Binary64.finite negative m e).floor? else none

end DiceTower.Number

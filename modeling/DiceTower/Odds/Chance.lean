import DiceTower.Number.Binary64
import DiceTower.Number.Places

/-! The numbers that chances and averages are computed with. Estimates are shown in double precision;
the same definitions over the rationals give exact values. -/

namespace DiceTower

/-- What estimates need of their numbers. -/
class Chance (α : Type) extends Add α, Sub α, Mul α, Div α where
  ofInt : Int → α
  /-- The number that a double stands for. -/
  ofReal? : Float → Option α
  /-- Whether a whole number is within range. -/
  holds : Int → Bool
  pow : α → Nat → α
  less : α → α → Bool
  /-- The nearest whole number, a half going to the even neighbour. -/
  nearest : α → Int
  /-- The value rounded to two places, a half going to the even neighbour. -/
  hundredths : α → α

namespace Chance

open Number

/-- The double nearest to a whole number, an infinity for one out of range. -/
def doubleOf (n : Int) : Float := (ofInt? n).getD (if n < 0 then -1.0 / 0.0 else 1.0 / 0.0)

instance instFloat : Chance Float where
  add := Float.add
  sub := Float.sub
  mul := Float.mul
  div := Float.div
  ofInt := doubleOf
  ofReal? := some
  holds n := (ofInt? n).isSome
  pow x n := Float.pow x (Float.ofNat n)
  less x y := x < y
  nearest x := (Binary64.ofFloat x).round?.getD 0
  hundredths := roundTo 2

def roundRat (x : Rat) : Int :=
  let n : Int := roundDiv x.num.natAbs x.den
  if x.num < 0 then -n else n

/-- The value of a finite double. -/
def exactly? (x : Float) : Option Rat :=
  match Binary64.ofFloat x with
  | .finite negative m e =>
    let n : Int := if negative then -m else m
    some (Rat.div (Rat.ofInt (n * twoTo e.toNat)) (Rat.ofInt (twoTo (-e).toNat)))
  | _ => none

instance instRat : Chance Rat where
  add := Rat.add
  sub := Rat.sub
  mul := Rat.mul
  div := Rat.div
  ofInt := Rat.ofInt
  ofReal? := exactly?
  holds _ := true
  pow := Rat.pow
  less := Rat.blt
  nearest := roundRat
  hundredths x := Rat.div (Rat.ofInt (roundRat (Rat.mul x 100))) 100

variable {α : Type} [Chance α]

def zero : α := ofInt 0

def one : α := ofInt 1

def total (xs : List α) : α := xs.foldl (· + ·) zero

def lesser (x y : α) : α := if less y x then y else x

end Chance

end DiceTower

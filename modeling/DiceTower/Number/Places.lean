import DiceTower.Number.Binary64
import DiceTower.Number.Digits

/-! Decimal texts of fixed size: a given number of places, or a given number of leading digits. Both
round the exact value, a half to the even neighbour. -/

namespace DiceTower.Number

def pointed (places n : Nat) : List Char :=
  let ds := paddedDigits (places + 1) n
  if places = 0 then ds else ds.take (ds.length - places) ++ '.' :: ds.drop (ds.length - places)

def fixed (places : Nat) (x : Float) : String :=
  String.ofList <| match Binary64.ofFloat x with
  | .nan => "nan".toList
  | .infinity negative => signed negative "inf".toList
  | .finite negative m e =>
    signed negative (pointed places (roundDiv (m * twoTo e.toNat * tenTo places) (twoTo (-e).toNat)))

def roundTo (places : Nat) (x : Float) : Float :=
  match Binary64.ofFloat x with
  | .finite negative m e =>
    let n := roundDiv (m * twoTo e.toNat * tenTo places) (twoTo (-e).toNat)
    (nearest? negative n (tenTo places)).getD x
  | _ => x

/-- The place of the first digit of a positive quotient: it is below `10 ^ magnitude` and not below
`10 ^ (magnitude - 1)`. -/
def magnitude (num den : Nat) : Int :=
  if den ≤ num then (digits (num / den)).length
  else 1 - (digits ((den + num - 1) / num - 1)).length

/-- The number of units of `10 ^ place` in a quotient, rounded. -/
def unitsAt (num den : Nat) (place : Int) : Nat :=
  roundDiv (num * tenTo (-place).toNat) (den * tenTo place.toNat)

def exponentText (e : Int) : List Char :=
  'e' :: (if e < 0 then '-' else '+') :: paddedDigits 2 e.natAbs

def withoutTrailingZeros (ds : List Char) : List Char :=
  (ds.reverse.dropWhile (· == '0')).reverse

/-- A first digit and the rest, with a point between them unless there is no rest. -/
def leadingPoint : List Char → List Char
  | d :: e :: ds => d :: '.' :: e :: ds
  | ds => ds

/-- A number with at most six leading digits and no zeros at the end: positional from `0.0001` to
below a million, else with an exponent. -/
def general (x : Float) : String :=
  String.ofList <| match Binary64.ofFloat x with
  | .nan => "nan".toList
  | .infinity negative => signed negative "inf".toList
  | .finite negative m e =>
    if m = 0 then signed negative ['0'] else
      let num := m * twoTo e.toNat
      let den := twoTo (-e).toNat
      let size := magnitude num den
      let size := if unitsAt num den (size - 6) = tenTo 6 then size + 1 else size
      let units := unitsAt num den (size - 6)
      if -4 < size ∧ size ≤ 6 then
        let text := pointed (6 - size).toNat (unitsAt num den (size - 6))
        let text := if size < 6 then withoutTrailingZeros text else text
        signed negative (if text.getLast? = some '.' then text.dropLast else text)
      else
        signed negative
          (leadingPoint (withoutTrailingZeros (digits units)) ++ exponentText (size - 1))

end DiceTower.Number

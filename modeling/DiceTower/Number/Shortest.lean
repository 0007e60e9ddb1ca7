import DiceTower.Number.Places

/-! The shortest decimal text of a double precision number: the fewest digits that read back as the
number, and of those the nearest to it. -/

namespace DiceTower.Number

/-- A value with the bounds of what reads back as it, all over one denominator. -/
structure Reading where
  value : Nat
  low : Nat
  high : Nat
  den : Nat
  /-- Whether the bounds themselves read back. -/
  closed : Bool

/-- Half a unit of the last place lies on each side; below a power of two it is half as much. -/
def Reading.ofParts (mantissa : Nat) (exponent : Int) : Reading :=
  let unit := twoTo exponent.toNat
  let value := 4 * mantissa * unit
  let below := if mantissa = twoTo 52 ∧ -1074 < exponent then unit else 2 * unit
  ⟨value, value - below, value + 2 * unit, 4 * twoTo (-exponent).toNat, mantissa % 2 == 0⟩

/-- Whether so many units of `10 ^ place` read back. -/
def Reading.admits (r : Reading) (place : Int) (units : Nat) : Bool :=
  let at' := units * tenTo place.toNat * r.den
  let scale := tenTo (-place).toNat
  if r.closed then r.low * scale ≤ at' && at' ≤ r.high * scale
  else r.low * scale < at' && at' < r.high * scale

/-- The neighbour on the grid of `10 ^ place` that reads back, the nearer if both do. -/
def Reading.on? (r : Reading) (place : Int) : Option Nat :=
  let num := r.value * tenTo (-place).toNat
  let den := r.den * tenTo place.toNat
  let down := num / den
  match r.admits place down, r.admits place (down + 1) with
  | true, true => some (roundDiv num den)
  | true, false => some down
  | false, true => some (down + 1)
  | false, false => none

/-- The first grid with a number that reads back, from one digit on. -/
def Reading.search (r : Reading) (size : Int) : Nat → Nat × Int
  | 0 => (roundDiv (r.value * tenTo (17 - size).toNat) (r.den * tenTo (size - 17).toNat), size - 17)
  | left + 1 =>
    let place := size - (17 - left : Nat)
    match r.on? place with
    | some units => (units, place)
    | none => r.search size left

/-- The digits of the shortest text, without zeros at the end, and the place of the point in it. -/
def shortestDigits (mantissa : Nat) (exponent : Int) : List Char × Int :=
  let r := Reading.ofParts mantissa exponent
  let (units, place) := r.search (magnitude r.value r.den) 17
  let ds := digits units
  (withoutTrailingZeros ds, place + ds.length)

/-- A number in the fewest digits that read back. It is positional from `0.0001` to below `10 ^ 16`,
and then has a place after the point even if that is zero. -/
def shortest (x : Float) : String :=
  String.ofList <| match Binary64.ofFloat x with
  | .nan => "nan".toList
  | .infinity negative => signed negative "inf".toList
  | .finite negative m e =>
    if m = 0 then signed negative ['0', '.', '0'] else
      let (ds, point) := shortestDigits m e
      signed negative <|
        if -4 < point ∧ point ≤ 0 then
          '0' :: '.' :: (List.replicate (-point).toNat '0' ++ ds)
        else if 0 < point ∧ point ≤ 16 then
          let n := point.toNat
          if ds.length ≤ n then ds ++ List.replicate (n - ds.length) '0' ++ ['.', '0']
          else ds.take n ++ '.' :: ds.drop n
        else leadingPoint ds ++ exponentText (point - 1)

end DiceTower.Number

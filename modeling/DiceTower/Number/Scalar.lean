import DiceTower.Fault
import DiceTower.Number.Decimal

/-! Numbers that scale a total. Whole numbers stay whole as long as they can; a quotient and a product
with a fraction are taken in double precision and then rounded down. -/

namespace DiceTower

/-- A number that keeps whether it was given as a whole one. -/
inductive Scalar where
  | whole (n : Int)
  | real (x : Float)

namespace Scalar

open Number

def toFloat : Scalar → Except Fault Float
  | whole n => match ofInt? n with
    | some x => .ok x
    | none => .error .wholeTooLarge
  | real x => .ok x

def isZero : Scalar → Bool
  | whole n => n == 0
  | real x => x == 0.0

def isNegative : Scalar → Bool
  | whole n => n < 0
  | real x => x < 0.0

def floor (x : Float) : Except Fault Int :=
  match Binary64.ofFloat x with
  | .nan => .error .notANumber
  | .infinity _ => .error .infinite
  | v => .ok (v.floor?.getD 0)

/-- The whole number that a text denotes. Digits are counted before the text after them is looked at,
which may be white space only. -/
def ofText (s : String) : Except Fault Int :=
  match leadingWhole? s.toList with
  | none => .error (.notNumeral s)
  | some (negative, ds, rest) =>
    if digitLimit < ds.length then .error (.tooManyDigits ds.length)
    else if !rest.all Text.isSpace then .error (.notNumeral s)
    else .ok (if negative then -(Text.numeral ds : Int) else Text.numeral ds)

def multiply (n : Int) : Scalar → Except Fault Int
  | whole k => .ok (n * k)
  | real x => do
    let y ← (whole n).toFloat
    floor (y * x)

def divide (n : Int) (s : Scalar) : Except Fault Int :=
  if s.isZero then .error .divisionByZero
  else match s with
    | whole k => match floorDiv? n k with
      | some q => .ok q
      | none => .error .quotientTooLarge
    | real x => do
      let y ← (whole n).toFloat
      floor (y / x)

def text (s : Scalar) : Except Fault String := s.toFloat.map general

end Scalar

end DiceTower

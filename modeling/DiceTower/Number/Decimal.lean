import DiceTower.Number.Binary64
import DiceTower.Text.Blank
import DiceTower.Text.Digit

/-! Reading numbers from text. -/

namespace DiceTower.Number

open DiceTower.Text

/-- The double nearest to a whole number of units of a power of ten, or an infinity beyond the range.
Powers far outside the range are settled without being computed. -/
def ofDecimal (negative : Bool) (units : Nat) (place : Int) : Float :=
  let limit : Float := if negative then -1.0 / 0.0 else 1.0 / 0.0
  let size := place + (Nat.toDigits 10 units).length
  if units = 0 ∨ size < -400 then (nearest? negative 0 1).getD limit
  else if 400 < size then limit
  else (nearest? negative (units * tenTo place.toNat) (tenTo (-place).toNat)).getD limit

def asciiDigits (cs : List Char) : List Char × List Char := cs.span Char.isDigit

def splitSign : List Char → Bool × List Char
  | '-' :: cs => (true, cs)
  | '+' :: cs => (false, cs)
  | cs => (false, cs)

def exponentOf? : List Char → Option Int
  | [] => some 0
  | e :: cs =>
    if e = 'e' ∨ e = 'E' then
      let (negative, ds) := splitSign cs
      if ds.isEmpty || !ds.all Char.isDigit then none
      else some (if negative then -(numeral ds : Int) else numeral ds)
    else none

/-- A decimal number: digits, a point and further digits, an exponent. One of the runs of digits
around the point may be missing. -/
def ofDecimalText? (cs : List Char) : Option Float :=
  let (negative, cs) := splitSign cs
  let (front, cs) := asciiDigits cs
  let (back, cs) := match cs with
    | '.' :: cs => asciiDigits cs
    | cs => ([], cs)
  if front.isEmpty && back.isEmpty then none
  else (exponentOf? cs).map fun e =>
    ofDecimal negative (numeral (front ++ back)) (e - (back.length : Int))

/-- Digits that may be grouped by single low lines between them. -/
def ungrouped? : List Char → Option (List Char)
  | [] => none
  | [c] => if isDigit c then some [c] else none
  | c :: '_' :: cs => if isDigit c then (ungrouped? cs).map (c :: ·) else none
  | c :: cs => if isDigit c then (ungrouped? cs).map (c :: ·) else none

/-- The sign and the digits, of any script, that a text begins with after white space, and what
follows them. The digits and the low lines are taken as far as they go. -/
def leadingWhole? (cs : List Char) : Option (Bool × List Char × List Char) :=
  let (negative, cs) := splitSign (cs.dropWhile isSpace)
  let (run, rest) := cs.span fun c => isDigit c || c == '_'
  (ungrouped? run).map (negative, ·, rest)

end DiceTower.Number

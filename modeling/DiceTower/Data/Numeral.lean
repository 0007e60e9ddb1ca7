import DiceTower.Number.Decimal
import DiceTower.Number.Digits
import DiceTower.Text.Letter

/-! Numbers as texts in data give them: with white space around them, with zeros to spare before and
after, and with single low lines between the digits. -/

namespace DiceTower.Numeral

open Number Text

def hasDoubleLine : List Char → Bool
  | '_' :: '_' :: _ => true
  | _ :: cs => hasDoubleLine cs
  | [] => false

/-- The text without its low lines, which neither begin nor end it nor follow one another. -/
def withoutLines? (cs : List Char) : Option (List Char) :=
  if !cs.contains '_' || cs.head? == some '_' || cs.getLast? == some '_' || hasDoubleLine cs then none
  else some (cs.filter (· != '_'))

def isSignificant (c : Char) : Bool := '1' ≤ c && c ≤ '9'

/-- What follows the zeros that a number begins with and the low lines among them. Before a point and
at the end of the text the last character of this run stays. -/
def afterZeros? (last : Char) : List Char → Option (List Char)
  | [] => some [last]
  | c :: cs =>
    if c = '0' ∨ c = '_' then afterZeros? c cs
    else if c = '.' then some (last :: c :: cs)
    else if isSignificant c ∨ c = '-' then some (c :: cs)
    else none

/-- A number without the zeros that it begins with. -/
def withoutZeros? : List Char → Option (List Char)
  | '0' :: cs => afterZeros? '0' cs
  | c :: cs => if isSignificant c then some (c :: cs) else none
  | [] => none

/-- A number without a point and the zeros after it, if it has nothing but zeros there. -/
def withoutFraction (cs : List Char) : List Char :=
  let (front, back) := cs.span (· != '.')
  match back with
  | _ :: '0' :: ds => if ds.all (· == '0') then front else cs
  | _ => cs

/-- The value of digits, if they are not too many and do not begin with a zero to spare. -/
def canonical? (ds : List Char) : Option Nat :=
  if ds.isEmpty || !ds.all Char.isDigit || (ds.head? == some '0' && 1 < ds.length) then none
  else if digitLimit < ds.length then none
  else some (numeral ds)

def signed? : List Char → Option Int
  | '-' :: ds => (canonical? ds).map fun n => -(n : Int)
  | ds => (canonical? ds).map fun n => (n : Int)

def whole? (s : String) : Option Int := do
  let (negative, cs) := splitSign (trimBy isSpace s.toList)
  let cs := withoutFraction (← withoutZeros? cs)
  signed? (signed negative ((withoutLines? cs).getD cs))

/-- A number in decimal notation, an infinity, or what is no number. -/
def plainReal? (cs : List Char) : Option Float :=
  let (negative, word) := splitSign cs
  let word := String.ofList (lower word)
  if word = "inf" ∨ word = "infinity" then some (if negative then -1.0 / 0.0 else 1.0 / 0.0)
  else if word = "nan" then some (0.0 / 0.0)
  else ofDecimalText? cs

def real? (s : String) : Option Float :=
  match plainReal? (trimBy isSpace s.toList) with
  | some x => some x
  | none => (withoutLines? s.toList).bind plainReal?

end DiceTower.Numeral

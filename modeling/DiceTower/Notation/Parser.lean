import DiceTower.Notation.Flaw
import DiceTower.Notation.Clamp
import DiceTower.Text.Letter

/-! Reading a pool from notation. A text is a number, or dice followed by tokens; the tokens are read
one by one, and the first flaw in the order of the text is the one found. -/

namespace DiceTower

open DiceTower.Text

/-- The longest run of digits that is read as a number. -/
def maxDigits : Nat := 9

def readNumber (digits : List Char) : Except Flaw Int :=
  if maxDigits < digits.length then .error .numberTooLarge else .ok (numeral digits)

def checkModifier (limits : Limits) (modifier : Int) : Except Flaw Unit :=
  if limits.modifier < modifier.natAbs then .error (.modifierTooLarge limits.modifier) else .ok ()

/-- The operations and the sum of the flat numbers that follow the dice. -/
structure Tail where
  operations : List Operation := []
  modifier : Int := 0
  deriving DecidableEq, Repr

namespace Tail

def push (tail : Tail) (kind : OperationKind) (n : Int) (recursive : Bool := false) : Tail :=
  { tail with operations := tail.operations ++ [⟨kind, .one n, recursive⟩] }

def addNumber (tail : Tail) (t : Token) (sign : Int) : Except Flaw Tail :=
  if t.digits = [] then .error (.missingNumber t.mark)
  else (readNumber t.digits).map fun n => { tail with modifier := tail.modifier + sign * n }

/-- How many dice to keep or drop, one unless it is said. -/
def addSelection (tail : Tail) (t : Token) (kind : OperationKind) : Except Flaw Tail := do
  let n ← if t.digits = [] then .ok 1 else readNumber t.digits
  if n < 1 then .error (.missingCount t.mark) else .ok (tail.push kind n)

def readFace (t : Token) (sides : Int) : Except Flaw Int := do
  let n ← readNumber t.digits
  if 1 ≤ n ∧ n ≤ sides then .ok n else .error (.faceOutside t sides)

def addReroll (tail : Tail) (t : Token) (sides : Int) (recursive : Bool) : Except Flaw Tail :=
  if t.digits = [] then .error (.missingFace t.mark)
  else (readFace t sides).map fun n => tail.push .reroll n recursive

/-- From which face on dice explode, the highest unless it is said. -/
def addExplosion (tail : Tail) (t : Token) (sides : Int) : Except Flaw Tail :=
  if tail.operations.any (·.kind = .explode) then .error .secondExplosion
  else if t.digits = [] then .ok (tail.push .explode sides)
  else (readFace t sides).map fun n => tail.push .explode n

def addClamp (tail : Tail) (t : Token) (sides : Int) (kind : OperationKind) : Except Flaw Tail :=
  if t.digits = [] then .error (.missingValue t.mark)
  else (readFace t sides).map fun n => tail.push kind n

def add (sides : Int) (tail : Tail) (t : Token) : Except Flaw Tail :=
  match t.mark with
  | .plus => tail.addNumber t 1
  | .minus => tail.addNumber t (-1)
  | .keepHighest => tail.addSelection t .keepHighest
  | .keepLowest => tail.addSelection t .keepLowest
  | .dropHighest => tail.addSelection t .dropHighest
  | .dropLowest => tail.addSelection t .dropLowest
  | .reroll => tail.addReroll t sides false
  | .rerollUntil => tail.addReroll t sides true
  | .explode => tail.addExplosion t sides
  | .minimum => tail.addClamp t sides .minimum
  | .maximum => tail.addClamp t sides .maximum

def readFrom (sides : Int) (tail : Tail) (cs : List Char) : Except Flaw Tail :=
  if cs = [] then .ok tail
  else match _h : Token.read? cs with
    | none => .error (.unknownOperation cs)
    | some (t, rest) => do
      let tail ← tail.add sides t
      tail.readFrom sides rest
termination_by cs.length
decreasing_by exact Token.length_lt_of_read? _h

def read (sides : Int) (cs : List Char) : Except Flaw Tail := do
  let tail ← readFrom sides {} cs
  if clampsAgree? tail.operations = some false then .error .clampsCrossed else .ok tail

end Tail

def flatNumber? (cs : List Char) : Option (Bool × List Char) :=
  let (negative, ds) := match cs with
    | '-' :: ds => (true, ds)
    | '+' :: ds => (false, ds)
    | ds => (false, ds)
  if ds ≠ [] ∧ ds.all isDigit then some (negative, ds) else none

namespace Pool

def parseFlat (limits : Limits) (negative : Bool) (digits : List Char) : Except Flaw Pool := do
  let n ← readNumber digits
  let p := flat (if negative then -n else n)
  checkModifier limits p.modifier
  .ok p

def checkSize (limits : Limits) (count sides : Int) : Except Flaw Unit :=
  if count < 1 then .error .noDice
  else if limits.dice < count then .error (.tooManyDice limits.dice)
  else if sides < 1 then .error .noSides
  else if limits.sides < sides then .error (.tooManySides limits.sides)
  else .ok ()

/-- One die is meant when no count is given. -/
def parseDice (limits : Limits) (countDigits sidesDigits rest : List Char) : Except Flaw Pool := do
  if sidesDigits = [] then .error .missingSides
  let count ← if countDigits = [] then .ok 1 else readNumber countDigits
  let sides ← readNumber sidesDigits
  checkSize limits count sides
  let tail ← Tail.read sides rest
  checkModifier limits tail.modifier
  .ok ⟨count, sides, tail.modifier, tail.operations⟩

/-- The pool that a text without white space and capitals denotes. -/
def parse (limits : Limits) (cs : List Char) : Except Flaw Pool :=
  match flatNumber? cs with
  | some (negative, digits) => parseFlat limits negative digits
  | none =>
    match cs.dropWhile isDigit with
    | 'd' :: rest =>
      parseDice limits (cs.takeWhile isDigit) (rest.takeWhile isDigit) (rest.dropWhile isDigit)
    | _ => .error .notDice

end Pool

theorem readNumber_eq_ok_iff {digits : List Char} {n : Int} :
    readNumber digits = .ok n ↔ digits.length ≤ maxDigits ∧ n = numeral digits := by
  unfold readNumber
  split
  · simp; omega
  · simp only [Except.ok.injEq]
    constructor
    · rintro rfl; exact ⟨by omega, rfl⟩
    · rintro ⟨_, rfl⟩; rfl

theorem Tail.readFrom_nil (sides : Int) (tail : Tail) : tail.readFrom sides [] = .ok tail := by
  unfold Tail.readFrom
  rfl

end DiceTower

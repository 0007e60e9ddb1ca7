/-! Whole numbers as decimal text. -/

namespace DiceTower.Number

def digits (n : Nat) : List Char := Nat.toDigits 10 n

/-- The most digits that a whole number is read from. -/
def digitLimit : Nat := 4300

/-- The digits of a number, led by zeros up to the given width. -/
def paddedDigits (width n : Nat) : List Char :=
  let ds := digits n
  List.replicate (width - ds.length) '0' ++ ds

def signed (negative : Bool) (cs : List Char) : List Char := if negative then '-' :: cs else cs

def whole (n : Int) : List Char := signed (n < 0) (digits n.natAbs)

def withSign (n : Int) : List Char := if n < 0 then whole n else '+' :: whole n

/-- A number to be added to what stands before it: nothing is written for zero. -/
def asBonus (n : Int) : List Char := if n = 0 then [] else withSign n

def wholeText (n : Int) : String := String.ofList (whole n)

def wholeList (ns : List Int) : String := "[" ++ ", ".intercalate (ns.map wholeText) ++ "]"

end DiceTower.Number

/-! What dice notation denotes: pools of like dice with operations on them, and formulas made of
labelled pools. -/

namespace DiceTower

inductive OperationKind where
  | keepHighest
  | keepLowest
  | dropHighest
  | dropLowest
  | reroll
  | explode
  | minimum
  | maximum
  deriving DecidableEq, Repr

namespace OperationKind

def all : List OperationKind :=
  [keepHighest, keepLowest, dropHighest, dropLowest, reroll, explode, minimum, maximum]

def name : OperationKind → String
  | keepHighest => "keep_highest"
  | keepLowest => "keep_lowest"
  | dropHighest => "drop_highest"
  | dropLowest => "drop_lowest"
  | reroll => "reroll"
  | explode => "explode"
  | minimum => "minimum"
  | maximum => "maximum"

/-- Operations that leave some dice of the pool out. -/
def selects : OperationKind → Bool
  | keepHighest | keepLowest | dropHighest | dropLowest => true
  | _ => false

def clamps : OperationKind → Bool
  | minimum | maximum => true
  | _ => false

end OperationKind

/-- What an operation is applied with: one number, or several faces. -/
inductive Operand where
  | one (n : Int)
  | many (ns : List Int)
  deriving DecidableEq, Repr

namespace Operand

def values : Operand → List Int
  | one n => [n]
  | many ns => ns

def single? : Operand → Option Int
  | one n => some n
  | many _ => none

end Operand

/-- One operation on a pool after it is rolled. A recursive reroll goes on until the face is none of
those to reroll. -/
structure Operation where
  kind : OperationKind
  operand : Operand
  recursive : Bool := false
  deriving DecidableEq, Repr

/-- A pool of `count` dice, with operations in the order of the text and a number added at the end. -/
structure Pool where
  count : Int
  sides : Int
  modifier : Int := 0
  operations : List Operation := []
  deriving DecidableEq, Repr

namespace Pool

/-- One die of one side without operations stands for a number. -/
def isFlat (p : Pool) : Bool := p.count == 1 && p.sides == 1 && p.operations.isEmpty

def has (p : Pool) (kind : OperationKind) : Bool := p.operations.any (·.kind == kind)

def hasAdvantage (p : Pool) : Bool := p.count == 2 && p.sides == 20 && p.has .keepHighest

def hasDisadvantage (p : Pool) : Bool := p.count == 2 && p.sides == 20 && p.has .keepLowest

def flat (n : Int) : Pool := ⟨1, 1, n - 1, []⟩

end Pool

/-- A pool with the text it was given in. -/
structure Term where
  text : String
  pool : Pool
  deriving DecidableEq, Repr

/-- A term, perhaps with a label that says what it is rolled for. -/
structure Segment where
  label : Option String := none
  term : Term
  deriving DecidableEq, Repr

structure Formula where
  text : String
  segments : List Segment
  deriving DecidableEq, Repr

namespace Formula

def labels (f : Formula) : List (Option String) := f.segments.map (·.label)

def givenLabels (f : Formula) : List String :=
  f.labels.filterMap fun label => label.filter (· ≠ "")

end Formula

structure Limits where
  dice : Int := 100
  sides : Int := 1000
  modifier : Int := 10000
  deriving DecidableEq, Repr

end DiceTower

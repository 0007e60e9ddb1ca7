import DiceTower.Notation.Form
import DiceTower.Number.Sum

/-! Dice on the table: what each of them showed, and what the operations of the pool did. -/

namespace DiceTower

structure Die where
  index : Nat
  sides : Int
  /-- The face that counts. -/
  value : Int
  /-- The face that shows. -/
  natural : Int
  /-- The faces shown, in order. -/
  faces : List Int
  rerolled : Bool := false
  /-- Whether an explosion added the die. -/
  exploded : Bool := false
  dropped : Bool := false
  clamped : Bool := false
  deriving DecidableEq, Repr

/-- An operation with the faces that counted before and after it. -/
structure AppliedOperation where
  kind : OperationKind
  operand : Operand
  before : List Int
  after : List Int
  /-- The dice that it changed. -/
  affected : List Nat
  description : String
  deriving DecidableEq, Repr

structure Roll where
  term : Term
  label : Option String := none
  dice : List Die
  operations : List AppliedOperation := []
  notes : List String := []
  deriving DecidableEq, Repr

def Die.ofFace (index : Nat) (sides face : Int) : Die :=
  { index, sides, value := face, natural := face, faces := [face] }

def Die.firstFace (d : Die) : Int := d.faces.headD d.natural

namespace Roll

def kept (r : Roll) : List Die := r.dice.filter (!·.dropped)

def total (r : Roll) : Int := Number.sum (r.kept.map (·.value)) + r.term.pool.modifier

end Roll

def Operation.description (op : Operation) : String :=
  let operand := String.ofList op.operand.written
  match op.kind with
  | .reroll => "Rerolled " ++ ", ".intercalate (op.operand.values.map Number.wholeText) ++
      if op.recursive then " until it stopped" else " once"
  | .explode => "Exploded on " ++ operand ++ "+"
  | .minimum => "Minimum " ++ operand ++ " per die"
  | .maximum => "Maximum " ++ operand ++ " per die"
  | .keepHighest => "Keep highest " ++ operand
  | .keepLowest => "Keep lowest " ++ operand
  | .dropHighest => "Drop highest " ++ operand
  | .dropLowest => "Drop lowest " ++ operand

def Die.toData (d : Die) : Data := .record [
  ("index", .int d.index), ("sides", .int d.sides), ("value", .int d.value),
  ("natural", .int d.natural), ("rolls", .ints d.faces), ("rerolled", .bool d.rerolled),
  ("exploded", .bool d.exploded), ("dropped", .bool d.dropped), ("clamped", .bool d.clamped)]

def AppliedOperation.toData (a : AppliedOperation) : Data := .record [
  ("type", .text a.kind.name), ("value", a.operand.toData), ("original_rolls", .ints a.before),
  ("final_rolls", .ints a.after), ("affected_indices", .ints (a.affected.map Int.ofNat)),
  ("description", .text a.description)]

def Roll.toData (r : Roll) : Data := .record [
  ("expression", r.term.toData), ("label", .option .text r.label),
  ("dice", .listing Die.toData r.dice), ("operations", .listing AppliedOperation.toData r.operations),
  ("modifier", .int r.term.pool.modifier), ("total", .int r.total), ("notes", .texts r.notes)]

end DiceTower

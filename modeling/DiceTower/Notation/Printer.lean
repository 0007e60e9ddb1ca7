import DiceTower.Notation.Mark
import DiceTower.Notation.Basic
import DiceTower.Number.Digits

/-! Dice notation for pools. A pool has one notation: operations in their order, then the number
added at the end. -/

namespace DiceTower

open Number

def OperationKind.mark (recursive : Bool) : OperationKind → Mark
  | keepHighest => .keepHighest
  | keepLowest => .keepLowest
  | dropHighest => .dropHighest
  | dropLowest => .dropLowest
  | reroll => if recursive then .rerollUntil else .reroll
  | explode => .explode
  | minimum => .minimum
  | maximum => .maximum

def Operand.written : Operand → List Char
  | one n => whole n
  | many ns => (wholeList ns).toList

/-- A reroll is written once for each face, and an explosion on the highest face without it. -/
def Operation.written (sides : Int) (op : Operation) : List Char :=
  let mark := (op.kind.mark op.recursive).chars
  match op.kind with
  | .reroll => op.operand.values.flatMap fun n => mark ++ whole n
  | .explode => if op.operand = .one sides then mark else mark ++ op.operand.written
  | _ => mark ++ op.operand.written

def Pool.written (p : Pool) : List Char :=
  if p.isFlat then whole (1 + p.modifier)
  else whole p.count ++ 'd' :: whole p.sides ++ p.operations.flatMap (·.written p.sides) ++
    asBonus p.modifier

def Pool.text (p : Pool) : String := String.ofList p.written

def Term.ofPool (p : Pool) : Term := ⟨p.text, p⟩

def advantagePool (modifier : Int) : Pool := ⟨2, 20, modifier, [⟨.keepHighest, .one 1, false⟩]⟩

def disadvantagePool (modifier : Int) : Pool := ⟨2, 20, modifier, [⟨.keepLowest, .one 1, false⟩]⟩

/-- A label that is empty is not written. -/
def Segment.written (s : Segment) : String :=
  match s.label with
  | some label => if label = "" then s.term.pool.text else label ++ ":" ++ s.term.pool.text
  | none => s.term.pool.text

def Formula.written (f : Formula) : String := ",".intercalate (f.segments.map (·.written))

def Formula.ofSegments (segments : List Segment) : Formula :=
  ⟨",".intercalate (segments.map (·.written)), segments⟩

end DiceTower

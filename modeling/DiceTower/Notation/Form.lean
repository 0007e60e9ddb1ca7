import DiceTower.Data.Encode
import DiceTower.Data.Form
import DiceTower.Notation.Printer

/-! Dice as records instead of notation. -/

namespace DiceTower

open Form

namespace Operand

def ofData : Data → Checked Operand
  | .list xs => (listOf whole (.list xs)).map many
  | d => (whole d).map one

end Operand

def Operation.ofData (d : Data) : Checked Operation :=
  (fields d).andThen fun fs => Operation.mk
    <$> required fs "type" (named OperationKind.all OperationKind.name)
    <*> required fs "value" Operand.ofData
    <*> field fs "recursive" flag false

def Pool.ofData (d : Data) : Checked Pool :=
  (fields d).andThen fun fs => Pool.mk
    <$> required fs "count" whole
    <*> required fs "sides" whole
    <*> field fs "modifier" whole 0
    <*> field fs "operations" (listOf Operation.ofData) []

def Term.ofData (d : Data) : Checked Term :=
  (fields d).andThen fun fs => Term.mk
    <$> required fs "expression" Form.text
    <*> required fs "parsed" Pool.ofData

def Segment.ofData (d : Data) : Checked Segment :=
  (fields d).andThen fun fs => Segment.mk
    <$> field fs "label" (optional Form.text) none
    <*> required fs "expression" Term.ofData

def Formula.ofData (d : Data) : Checked Formula :=
  (fields d).andThen fun fs => Formula.mk
    <$> required fs "full_expression" Form.text
    <*> required fs "expressions" (listOf Segment.ofData)

def Operand.toData : Operand → Data
  | one n => .int n
  | many ns => .ints ns

def Operation.toData (op : Operation) : Data := .record [
  ("type", .text op.kind.name), ("value", op.operand.toData), ("recursive", .bool op.recursive)]

def Pool.toData (p : Pool) : Data := .record [
  ("count", .int p.count), ("sides", .int p.sides), ("modifier", .int p.modifier),
  ("operations", .listing Operation.toData p.operations)]

def Term.toData (t : Term) : Data := .record [
  ("expression", .text t.text), ("parsed", t.pool.toData), ("notation", .text t.pool.text),
  ("is_flat", .bool t.pool.isFlat)]

def Segment.toData (s : Segment) : Data := .record [
  ("label", .option .text s.label), ("expression", s.term.toData)]

def Formula.toData (f : Formula) : Data := .record [
  ("full_expression", .text f.text), ("segments", .listing Segment.toData f.segments),
  ("notation", .text f.written), ("labels", .list (f.labels.map (.option .text)))]

end DiceTower

import DiceTower.Modifier.Basic
import DiceTower.Odds.Estimate
import DiceTower.Result.Item

/-! What is known of a roll before it is made. -/

namespace DiceTower

/-- A modifier that holds for a roll. -/
structure ActiveCondition where
  id : String
  name : String
  kind : ModifierKind
  description : String
  deriving DecidableEq, Repr

structure Preview (α : Type) where
  definitionId : String
  items : List Item
  conditions : List ActiveCondition
  /-- The range of the last segment. -/
  range : Range α
  /-- The range of each segment by its label. -/
  labelRanges : List (String × Range α)
  criticalRange : List Int
  failureRange : List Int
  notes : List String

def ActiveCondition.toData (c : ActiveCondition) : Data := .record [
  ("id", .text c.id), ("name", .text c.name), ("type", .text c.kind.name),
  ("description", .text c.description)]

def Preview.toData (p : Preview Float) : Data := .record [
  ("definition_id", .text p.definitionId), ("breakdown", .listing Item.toData p.items),
  ("conditions", .listing ActiveCondition.toData p.conditions),
  ("estimated_range", p.range.toData),
  ("label_ranges", .record (p.labelRanges.map fun (label, r) => (label, r.toData))),
  ("critical_range", .ints p.criticalRange), ("critical_failure_range", .ints p.failureRange),
  ("notes", .texts p.notes)]

end DiceTower

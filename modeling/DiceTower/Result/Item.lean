import DiceTower.Data.Encode
import DiceTower.Data.Form
import DiceTower.Number.Sum

/-! The lines of a result: the dice, numbers and circumstances that a total is made of. -/

namespace DiceTower

open Form

inductive ItemKind where
  | die
  | modifier
  | reroll
  | critical
  | condition
  deriving DecidableEq, Repr

namespace ItemKind

def all : List ItemKind := [die, modifier, reroll, critical, condition]

def name : ItemKind → String
  | die => "die"
  | modifier => "modifier"
  | reroll => "reroll"
  | critical => "critical"
  | condition => "condition"

end ItemKind

/-- One line. A line that is dropped is shown but does not count. -/
structure Item where
  kind : ItemKind
  label : String
  value : Int
  /-- The face that a die showed first. -/
  firstFace : Option Int := none
  sides : Option Int := none
  /-- What the line comes from. -/
  origin : Option String := none
  rerolled : Bool := false
  dropped : Bool := false
  exploded : Bool := false
  /-- The faces that a die showed, in order. -/
  faces : List Int := []
  /-- Whether the line is a number that stands alone in the notation. -/
  isNumber : Bool := false
  deriving DecidableEq, Repr

namespace Item

/-- A line that says something and counts for nothing. -/
def remark (label : String) : Item := { kind := .condition, label, value := 0 }

/-- The sum of the lines that count. -/
def counted (items : List Item) : Int :=
  Number.sum ((items.filter (!·.dropped)).map (·.value))

def ofData (d : Data) : Checked Item :=
  (fields d).andThen fun fs =>
    (fun kind label value (rest : Item) => { rest with kind, label, value })
      <$> required fs "type" (named ItemKind.all ItemKind.name)
      <*> required fs "label" text
      <*> required fs "value" whole
      <*> field fs "details" ofDetails (remark "")
where
  ofDetails (d : Data) : Checked Item :=
    (fields d).andThen fun fs => Item.mk .condition "" 0
      <$> field fs "original_roll" (optional whole) none
      <*> field fs "sides" (optional whole) none
      <*> field fs "source" (optional text) none
      <*> field fs "rerolled" flag false
      <*> field fs "dropped" flag false
      <*> field fs "exploded" flag false
      <*> field fs "rolls" (listOf whole) []
      <*> field fs "is_flat_number" flag false

/-- The details that say something. -/
def details (i : Item) : List (String × Data) :=
  given "original_roll" (i.firstFace.map .int) ++ given "sides" (i.sides.map .int) ++
    given "source" (i.origin.map .text) ++ holds "rerolled" i.rerolled ++
    holds "dropped" i.dropped ++ holds "exploded" i.exploded ++
    given "rolls" (if i.faces.isEmpty then none else some (.ints i.faces)) ++
    holds "is_flat_number" i.isNumber
where
  given (name : String) (d : Option Data) : List (String × Data) := d.toList.map fun d => (name, d)
  holds (name : String) (b : Bool) : List (String × Data) := if b then [(name, .bool true)] else []

def toData (i : Item) : Data := .record [
  ("type", .text i.kind.name), ("label", .text i.label), ("value", .int i.value),
  ("details", .record i.details)]

theorem counted_append (xs ys : List Item) : counted (xs ++ ys) = counted xs + counted ys := by
  rw [counted, List.filter_append, List.map_append, Number.sum_append]
  rfl

end Item

end DiceTower

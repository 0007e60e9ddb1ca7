import DiceTower.Notation.Form
import DiceTower.Number.Scalar
import DiceTower.Sheet.Context
import DiceTower.Sheet.RollType

/-! Modifiers: single effects on a roll, with where they come from and when they apply. -/

namespace DiceTower

open Form

inductive ModifierSource where
  | abilityScore
  | proficiency
  | expertise
  | item
  | spell
  | classFeature
  | feat
  | condition
  | homebrew
  | temporary
  deriving DecidableEq, Repr

namespace ModifierSource

def all : List ModifierSource :=
  [abilityScore, proficiency, expertise, item, spell, classFeature, feat, condition, homebrew,
    temporary]

def name : ModifierSource → String
  | abilityScore => "ability_score"
  | proficiency => "proficiency"
  | expertise => "expertise"
  | item => "item"
  | spell => "spell"
  | classFeature => "class_feature"
  | feat => "feat"
  | condition => "condition"
  | homebrew => "homebrew"
  | temporary => "temporary"

end ModifierSource

inductive ModifierKind where
  /-- A number added to the total. -/
  | flat
  /-- Dice rolled beside the others. -/
  | dice
  | advantage
  | disadvantage
  | reroll
  | minimum
  | maximum
  /-- The lowest natural roll that is a critical hit. -/
  | critRange
  | multiplier
  | divider
  /-- A face to count instead of the natural roll. -/
  | replaceDie
  /-- Further copies of an attack. -/
  | extraAttack
  deriving DecidableEq, Repr

namespace ModifierKind

def all : List ModifierKind :=
  [flat, dice, advantage, disadvantage, reroll, minimum, maximum, critRange, multiplier, divider,
    replaceDie, extraAttack]

def name : ModifierKind → String
  | flat => "flat"
  | dice => "dice"
  | advantage => "advantage"
  | disadvantage => "disadvantage"
  | reroll => "reroll"
  | minimum => "minimum"
  | maximum => "maximum"
  | critRange => "crit_range"
  | multiplier => "multiplier"
  | divider => "divider"
  | replaceDie => "replace_die"
  | extraAttack => "extra_attack"

def scales : ModifierKind → Bool
  | multiplier | divider => true
  | _ => false

/-- The operation on the dice that a kind stands for. -/
def operation? : ModifierKind → Option OperationKind
  | reroll => some .reroll
  | minimum => some .minimum
  | maximum => some .maximum
  | _ => none

end ModifierKind

inductive Timing where
  | beforeRoll
  | duringRoll
  | afterRoll
  | onDamage
  | onCritical
  | oncePerTurn
  | oncePerRest
  deriving DecidableEq, Repr

namespace Timing

def all : List Timing :=
  [beforeRoll, duringRoll, afterRoll, onDamage, onCritical, oncePerTurn, oncePerRest]

def name : Timing → String
  | beforeRoll => "before_roll"
  | duringRoll => "during_roll"
  | afterRoll => "after_roll"
  | onDamage => "on_damage"
  | onCritical => "on_critical"
  | oncePerTurn => "once_per_turn"
  | oncePerRest => "once_per_rest"

def isOnce : Timing → Bool
  | oncePerTurn | oncePerRest => true
  | _ => false

end Timing

inductive Amount where
  | whole (n : Int)
  | real (x : Float)
  | faces (ns : List Int)
  | text (s : String)
  | dice (t : Term)

namespace Amount

def ofData : Data → Checked Amount
  | .int n => .good (whole n)
  | .bool b => .good (whole (if b then 1 else 0))
  | .float x => .good (real x)
  | .text s => .good (text s)
  | .list xs => (listOf Form.whole (.list xs)).map faces
  | .record fs => (Term.ofData (.record fs)).map dice
  | .null => .bad []

def toData : Amount → Data
  | whole n => .int n
  | real x => .float x
  | faces ns => .ints ns
  | text s => .text s
  | dice t => t.toData

def whole? : Amount → Option Int
  | whole n => some n
  | _ => none

def scalar? : Amount → Option Scalar
  | whole n => some (.whole n)
  | real x => some (.real x)
  | _ => none

def listedFaces : Amount → List Int
  | faces ns => ns
  | whole n => [n]
  | _ => []

/-- The amount brought to a whole number, fractions cut off. -/
def truncated : Amount → Except Fault Int
  | whole n => .ok n
  | real x => do
    let n ← Scalar.floor x
    let back ← (Scalar.whole n).toFloat
    .ok (if n < 0 ∧ (back != x) then n + 1 else n)
  | text s => Scalar.ofText s
  | _ => .error .wrongKind

end Amount

/-- A test of the situation of a roll, which may fail with a text. -/
abbrev Condition := Context → Except String Bool

structure Modifier where
  id : String
  name : String
  description : String := ""
  source : ModifierSource
  kind : ModifierKind
  amount : Amount := .whole 0
  condition : Option Condition := none
  timing : Timing := .beforeRoll
  /-- The types of roll it applies to, all of them if there is no list. -/
  appliesTo : Option (List RollType) := none
  cumulative : Bool := false
  priority : Int := 50

namespace Modifier

/-- Modifiers of one key do not add up unless they stack. -/
def key (m : Modifier) : ModifierSource × String := (m.source, m.name)

def isOnce (m : Modifier) : Bool := m.timing.isOnce

def appliesToType (m : Modifier) (t : RollType) : Bool :=
  match m.appliesTo with
  | some types => types.contains t
  | none => true

/-- A modifier from a record; its condition is no data and comes apart. -/
def ofData (condition : Option Condition) (d : Data) : Checked Modifier :=
  (fields d).andThen fun fs => Modifier.mk
    <$> required fs "id" Form.text
    <*> required fs "name" Form.text
    <*> field fs "description" Form.text ""
    <*> required fs "source" (named ModifierSource.all ModifierSource.name)
    <*> required fs "type" (named ModifierKind.all ModifierKind.name)
    <*> field fs "value" Amount.ofData (.whole 0)
    <*> pure condition
    <*> field fs "application" (named Timing.all Timing.name) .beforeRoll
    <*> field fs "applies_to" (optional (listOf (named RollType.all RollType.name))) none
    <*> field fs "stacks" flag false
    <*> field fs "priority" Form.whole 50

def toData (m : Modifier) : Data := .record [
  ("id", .text m.id), ("name", .text m.name), ("description", .text m.description),
  ("source", .text m.source.name), ("type", .text m.kind.name), ("value", m.amount.toData),
  ("condition", .bool m.condition.isSome), ("application", .text m.timing.name),
  ("applies_to", .option (fun types => .texts (types.map RollType.name)) m.appliesTo),
  ("stacks", .bool m.cumulative), ("priority", .int m.priority)]

end Modifier

end DiceTower

import DiceTower.Modifier.Basic
import DiceTower.Notation.Reading

/-! A roll as it is asked for. -/

namespace DiceTower

/-- What is to be rolled: a text that is still to be read, or a formula. -/
inductive Wording where
  | text (s : String)
  | formula (f : Formula)

namespace Wording

def asText : Wording → String
  | text s => s
  | formula f => f.text

def read (limits : Limits) : Wording → Except Fault Formula
  | text s => Formula.parse limits s
  | formula f => .ok f

def toData : Wording → Data
  | text s => .text s
  | formula f => f.toData

end Wording

structure Definition where
  id : String
  kind : RollType := .raw
  name : String := ""
  wording : Wording
  context : Context := {}
  modifiers : List Modifier := []
  /-- Whether to add what the character can do; not where the notation already counts it. -/
  withCharacter : Bool := true
  /-- Whether the roll is the damage of a critical hit. -/
  criticalHit : Bool := false

namespace Definition

def title (d : Definition) : String := if d.name = "" then d.kind.name else d.name

def toData (d : Definition) : Data := .record [
  ("id", .text d.id), ("type", .text d.kind.name), ("name", .text d.name),
  ("base_expression", d.wording.toData), ("context", d.context.toData),
  ("modifiers", .listing Modifier.toData d.modifiers),
  ("derive_character_modifiers", .bool d.withCharacter), ("critical_hit", .bool d.criticalHit),
  ("expression_text", .text d.wording.asText)]

end Definition

/-- The types of segments that follow others. A label that tells a type counts; what follows an attack
or damage is damage; all else has the type of the roll. -/
def segmentKinds (kind : RollType) (attacked : Bool) (last : Option RollType) :
    List Segment → List RollType
  | [] => []
  | s :: segments =>
    let own := match s.label.bind RollType.ofLabel? with
      | some told => if told = .attack ∧ kind.isAttack then kind else told
      | none => if attacked || last.any (·.isDamage) then .damage else kind
    own :: segmentKinds kind (attacked || own.isAttack) (some own) segments

/-- The type of every segment of a formula. -/
def Formula.kinds (kind : RollType) (f : Formula) : List RollType :=
  segmentKinds kind false none f.segments

theorem length_segmentKinds (kind : RollType) (attacked : Bool) (last : Option RollType)
    (segments : List Segment) :
    (segmentKinds kind attacked last segments).length = segments.length := by
  induction segments generalizing attacked last with
  | nil => rfl
  | cons s segments ih => simp [segmentKinds, ih]

end DiceTower

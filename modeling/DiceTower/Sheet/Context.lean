import DiceTower.Data.Keyed
import DiceTower.Sheet.Character

/-! The situation of a roll: who rolls, with what, against whom and where. -/

namespace DiceTower

open Form Text

inductive SourceKind where
  | weapon
  | spell
  | ability
  | skill
  | save
  | custom
  deriving DecidableEq, Repr

namespace SourceKind

def all : List SourceKind := [weapon, spell, ability, skill, save, custom]

def name : SourceKind → String
  | weapon => "weapon"
  | spell => "spell"
  | ability => "ability"
  | skill => "skill"
  | save => "save"
  | custom => "custom"

end SourceKind

structure RollSource where
  kind : SourceKind := .custom
  name : String := ""
  tags : List String := []
  properties : List (String × Data) := []
  /-- The ability to use instead of the one that would be inferred. -/
  ability : Option Ability := none
  /-- Whether to count as proficient, whatever would be inferred. -/
  proficient : Option Bool := none

namespace RollSource

def hasTag (s : RollSource) (tag : String) : Bool := s.tags.any (sameButCase tag)

def property? (s : RollSource) (name : String) : Option Data := s.properties.lookup name

def ofData (d : Data) : Checked RollSource :=
  (fields d).andThen fun fs => RollSource.mk
    <$> field fs "type" (named SourceKind.all SourceKind.name) .custom
    <*> field fs "name" text ""
    <*> field fs "tags" (listOf text) []
    <*> field fs "properties" fields []
    <*> field fs "ability" (optional Ability.ofData) none
    <*> field fs "proficient" (optional flag) none

def toData (s : RollSource) : Data := .record [
  ("type", .text s.kind.name), ("name", .text s.name), ("tags", .texts s.tags),
  ("properties", .record s.properties), ("ability", .option (fun a => .text a.code) s.ability),
  ("proficient", .option .bool s.proficient)]

/-- The source with some fields given anew, all of it checked again. -/
def withChanges (s : RollSource) (changes : List (String × Data)) : Checked RollSource :=
  match s.toData with
  | .record fs => ofData (.record (changes.foldl (fun fs (name, d) => Keyed.put name d fs) fs))
  | d => ofData d

end RollSource

structure RollTarget where
  ac : Option Int := none
  saveBonus : Option Int := none
  dc : Option Int := none
  conditions : List String := []
  deriving DecidableEq, Repr

namespace RollTarget

def hasCondition (t : RollTarget) (condition : String) : Bool :=
  t.conditions.any (sameButCase condition)

def ofData (d : Data) : Checked RollTarget :=
  (fields d).andThen fun fs => RollTarget.mk
    <$> field fs "ac" (optional whole) none
    <*> field fs "save_bonus" (optional whole) none
    <*> field fs "dc" (optional whole) none
    <*> field fs "conditions" (listOf text) []

def toData (t : RollTarget) : Data := .record [
  ("ac", .option .int t.ac), ("save_bonus", .option .int t.saveBonus), ("dc", .option .int t.dc),
  ("conditions", .texts t.conditions)]

end RollTarget

structure Environment where
  advantage : Bool := false
  disadvantage : Bool := false
  hidden : Bool := false
  blessed : Bool := false
  inspired : Bool := false
  conditions : List String := []
  /-- Further circumstances, by name. -/
  extras : List (String × Data) := []

namespace Environment

/-- A circumstance by its name: what is said of it, or else whether it is among the conditions. -/
def circumstance (e : Environment) (name : String) : Data :=
  (e.extras.lookup name).getD (.bool (e.conditions.any (sameButCase name)))

def holds (e : Environment) (name : String) : Bool := (e.circumstance name).truthy

def fieldNames : List String :=
  ["advantage", "disadvantage", "hidden", "blessed", "inspired", "conditions"]

def ofData (d : Data) : Checked Environment :=
  (fields d).andThen fun fs => Environment.mk
    <$> field fs "advantage" flag false
    <*> field fs "disadvantage" flag false
    <*> field fs "hidden" flag false
    <*> field fs "blessed" flag false
    <*> field fs "inspired" flag false
    <*> field fs "conditions" (listOf text) []
    <*> pure (fs.filter fun f => !fieldNames.contains f.1)

def toData (e : Environment) : Data := .record ([
  ("advantage", .bool e.advantage), ("disadvantage", .bool e.disadvantage),
  ("hidden", .bool e.hidden), ("blessed", .bool e.blessed), ("inspired", .bool e.inspired),
  ("conditions", .texts e.conditions)] ++ e.extras)

end Environment

structure Context where
  character : Character := {}
  source : RollSource := {}
  target : Option RollTarget := none
  environment : Environment := {}

namespace Context

def ofData (d : Data) : Checked Context :=
  (fields d).andThen fun fs => Context.mk
    <$> field fs "character" Character.ofData {}
    <*> field fs "source" RollSource.ofData {}
    <*> field fs "target" (optional RollTarget.ofData) none
    <*> field fs "environment" Environment.ofData {}

def toData (c : Context) : Data := .record [
  ("character", c.character.toData), ("source", c.source.toData),
  ("target", .option RollTarget.toData c.target), ("environment", c.environment.toData)]

def withSource (c : Context) (changes : List (String × Data)) : Except Fault Context :=
  (c.source.withChanges changes).toExcept.map fun s => { c with source := s }

def targetHas (c : Context) (condition : String) : Bool :=
  c.target.any (·.hasCondition condition)

end Context

end DiceTower

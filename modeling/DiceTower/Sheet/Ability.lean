import DiceTower.Data.Form
import DiceTower.Text.Part

/-! The six abilities and the skills they govern. -/

namespace DiceTower

open Text

inductive Ability where
  | strength
  | dexterity
  | constitution
  | intelligence
  | wisdom
  | charisma
  deriving DecidableEq, Repr

namespace Ability

def all : List Ability := [strength, dexterity, constitution, intelligence, wisdom, charisma]

def code : Ability → String
  | strength => "STR"
  | dexterity => "DEX"
  | constitution => "CON"
  | intelligence => "INT"
  | wisdom => "WIS"
  | charisma => "CHA"

def name : Ability → String
  | strength => "strength"
  | dexterity => "dexterity"
  | constitution => "constitution"
  | intelligence => "intelligence"
  | wisdom => "wisdom"
  | charisma => "charisma"

/-- What may follow the name of an ability, in the order in which it is taken off. -/
def endings : List String := [" saving throw", " save", "_save", " check"]

/-- The ability that a text names by its code or its full name, in any case, perhaps with the kind of
roll after it. -/
def ofName? (s : String) : Option Ability :=
  let s := endings.foldl (fun s ending => withoutEnding ending s) (cleaned s)
  let key := String.ofList ((s.toList.take 3).map latinCapital)
  all.find? fun a => a.code == key && (s.length == 3 || a.name == s)

def named (d : Data) : Except Fault Ability :=
  match ofName? d.asText with
  | some a => .ok a
  | none => .error (.unknownAttribute d)

def ofData (d : Data) : Checked Ability :=
  match named d with
  | .ok a => .good a
  | .error fault => .bad [fault.message]

theorem ofName?_code (a : Ability) : ofName? a.code = some a := by
  cases a <;> decide +kernel

theorem ofName?_name (a : Ability) : ofName? a.name = some a := by
  cases a <;> decide +kernel

end Ability

/-- A name with low lines for spaces and hyphens, in small letters, so that spellings agree. -/
def normalizeName (s : String) : String :=
  String.ofList ((cleaned s).toList.map fun c => if c = '-' ∨ c = ' ' then '_' else c)

def skillAbilities : List (String × Ability) := [
  ("acrobatics", .dexterity), ("animal_handling", .wisdom), ("arcana", .intelligence),
  ("athletics", .strength), ("deception", .charisma), ("history", .intelligence),
  ("insight", .wisdom), ("intimidation", .charisma), ("investigation", .intelligence),
  ("medicine", .wisdom), ("nature", .intelligence), ("perception", .wisdom),
  ("performance", .charisma), ("persuasion", .charisma), ("religion", .intelligence),
  ("sleight_of_hand", .dexterity), ("stealth", .dexterity), ("survival", .wisdom)]

def castingAbilities : List (String × Ability) := [
  ("artificer", .intelligence), ("wizard", .intelligence), ("cleric", .wisdom),
  ("druid", .wisdom), ("monk", .wisdom), ("ranger", .wisdom), ("bard", .charisma),
  ("paladin", .charisma), ("sorcerer", .charisma), ("warlock", .charisma)]

end DiceTower

import DiceTower.Sheet.Context
import DiceTower.Sheet.RollType

/-! What a situation says about a roll: the ability that governs it, whether proficiency counts, and
when certain features apply. -/

namespace DiceTower

open Text

namespace Context

/-- The better of strength and dexterity, strength if they are equal. -/
def finesseAbility (c : Context) : Ability :=
  if c.character.score .dexterity ≤ c.character.score .strength then .strength else .dexterity

def weaponAbility (c : Context) : Ability :=
  if c.source.hasTag "finesse" then c.finesseAbility
  else if c.source.hasTag "ranged" then .dexterity
  else .strength

def spellAbility (c : Context) : Ability :=
  match castingAbilities.find? fun casting => c.character.isClass casting.1 with
  | some (_, a) => a
  | none => .charisma

def skillAbility (c : Context) : Ability :=
  (skillAbilities.lookup (normalizeName c.source.name)).getD .intelligence

def sourceAbility? (c : Context) (kind : RollType) : Option Ability :=
  match c.source.kind with
  | .weapon => if kind = .attack ∨ kind = .damage then some c.weaponAbility else none
  | .spell => if kind.isAttack then some c.spellAbility else none
  | .skill => if kind = .skill ∨ kind = .ability then some c.skillAbility else none
  | .save => if kind.isCheck then Ability.ofName? c.source.name else none
  | .ability => if kind.isCheck then Ability.ofName? c.source.name else none
  | .custom => none

def abilityFor (c : Context) (kind : RollType) : Option Ability :=
  match kind with
  | .healing | .raw | .deathSave | .spellSave => none
  | .initiative => some (c.source.ability.getD .dexterity)
  | .concentration => some (c.source.ability.getD .constitution)
  | kind => c.source.ability.or (c.sourceAbility? kind)

def isProficient (c : Context) (kind : RollType) : Bool :=
  match c.source.proficient with
  | some given => given
  | none => match kind with
    | .attack | .spellAttack => c.source.kind == .weapon || c.source.kind == .spell
    | .skill => c.source.kind == .skill && c.character.isProficientIn c.source.name
    | .save | .concentration =>
      (c.abilityFor kind).any c.character.savingThrowProficiencies.contains
    | _ => false

/-- Whether an attack can be a sneak attack: with advantage, from hiding or beside an ally, and
without disadvantage that nothing makes up for. -/
def canSneakAttack (c : Context) : Bool :=
  let e := c.environment
  if e.disadvantage && !e.advantage then false
  else e.advantage || e.hidden || e.holds "ally_adjacent"

def isEldritchBlast (c : Context) : Bool := holds (lowered c.source.name) "eldritch blast"

def targetIsProne (c : Context) : Bool :=
  c.environment.holds "target_prone" || c.targetHas "prone"

end Context

end DiceTower

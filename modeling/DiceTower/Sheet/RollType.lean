import DiceTower.Data.Basic
import DiceTower.Journal.Record
import DiceTower.Text.Part

/-! What a roll is for. -/

namespace DiceTower

open Text

inductive RollType where
  | attack
  | damage
  | skill
  | save
  | ability
  | initiative
  | concentration
  | deathSave
  | spellSave
  | spellAttack
  | healing
  | raw
  deriving DecidableEq, Repr

namespace RollType

def all : List RollType :=
  [attack, damage, skill, save, ability, initiative, concentration, deathSave, spellSave,
    spellAttack, healing, raw]

def name : RollType → String
  | attack => "attack"
  | damage => "damage"
  | skill => "skill"
  | save => "save"
  | ability => "ability"
  | initiative => "initiative"
  | concentration => "concentration"
  | deathSave => "death_save"
  | spellSave => "spell_save"
  | spellAttack => "spell_attack"
  | healing => "healing"
  | raw => "raw"

def isAttack : RollType → Bool
  | attack | spellAttack => true
  | _ => false

def isDamage : RollType → Bool
  | damage => true
  | _ => false

def isD20 : RollType → Bool
  | damage | healing | raw => false
  | _ => true

def isCheck : RollType → Bool
  | skill | save | ability | concentration | spellSave => true
  | _ => false

def d20Types : List RollType := all.filter (·.isD20)

def ofName? (s : String) : Option RollType := all.find? (·.name = s)

/-- The type that a value names, in any case and with white space around it. -/
def ofData? (d : Data) : Option RollType := ofName? (cleaned d.asText)

def unknownRecord (d : Data) : Record :=
  ⟨.warning, .vocabulary, "Unknown roll type " ++ d.shown ++ ", falling back to raw"⟩

def ofLabel? (label : String) : Option RollType :=
  let s := lowered label
  if s = "" then none
  else if holds s "attack" || ["hit", "to_hit", "tohit"].contains s then some attack
  else if holds s "damage" || s = "dmg" then some damage
  else if holds s "heal" then some healing
  else if holds s "save" then some save
  else if beginsWith "init" s then some initiative
  else if holds s "check" || holds s "skill" then some skill
  else none

theorem ofName?_name (t : RollType) : ofName? t.name = some t := by
  cases t <;> decide +kernel

theorem isD20_of_isAttack {t : RollType} (h : t.isAttack = true) : t.isD20 = true := by
  cases t <;> simp_all [isAttack, isD20]

end RollType

end DiceTower

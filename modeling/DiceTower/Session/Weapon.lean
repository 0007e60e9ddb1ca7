import DiceTower.Number.Digits
import DiceTower.Sheet.Context

/-! Weapons as a character sheet has them, and the notation that they are rolled with. -/

namespace DiceTower

open Form

structure Weapon where
  name : String
  damageDice : String := "1d6"
  attackBonus : Int := 0
  damageBonus : Int := 0
  damageType : Option String := none
  tags : List String := ["melee"]
  magicBonus : Int := 0
  deriving DecidableEq, Repr

structure WeaponNotation where
  name : String
  attack : String
  damage : String
  deriving DecidableEq, Repr

def attackAndDamage (attack damage : String) : String := "attack:" ++ attack ++ ",damage:" ++ damage

namespace Weapon

def ofData (d : Data) : Checked Weapon :=
  (fields d).andThen fun fs => Weapon.mk
    <$> required fs "name" text
    <*> field fs "damage_dice" text "1d6"
    <*> field fs "attack_bonus" whole 0
    <*> field fs "damage_bonus" whole 0
    <*> field fs "damage_type" (optional text) none
    <*> field fs "tags" (listOf text) ["melee"]
    <*> field fs "magic_bonus" whole 0

def bonus (n : Int) : String := String.ofList (Number.asBonus n)

/-- The dice of an attack: two of them with advantage, which hiding gives, or with disadvantage, but
one with both. -/
def attackDice (e : Environment) : String :=
  let advantage := e.advantage || e.hidden
  if advantage && !e.disadvantage then "2d20kh1"
  else if e.disadvantage && !advantage then "2d20kl1"
  else "1d20"

/-- The notation of a weapon, its bonuses counted. -/
def written (w : Weapon) (e : Environment) : WeaponNotation where
  name := w.name
  attack := attackDice e ++ bonus (w.attackBonus + w.magicBonus)
  damage := Text.withoutSpaces w.damageDice ++ bonus (w.damageBonus + w.magicBonus)

def contextOf (w : Weapon) (c : Context) : Context :=
  let properties := Keyed.put "damage_type" (Data.option .text w.damageType)
    (Keyed.put "damage" (.text w.damageDice) c.source.properties)
  { c with source := { c.source with kind := .weapon, name := w.name, tags := w.tags, properties } }

end Weapon

def WeaponNotation.toData (n : WeaponNotation) : Data := .record [
  ("name", .text n.name), ("attack_expression", .text n.attack),
  ("damage_expression", .text n.damage), ("full_expression", .text (attackAndDamage n.attack n.damage))]

end DiceTower

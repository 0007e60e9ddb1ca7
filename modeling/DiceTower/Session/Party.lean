import DiceTower.Session.Weapon

/-! Characters and weapons to try the dice with. -/

namespace DiceTower.Party

def rapier : Weapon where
  name := "Rapier"
  damageDice := "1d8"
  attackBonus := 5
  damageBonus := 3
  damageType := some "piercing"
  tags := ["melee", "finesse"]

def longsword : Weapon where
  name := "Longsword"
  damageDice := "1d8"
  attackBonus := 6
  damageBonus := 3
  damageType := some "slashing"
  tags := ["melee", "versatile"]
  magicBonus := 1

def scores (strength dexterity constitution intelligence wisdom charisma : Int) :
    List (Ability × Int) :=
  Ability.all.zip [strength, dexterity, constitution, intelligence, wisdom, charisma]

def rogue (hidden : Bool) : Context where
  character := {
    id := "char_vex_001"
    name := some "Vex"
    level := 3
    abilityScores := scores 10 16 12 13 10 14
    skillProficiencies := ["stealth", "acrobatics", "perception", "sleight_of_hand"]
    expertise := ["stealth", "sleight_of_hand"]
    savingThrowProficiencies := [.dexterity, .intelligence]
    className := some "Rogue"
    features := ["Sneak Attack", "Cunning Action"] }
  source := {
    kind := .weapon
    name := rapier.name
    tags := rapier.tags
    properties := [("damage", .text rapier.damageDice), ("damage_type", .text "piercing")] }
  target := some { ac := some 13, dc := some 12 }
  environment := { hidden }

def fighter : Context where
  character := {
    id := "char_brom_001"
    name := some "Brom"
    level := 5
    abilityScores := scores 17 12 16 8 11 10
    skillProficiencies := ["athletics", "intimidation"]
    savingThrowProficiencies := [.strength, .constitution]
    className := some "Fighter"
    subclass := some "Champion"
    features := ["Improved Critical", "Extra Attack", "Second Wind"] }
  source := {
    kind := .weapon
    name := longsword.name
    tags := longsword.tags
    properties := [("damage", .text longsword.damageDice), ("damage_type", .text "slashing"),
      ("magic_bonus", .int longsword.magicBonus)] }
  target := some { ac := some 11 }

def warlock : Context where
  character := {
    id := "char_selene_001"
    name := some "Selene"
    level := 5
    abilityScores := scores 8 14 14 10 12 18
    skillProficiencies := ["arcana", "deception"]
    savingThrowProficiencies := [.wisdom, .charisma]
    className := some "Warlock"
    features := ["Agonizing Blast"] }
  source := {
    kind := .spell
    name := "Eldritch Blast"
    properties := [("damage", .text "1d10"), ("damage_type", .text "force")] }
  target := some { ac := some 15, conditions := ["vulnerable_force"] }

end DiceTower.Party

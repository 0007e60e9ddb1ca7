import DiceTower.Data.Encode
import DiceTower.Data.Form

/-! The rules of a table for critical hits. -/

namespace DiceTower

open Form

inductive DamageStrategy where
  | doubleDice
  | maxBaseDice
  | doubleTotal
  deriving DecidableEq, Repr

namespace DamageStrategy

def all : List DamageStrategy := [doubleDice, maxBaseDice, doubleTotal]

def name : DamageStrategy → String
  | doubleDice => "double_dice"
  | maxBaseDice => "max_base_dice"
  | doubleTotal => "double_total"

end DamageStrategy

inductive AffectedDice where
  | weaponOnly
  | allDamage
  | excludeModifiers
  deriving DecidableEq, Repr

namespace AffectedDice

def all : List AffectedDice := [weaponOnly, allDamage, excludeModifiers]

def name : AffectedDice → String
  | weaponOnly => "weapon_only"
  | allDamage => "all_damage"
  | excludeModifiers => "exclude_modifiers"

end AffectedDice

structure CriticalRules where
  range : List Int := [20]
  strategy : DamageStrategy := .doubleDice
  affected : AffectedDice := .weaponOnly
  /-- Notation of dice rolled once more on a critical hit. -/
  additionalDice : Option String := none
  failureRange : List Int := [1]
  deriving DecidableEq, Repr

namespace CriticalRules

def ofData (d : Data) : Checked CriticalRules :=
  (fields d).andThen fun fs => CriticalRules.mk
    <$> field fs "range" (listOf whole) [20]
    <*> field fs "damage_strategy" (named DamageStrategy.all DamageStrategy.name) .doubleDice
    <*> field fs "affected_dice" (named AffectedDice.all AffectedDice.name) .weaponOnly
    <*> field fs "additional_dice" (optional text) none
    <*> field fs "failure_range" (listOf whole) [1]

def toData (r : CriticalRules) : Data := .record [
  ("range", .ints r.range), ("damage_strategy", .text r.strategy.name),
  ("affected_dice", .text r.affected.name), ("additional_dice", .option .text r.additionalDice),
  ("failure_range", .ints r.failureRange)]

end CriticalRules

end DiceTower

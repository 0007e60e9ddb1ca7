import DiceTower.Critical.Policy
import DiceTower.Engine.Definition
import DiceTower.Rulebook.Basic

/-! What rolls are made with: the rules of the table, fixed before any roll. -/

namespace DiceTower

structure Engine where
  rules : CriticalRules := {}
  limits : Limits := {}
  rulebook : Rulebook := Rulebook.standard {} true true true
  /-- The number of dice that an exploding pool may reach. -/
  cap : Int := 100
  /-- The seconds that a roll may take; zero stands for any time. -/
  patience : Float := 5.0
  /-- Dice rolled once more on a critical hit. -/
  extraDice : Option Term := none

namespace Engine

/-- The dice that the rules add to a critical hit, read from their notation. -/
def extraDice? (limits : Limits) (rules : CriticalRules) : Except Fault (Option Term) :=
  match rules.additionalDice with
  | some text => if text = "" then .ok none else (Term.parse limits text).map some
  | none => .ok none

/-- An engine with these rules, unless the dice they add are no notation. -/
def build (rules : CriticalRules) (limits : Limits) (rulebook : Rulebook) (cap : Int)
    (patience : Float) : Except Fault Engine :=
  (extraDice? limits rules).map fun extraDice => { rules, limits, rulebook, cap, patience, extraDice }

def formulaOf (e : Engine) (d : Definition) : Except Fault Formula := d.wording.read e.limits

def criticalDamage (e : Engine) (text : String) : Except Fault String :=
  criticalText e.limits e.rules text

end Engine

end DiceTower

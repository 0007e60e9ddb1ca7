import DiceTower.Modifier.Basic
import DiceTower.Notation.Reading

/-! Whether the amount of a modifier fits its kind. -/

namespace DiceTower

namespace Modifier

def checkDice (limits : Limits) (m : Modifier) : Except Fault Modifier :=
  match m.amount with
  | .text s => match Term.parse limits s with
    | .ok t => .ok { m with amount := .dice t }
    | .error fault => .error (.badModifier m.id fault.message)
  | .dice _ => .ok m
  | _ => .error (.badModifier m.id "dice modifiers need a dice expression")

def checkWhole (m : Modifier) : Except Fault Modifier :=
  match m.amount.whole? with
  | none => .error (.badModifier m.id (m.kind.name ++ " modifiers need a whole number"))
  | some n =>
    if m.kind = .extraAttack ∧ n < 0 then
      .error (.badModifier m.id "extra attacks cannot be negative")
    else .ok m

def checkScale (m : Modifier) : Except Fault Modifier :=
  match m.amount.scalar? with
  | none => .error (.badModifier m.id (m.kind.name ++ " needs a non-negative number"))
  | some s =>
    if s.isNegative then
      .error (.badModifier m.id (m.kind.name ++ " needs a non-negative number"))
    else if m.kind = .divider ∧ s.isZero then .error (.badModifier m.id "cannot divide by zero")
    else .ok m

def checkCritRange (m : Modifier) : Except Fault Modifier :=
  match m.amount.whole? with
  | some n => if 2 ≤ n ∧ n ≤ 20 then .ok m else fail
  | none => fail
where
  fail : Except Fault Modifier :=
    .error (.badModifier m.id "critical range must be a natural roll between 2 and 20")

def checkFace (m : Modifier) : Except Fault Modifier :=
  match m.amount.whole? with
  | some n => if 1 ≤ n then .ok m else fail
  | none => fail
where
  fail : Except Fault Modifier :=
    .error (.badModifier m.id (m.kind.name ++ " needs a face value of at least 1"))

def checkReroll (m : Modifier) : Except Fault Modifier :=
  let ns := m.amount.listedFaces
  if ns ≠ [] ∧ ns.all (1 ≤ ·) then .ok m
  else .error (.badModifier m.id "reroll needs one or more face values")

/-- The modifier ready for use, unless its amount does not fit its kind. -/
def check (limits : Limits) (m : Modifier) : Except Fault Modifier :=
  match m.kind with
  | .dice => checkDice limits m
  | .flat | .extraAttack => checkWhole m
  | .multiplier | .divider => checkScale m
  | .critRange => checkCritRange m
  | .minimum | .maximum | .replaceDie => checkFace m
  | .reroll => checkReroll m
  | .advantage | .disadvantage => .ok m

end Modifier

end DiceTower

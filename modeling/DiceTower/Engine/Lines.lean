import DiceTower.Dice.Roll
import DiceTower.Modifier.Basic
import DiceTower.Result.Item

/-! The lines that dice and modifiers write into a result. -/

namespace DiceTower

def lead (origin : Option String) : String :=
  match origin.filter (· ≠ "") with
  | some s => s ++ " "
  | none => ""

/-- The lines of a die: the faces that were rerolled, and the one that counts. -/
def Die.items (origin : Option String) (d : Die) : List Item :=
  let label := lead origin ++ "d" ++ Number.wholeText d.sides
  d.faces.dropLast.map (fun face => {
    kind := .reroll
    label := label ++ " (rerolled)"
    value := face
    firstFace := some face
    sides := some d.sides
    origin
    rerolled := true
    dropped := true
    faces := d.faces }) ++ [{
    kind := .die
    label
    value := d.value
    firstFace := some d.firstFace
    sides := some d.sides
    origin
    rerolled := d.rerolled
    dropped := d.dropped
    exploded := d.exploded
    faces := d.faces }]

def originOr (origin : Option String) (usual : String) : String := (origin.filter (· ≠ "")).getD usual

/-- The lines of a roll: its dice and the number added, or the number alone. -/
def Roll.items (origin : Option String) (r : Roll) : List Item :=
  if r.term.pool.isFlat then [{
    kind := .modifier
    label := originOr origin "Flat"
    value := r.total
    origin := some (originOr origin "expression")
    isNumber := true }]
  else r.dice.flatMap (·.items origin) ++
    if r.term.pool.modifier = 0 then []
    else [{
      kind := .modifier
      label := lead origin ++ if lead origin = "" then "Bonus" else "bonus"
      value := r.term.pool.modifier
      origin := some (originOr origin "expression") }]

def Term.predicted (t : Term) (before : String) : List Item :=
  if t.pool.isFlat then [{
    kind := .modifier
    label := before ++ "Flat"
    value := 1 + t.pool.modifier
    origin := some "expression"
    isNumber := true }]
  else {
    kind := .die
    label := before ++ Pool.text { t.pool with modifier := 0 }
    value := 0
    sides := some t.pool.sides : Item } ::
    if t.pool.modifier = 0 then []
    else [{
      kind := .modifier
      label := before ++ "Bonus"
      value := t.pool.modifier
      origin := some "expression" }]

def Modifier.item (m : Modifier) (n : Int) : Item :=
  { kind := .modifier, label := m.name, value := n, origin := some m.source.name }

end DiceTower

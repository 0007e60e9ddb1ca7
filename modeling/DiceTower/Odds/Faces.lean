import DiceTower.Notation.Basic
import DiceTower.Odds.Chance

/-! The face that one die shows after the rerolls of its pool. A reroll moves the chance of the faces
rerolled to a fresh draw; a recursive one draws again until the face is another. -/

namespace DiceTower

variable {α : Type} [Chance α]

open Chance

/-- The faces of a die and the chance of each. -/
abbrev Law (α : Type) := List (Int × α)

def facesOf (sides : Int) : List Int := (List.range sides.toNat).map fun (i : Nat) => (i : Int) + 1

namespace Law

def uniform (sides : Int) : Law α := (facesOf sides).map fun face => (face, one / ofInt sides)

def chance (law : Law α) (p : Int → Bool) : α := total ((law.filter fun f => p f.1).map (·.2))

/-- The law after dice that show a target are drawn once more, from the law of a fresh die. A
recursive reroll that could only draw targets changes nothing. -/
def reroll (fresh law : Law α) (targets : List Int) (recursive : Bool) : Law α :=
  let hit := law.chance targets.contains
  let freshHit := fresh.chance targets.contains
  if recursive && !less freshHit one then law
  else List.zipWith (fun (face, p) (_, kept) =>
    let hits := targets.contains face
    let redrawn := if recursive then (if hits then zero else p / (one - freshHit)) else p
    (face, (if hits then zero else kept) + hit * redrawn)) fresh law

/-- The law of a die of the pool after every reroll, faces that cannot show left out. -/
def ofPool (pool : Pool) : Law α :=
  let fresh : Law α := uniform pool.sides
  let law := pool.operations.foldl (fun law op =>
    if op.kind = .reroll then reroll fresh law op.operand.values op.recursive else law) fresh
  law.filter fun f => less zero f.2

end Law

end DiceTower

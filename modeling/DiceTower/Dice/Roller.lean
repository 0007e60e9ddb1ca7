import DiceTower.Dice.Roll
import DiceTower.Dice.Selection
import DiceTower.Notation.Clamp
import DiceTower.Play.Tray

/-! Rolling a pool. First the dice are rolled, rerolled and exploded; then some of them are left out;
last the faces that remain are clamped. Operations of one phase go in the order of the notation. -/

namespace DiceTower

open Drawing

variable {σ : Type} [Source σ]

def Die.shows (targets : List Int) (d : Die) : Bool := !d.dropped && targets.contains d.value

/-- Faces drawn as long as they are among the targets, at most so many. -/
def redraw (deadline : Option Float) (sides : Int) (targets : List Int) :
    Nat → Drawing σ (List Int)
  | 0 => pure []
  | n + 1 => do
    let face ← draw deadline sides
    if targets.contains face then
      let faces ← redraw deadline sides targets n
      pure (face :: faces)
    else pure [face]

def Die.reroll (deadline : Option Float) (targets : List Int) (attempts : Nat) (d : Die) :
    Drawing σ Die :=
  if d.shows targets then do
    let faces ← redraw deadline d.sides targets attempts
    let face := faces.getLast?.getD d.value
    pure { d with value := face, natural := face, faces := d.faces ++ faces, rerolled := true }
  else pure d

/-- How often a reroll may draw for one die. -/
def Operation.attempts (cap : Int) (op : Operation) : Nat :=
  if op.recursive then (max 1 cap).toNat else 1

/-- The dice that explosions add: one for every die of the queue from the threshold on and for every
die added so, as long as there is room; and whether room ran out. -/
def explosions (deadline : Option Float) (threshold : Int) (room next : Nat) (queue : List Die) :
    Drawing σ (List Die × Bool) :=
  match queue with
  | [] => pure ([], false)
  | d :: queue =>
    if threshold ≤ d.value then
      match room with
      | 0 => pure ([], true)
      | room + 1 => do
        let face ← draw deadline d.sides
        let die := { Die.ofFace next d.sides face with exploded := true }
        let (dice, full) ← explosions deadline threshold room (next + 1) (queue ++ [die])
        pure (die :: dice, full)
    else explosions deadline threshold room next queue
termination_by (room, queue.length)

/-- The dice in ascending order of their faces, the earlier first among equals. -/
def lowestFirst (dice : List Die) : List Die := dice.mergeSort fun a b => decide (a.value ≤ b.value)

/-- The dice in descending order of their faces, the earlier first among equals. -/
def highestFirst (dice : List Die) : List Die := dice.mergeSort fun a b => decide (b.value ≤ a.value)

/-- The dice that an operation leaves out of those that count. -/
def leftOut (kind : OperationKind) (n : Int) (dice : List Die) : List Die :=
  let amount := min n dice.length
  match kind with
  | .keepHighest => startingAt amount (highestFirst dice)
  | .keepLowest => startingAt amount (lowestFirst dice)
  | .dropHighest => upTo amount (highestFirst dice)
  | .dropLowest => upTo amount (lowestFirst dice)
  | _ => []

def select (kind : OperationKind) (n : Int) (dice : List Die) : List Die × List Nat :=
  let out := (leftOut kind n (dice.filter (!·.dropped))).map (·.index)
  (dice.map fun d => if out.contains d.index then { d with dropped := true } else d,
    (dice.filter fun d => out.contains d.index).map (·.index))

def bounded (kind : OperationKind) (n face : Int) : Int :=
  match kind with
  | .minimum => clamp (some n) none face
  | .maximum => clamp none (some n) face
  | _ => face

def Die.exceeds (kind : OperationKind) (n : Int) (d : Die) : Bool :=
  !d.dropped && bounded kind n d.value != d.value

def bound (kind : OperationKind) (n : Int) (dice : List Die) : List Die × List Nat :=
  (dice.map fun d =>
    if d.exceeds kind n then { d with value := bounded kind n d.value, clamped := true } else d,
    (dice.filter (·.exceeds kind n)).map (·.index))

structure Progress where
  dice : List Die
  operations : List AppliedOperation := []
  notes : List String := []

def rerollAll (deadline : Option Float) (cap : Int) (op : Operation) (dice : List Die) :
    Drawing σ (List Die × List Nat) := do
  let targets := op.operand.values
  let rerolled ← dice.mapM (·.reroll deadline targets (op.attempts cap))
  pure (rerolled, (dice.filter (·.shows targets)).map (·.index))

/-- Every die from the threshold on adds another one, up to a cap on the pool. The flag tells whether
the cap stopped it. -/
def explodeAll (deadline : Option Float) (cap : Int) (op : Operation) (dice : List Die) :
    Drawing σ (List Die × List Nat × Bool) :=
  if dice.isEmpty then pure ([], [], false)
  else do
    let threshold ← op.operand.number
    let (added, full) ← explosions deadline threshold (cap - dice.length).toNat dice.length dice
    pure (dice ++ added, added.map (·.index), full)

/-- A bound may be anything when there is no die to bring within it. -/
def boundAll (op : Operation) (dice : List Die) : Except Fault (List Die × List Nat) :=
  if dice.all (·.dropped) then .ok (dice, [])
  else op.operand.number.map fun n => bound op.kind n dice

def Progress.step (deadline : Option Float) (cap : Int) (p : Progress) (op : Operation) :
    Drawing σ Progress := do
  let (dice, affected, full) ← match op.kind with
    | .reroll => do
      let (dice, affected) ← rerollAll deadline cap op p.dice
      pure (dice, affected, false)
    | .explode => explodeAll deadline cap op p.dice
    | .minimum | .maximum => do
      let (dice, affected) ← boundAll op p.dice
      pure (dice, affected, false)
    | kind => do
      let n ← op.operand.number
      let (dice, affected) := select kind n p.dice
      pure (dice, affected, false)
  if full then
    note ⟨.info, .dice, "Exploding roll hit the " ++ Number.wholeText cap ++ " dice cap"⟩
  pure {
    dice
    operations := p.operations ++ [⟨op.kind, op.operand, p.dice.map (·.value),
      dice.map (·.value), affected, op.description⟩]
    notes := p.notes ++
      if full then ["Explosions stopped at the " ++ Number.wholeText cap ++ " dice cap"] else [] }

def Pool.phases (p : Pool) : List Operation :=
  p.operations.filter (fun op => !op.kind.selects && !op.kind.clamps) ++
    p.operations.filter (·.kind.selects) ++ p.operations.filter (·.kind.clamps)

/-- Dice rolled one after another; `next` is the place of the first of them in the pool. -/
def rollDice (deadline : Option Float) (sides : Int) (next : Nat) : Nat → Drawing σ (List Die)
  | 0 => pure []
  | n + 1 => do
    let face ← draw deadline sides
    let dice ← rollDice deadline sides (next + 1) n
    pure (Die.ofFace next sides face :: dice)

/-- A pool rolled. Explosions and repeated rerolls stop at the cap. -/
def Term.roll (deadline : Option Float) (cap : Int) (label : Option String) (t : Term) :
    Drawing σ Roll := do
  let dice ← rollDice deadline t.pool.sides 0 t.pool.count.toNat
  let p ← t.pool.phases.foldlM (Progress.step deadline cap) { dice }
  pure { term := t, label, dice := p.dice, operations := p.operations, notes := p.notes }

end DiceTower

import DiceTower.Data.Encode
import DiceTower.Data.Form
import DiceTower.Dice.Selection
import DiceTower.Number.Scalar
import DiceTower.Number.Size
import DiceTower.Number.Sum
import DiceTower.Odds.OrderStatistics

/-! The least, the greatest and the average total of a pool, found without rolling. Exploding dice
count with the size that their pool reaches on average, within the cap. -/

namespace DiceTower

structure Range (α : Type) where
  min : Int
  max : Int
  average : α

variable {α : Type} [Chance α]

open Chance

structure Bounds where
  low : Option Operand
  high : Option Operand

def Bounds.ofOperations (ops : List Operation) : Except Fault Bounds := do
  let pick (choose : Operand → List Operand → Option Operand) (os : List Operand) :
      Except Fault (Option Operand) := match os with
    | [] => .ok none
    | o :: os => match choose o os with
      | some o => .ok (some o)
      | none => .error .wrongKind
  let low ← pick Operand.greatest? (operandsOf .minimum ops)
  let high ← pick Operand.least? (operandsOf .maximum ops)
  .ok ⟨low, high⟩

def Bounds.numbers (bounds : Bounds) : Except Fault (Option Int × Option Int) := do
  let number (o : Option Operand) : Except Fault (Option Int) := match o with
    | none => .ok none
    | some o => o.number.map some
  let low ← number bounds.low
  let high ← number bounds.high
  .ok (low, high)

def requireHeld (α : Type) [Chance α] (ns : List Int) : Except Fault Unit :=
  if ns.all (holds α) then .ok () else .error .wholeTooLarge

def Scalar.value : Scalar → Except Fault α
  | .whole n => if holds α n then .ok (ofInt n) else .error .wholeTooLarge
  | .real x => match ofReal? x with
    | some y => .ok y
    | none => .error .infinite

def ranksKept (pool : Pool) (size : Int) : Except Fault (List Nat) := do
  let size ← roomFor size
  match keptRanks? pool.operations size with
  | some ranks => .ok ranks
  | none => .error .wrongKind

namespace Law

def mean (law : Law α) (low high : Option Int) : α :=
  total (law.map fun (face, p) => ofInt (clamp low high face) * p)

end Law

/-- The faces that count must be within the range of the numbers that averages are computed with. -/
def Law.requireHeld (law : Law α) (low high : Option Int) : Except Fault Unit :=
  DiceTower.requireHeld α (law.map fun f => clamp low high f.1)

/-- The sum of the averages of some ranks among `n` dice, every rank once. The rank below the lowest
die stands for a die that shows the least face. -/
def rankedAverage (law : Law α) (n : Int) (ranks : List Int) (low high : Option Int) :
    Except Fault α :=
  if law.isEmpty then .ok zero
  else do
    let ranks := (ranks.mergeSort fun r s => decide (r ≤ s)).eraseDups
    let held := law.requireHeld low high
    if !waysHeld α n.toNat 0 1 n.toNat then .error .wholeTooLarge
    ranks.forM fun r => if r < -1 ∨ n ≤ r then .error .missingRank else held
    .ok (orderStatisticMeans law n.toNat ranks low high)

def fixedAverage (law : Law α) (pool : Pool) (ranks : List Nat) (low high : Option Int) :
    Except Fault α :=
  if (ranks.length : Int) = pool.count then do
    law.requireHeld low high
    .ok (ofInt pool.count * law.mean low high)
  else rankedAverage law pool.count (ranks.map Int.ofNat) low high

/-- The average size of a pool that grows by a die with the given chance, if it grows at random. -/
def averageSize (pool : Pool) (cap : Int) (trigger : α) : Except Fault α :=
  if less trigger one then do
    requireHeld α [pool.count]
    .ok (lesser (ofInt cap) (ofInt pool.count / (one - trigger)))
  else .ok (ofInt cap)

/-- The average total of the dice kept of a pool that grows with every face from a threshold on. -/
def explodingAverage (law : Law α) (pool : Pool) (threshold cap : Int) (low high : Option Int) :
    Except Fault α := do
  law.requireHeld low high
  let size ← averageSize pool cap (law.chance (threshold ≤ ·))
  let kept : α ← if pool.operations.any (·.kind.selects)
    then (ranksKept pool (nearest size)).map fun ranks => ofInt ranks.length
    else (requireHeld α [cap]).map fun _ => size
  .ok (kept * law.mean low high)

/-- The least number of dice, the greatest one, and the average total before the number added. -/
def poolAverage (law : Law α) (first last : Int) (pool : Pool) (cap : Int) (bounds : Bounds) :
    Except Fault (Range α) := do
  match pool.operations.find? (·.kind = .explode) with
  | none =>
    let ranks ← ranksKept pool pool.count
    let (low, high) ← bounds.numbers
    let average ← fixedAverage law pool ranks low high
    .ok ⟨ranks.length * clamp low high first, ranks.length * clamp low high last, average⟩
  | some op =>
    let threshold ← op.operand.number
    let fewest ← ranksKept pool (if threshold ≤ first then cap else pool.count)
    let (low, high) ← bounds.numbers
    let most ← ranksKept pool (max cap pool.count)
    let average ← explodingAverage law pool threshold cap low high
    .ok ⟨fewest.length * clamp low high first, most.length * clamp low high last, average⟩

/-- The range of the totals of a pool whose explosions stop at so many dice, its average unrounded. -/
def exactEstimate (pool : Pool) (cap : Int) : Except Fault (Range α) := do
  let law : Law α := Law.ofPool pool
  let bounds ← Bounds.ofOperations pool.operations
  match law.head?, law.getLast? with
  | some (first, _), some (last, _) =>
    let range ← poolAverage law first last pool cap bounds
    requireHeld α [pool.modifier]
    .ok ⟨range.min + pool.modifier, range.max + pool.modifier,
      range.average + ofInt pool.modifier⟩
  | _, _ => .error .noFaces

def estimate (pool : Pool) (cap : Int) : Except Fault (Range α) :=
  (exactEstimate pool cap).map fun r => { r with average := hundredths r.average }

namespace Range

def combine (ranges : List (Range α)) : Range α :=
  ⟨Number.sum (ranges.map (·.min)), Number.sum (ranges.map (·.max)),
    hundredths (total (ranges.map (·.average)))⟩

/-- What a total that is multiplied, rounded down, divided and rounded down again may be. -/
def scale (range : Range α) (multiplier divider : Scalar) : Except Fault (Range α) := do
  let apply (n : Int) : Except Fault Int := do
    let product ← Scalar.multiply n multiplier
    Scalar.divide product divider
  let low ← apply range.min
  let high ← apply range.max
  let m ← multiplier.value
  let d ← divider.value
  .ok ⟨low, high, hundredths (range.average * m / d)⟩

def ofData (d : Data) : Checked (Range Float) :=
  (Form.fields d).andThen fun fs => Range.mk
    <$> Form.required fs "min" Form.whole
    <*> Form.required fs "max" Form.whole
    <*> Form.required fs "average" Form.real

def toData (r : Range Float) : Data := .record [
  ("min", .int r.min), ("max", .int r.max), ("average", .float r.average)]

end Range

end DiceTower

import DiceTower.Fault
import DiceTower.Notation.Basic

/-! Parts of a list up to a place or from it on, and the ranks of a pool that its operations keep. -/

namespace DiceTower

/-- The number of an operand where a list of faces makes no sense. -/
def Operand.number : Operand → Except Fault Int
  | one n => .ok n
  | many _ => .error .wrongKind

/-- A place in a list, counted from its end if it is negative. -/
def placeIn (length : Nat) (n : Int) : Nat := if n < 0 then (length + n).toNat else n.toNat

def upTo {α : Type} (n : Int) (xs : List α) : List α := xs.take (placeIn xs.length n)

def startingAt {α : Type} (n : Int) (xs : List α) : List α := xs.drop (placeIn xs.length n)

def keepRanks (kind : OperationKind) (n : Int) (ranks : List Nat) : List Nat :=
  let amount := min n ranks.length
  match kind with
  | .keepHighest => startingAt (ranks.length - amount) ranks
  | .keepLowest => upTo amount ranks
  | .dropHighest => upTo (ranks.length - amount) ranks
  | .dropLowest => startingAt amount ranks
  | _ => ranks

/-- The ranks, from zero for the lowest, that operations keep of a pool of the given size. The
operands are numbers wherever they select. -/
def keptRanks? (ops : List Operation) (size : Nat) : Option (List Nat) :=
  (ops.filter (·.kind.selects)).foldlM (fun ranks op =>
    op.operand.single?.map fun n => keepRanks op.kind n ranks) (List.range size)

theorem upTo_append_startingAt {α : Type} (n : Int) (xs : List α) :
    upTo n xs ++ startingAt n xs = xs := List.take_append_drop ..

theorem upTo_of_nonneg {α : Type} {n : Int} (h : 0 ≤ n) (xs : List α) :
    upTo n xs = xs.take n.toNat := by
  unfold upTo placeIn
  rw [if_neg (by omega)]

theorem startingAt_of_nonneg {α : Type} {n : Int} (h : 0 ≤ n) (xs : List α) :
    startingAt n xs = xs.drop n.toNat := by
  unfold startingAt placeIn
  rw [if_neg (by omega)]

end DiceTower

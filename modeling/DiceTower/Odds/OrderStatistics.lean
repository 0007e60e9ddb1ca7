import DiceTower.Notation.Clamp
import DiceTower.Odds.Faces

/-! Averages of the dice of a pool by rank. The die of a rank shows at most a given face when more
dice than the rank do, which is a tail of a binomial law. -/

namespace DiceTower

variable {α : Type} [Chance α]

open Chance

def binomials : Nat → List Nat
  | 0 => [1]
  | n + 1 => List.zipWith (· + ·) (0 :: binomials n) (binomials n ++ [0])

/-- Whether the numbers of ways to choose from `n` things are within range, from choosing `k` on as
many more as the last argument says; `ways` is the first of them. -/
def waysHeld (α : Type) [Chance α] (n k ways : Nat) : Nat → Bool
  | 0 => holds α ways
  | more + 1 => holds α ways && waysHeld α n (k + 1) (ways * (n - k) / (k + 1)) more

/-- The chances that exactly so many of the dice show at most a face, from none to all, when one die
does with the given chance. -/
def atMostLaw (ways : List Nat) (n : Nat) (chance : α) : List α :=
  ways.zipIdx.map fun (w, k) => ofInt w * pow chance k * pow (one - chance) (n - k)

/-- The sums of the ends of a list, the longest first, each taken from the right. -/
def tails : List α → List α
  | [] => []
  | x :: xs => match tails xs with
    | [] => [zero + x]
    | t :: ts => (t + x) :: t :: ts

/-- What is known after some faces: the chance of all of them, the chances that the dice of the
wanted ranks show one of them, and the sum so far. -/
structure Sweep (α : Type) where
  cumulative : α
  previous : List α
  sum : α

def Sweep.step (ways : List Nat) (n : Nat) (ranks : List Int) (low high : Option Int)
    (s : Sweep α) (face : Int × α) : Sweep α :=
  let cumulative := lesser one (s.cumulative + face.2)
  let chances := tails (atMostLaw ways n cumulative)
  let atMost := ranks.map fun r => chances.getD (r + 1).toNat zero
  let shown := ofInt (clamp low high face.1)
  ⟨cumulative, atMost,
    (List.zipWith (· - ·) atMost s.previous).foldl (fun sum p => sum + shown * p) s.sum⟩

/-- The sum, over the ranks, of the average of the clamped die of that rank among `n` dice. -/
def orderStatisticMeans (law : Law α) (n : Nat) (ranks : List Int) (low high : Option Int) : α :=
  (law.foldl (Sweep.step (binomials n) n ranks low high) ⟨zero, ranks.map fun _ => zero, zero⟩).sum

theorem length_binomials (n : Nat) : (binomials n).length = n + 1 := by
  induction n with
  | zero => rfl
  | succ n ih => simp [binomials, ih]

end DiceTower

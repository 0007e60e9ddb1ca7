import DiceTower.Modifier.Basic

/-! One modifier of each key. Of modifiers that do not stack and share a key the one of lowest
priority number counts, the earliest of several; then all are ordered by priority. -/

namespace DiceTower

namespace Modifier

/-- A modifier takes the place of the one of its key if its priority number is lower. -/
def place (m : Modifier) : List Modifier → List Modifier
  | [] => [m]
  | n :: kept =>
    if n.key = m.key then (if m.priority < n.priority then m else n) :: kept
    else n :: place m kept

/-- The best modifier of each key, in the order in which the keys first occur. -/
def best (ms : List Modifier) : List Modifier := ms.foldl (fun kept m => place m kept) []

/-- The modifiers in order of priority, those that stack before the others among equals. -/
def collapse (ms : List Modifier) : List Modifier :=
  (ms.filter (·.cumulative) ++ best (ms.filter (!·.cumulative))).mergeSort
    fun m n => decide (m.priority ≤ n.priority)

end Modifier

end DiceTower

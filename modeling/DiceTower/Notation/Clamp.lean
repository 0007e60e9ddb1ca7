import DiceTower.Notation.Basic

/-! Bounds on the face of a die. -/

namespace DiceTower

/-- Order of operands; a number and a list of faces cannot be compared. -/
def Operand.lt? : Operand → Operand → Option Bool
  | .one a, .one b => some (a < b)
  | .many as, .many bs => some (decide (as < bs))
  | _, _ => none

/-- The first of the greatest operands, if all can be compared. -/
def Operand.greatest? (first : Operand) (others : List Operand) : Option Operand :=
  others.foldlM (fun best o => (Operand.lt? best o).map fun b => if b then o else best) first

def Operand.least? (first : Operand) (others : List Operand) : Option Operand :=
  others.foldlM (fun best o => (Operand.lt? o best).map fun b => if b then o else best) first

def operandsOf (kind : OperationKind) (ops : List Operation) : List Operand :=
  (ops.filter (·.kind = kind)).map (·.operand)

/-- Whether no minimum on a pool is above a maximum on it, where the bounds can be compared. -/
def clampsAgree? (ops : List Operation) : Option Bool :=
  match operandsOf .minimum ops, operandsOf .maximum ops with
  | f :: floors, c :: ceilings => do
    let floor ← Operand.greatest? f floors
    let ceiling ← Operand.least? c ceilings
    (Operand.lt? ceiling floor).map (!·)
  | _, _ => some true

/-- A number brought within bounds, the upper one deciding if they cross. -/
def clamp (low high : Option Int) (n : Int) : Int :=
  let n := match low with
    | some l => max n l
    | none => n
  match high with
    | some h => min n h
    | none => n

theorem clamp_le {low : Option Int} {h n : Int} : clamp low (some h) n ≤ h := by
  cases low <;> simp only [clamp] <;> omega

theorem le_clamp {l n : Int} : l ≤ clamp (some l) none n := by
  simp only [clamp]; omega

end DiceTower

import DiceTower.Dice.Roller
import DiceTower.Proofs.Play.Drawing

/-! One operation on a pool, apart from the record that is kept of it. -/

namespace DiceTower

open DiceTower.Computation Drawing

variable {σ : Type} [Source σ]

/-- What an operation makes of some dice: the dice after it, those that it changed, and whether the
cap stopped it. -/
def Operation.apply (deadline : Option Float) (cap : Int) (op : Operation) (dice : List Die) :
    Drawing σ (List Die × List Nat × Bool) :=
  match op.kind with
  | .reroll => do
    let r ← rerollAll deadline cap op dice
    pure (r.1, r.2, false)
  | .explode => explodeAll deadline cap op dice
  | .minimum | .maximum => do
    let r ← (boundAll op dice : Except Fault (List Die × List Nat))
    pure (r.1, r.2, false)
  | kind => do
    let n ← (op.operand.number : Except Fault Int)
    pure ((select kind n dice).1, (select kind n dice).2, false)

def Progress.record (cap : Int) (p : Progress) (op : Operation)
    (r : List Die × List Nat × Bool) : Drawing σ Progress := do
  if r.2.2 then
    note ⟨.info, .dice, "Exploding roll hit the " ++ Number.wholeText cap ++ " dice cap"⟩
  pure {
    dice := r.1
    operations := p.operations ++ [⟨op.kind, op.operand, p.dice.map (·.value),
      r.1.map (·.value), r.2.1, op.description⟩]
    notes := p.notes ++
      if r.2.2 then ["Explosions stopped at the " ++ Number.wholeText cap ++ " dice cap"] else [] }

theorem Progress.step_eq (deadline : Option Float) (cap : Int) (p : Progress) (op : Operation) :
    (p.step deadline cap op : Drawing σ Progress) =
      op.apply deadline cap p.dice >>= p.record cap op := by
  obtain ⟨kind, operand, recursive⟩ := op
  unfold step Operation.apply
  cases kind <;> simp only [bind_assoc, pure_bind] <;> rfl

end DiceTower

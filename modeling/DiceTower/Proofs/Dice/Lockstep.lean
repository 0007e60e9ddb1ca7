import DiceTower.Proofs.Dice.Operations
import DiceTower.Proofs.Play.Lockstep

/-! Pools rolled from the same source: what the dice show depends on nothing but the pool. -/

namespace DiceTower

open DiceTower.Computation Drawing

variable {σ : Type} [Source σ] {strict : Prop} {deadline deadline' : Option Float}

theorem inStep_redraw (h : strict → deadline = deadline') (sides : Int) (targets : List Int)
    (n : Nat) : InStep strict (Tray.Mirrors strict) Eq
      (redraw deadline sides targets n : Drawing σ (List Int))
      (redraw deadline' sides targets n) := by
  induction n with
  | zero => exact .of_pure rfl
  | succ n ih =>
    refine (inStep_draw h sides).bind_eq fun face => ?_
    exact .ite (ih.bind_eq fun _ => .of_pure rfl) (.of_pure rfl)

theorem Die.inStep_reroll (h : strict → deadline = deadline') (targets : List Int)
    (attempts : Nat) (d : Die) : InStep strict (Tray.Mirrors strict) Eq
      (d.reroll deadline targets attempts : Drawing σ Die)
      (d.reroll deadline' targets attempts) :=
  .ite ((inStep_redraw h ..).bind_eq fun _ => .of_pure rfl) (.of_pure rfl)

theorem inStep_explosions (h : strict → deadline = deadline') (threshold : Int) (room next : Nat)
    (queue : List Die) : InStep strict (Tray.Mirrors strict) Eq
      (explosions deadline threshold room next queue : Drawing σ (List Die × Bool))
      (explosions deadline' threshold room next queue) := by
  induction room, next, queue using explosions.induct threshold with
  | case1 =>
    unfold explosions
    exact .of_pure rfl
  | case2 _ _ _ hd =>
    unfold explosions
    rw [if_pos hd, if_pos hd]
    exact .of_pure rfl
  | case3 _ _ _ hd _ ih =>
    unfold explosions
    rw [if_pos hd, if_pos hd]
    exact (inStep_draw h _).bind_eq fun face => (ih face).bind_eq fun _ => .of_pure rfl
  | case4 _ _ _ _ hd ih =>
    unfold explosions
    rw [if_neg hd, if_neg hd]
    exact ih

theorem inStep_rerollAll (h : strict → deadline = deadline') (cap : Int) (op : Operation)
    (dice : List Die) : InStep strict (Tray.Mirrors strict) Eq
      (rerollAll deadline cap op dice : Drawing σ (List Die × List Nat))
      (rerollAll deadline' cap op dice) :=
  (InStep.mapM_eq fun d => d.inStep_reroll h ..).bind_eq fun _ => .of_pure rfl

theorem inStep_explodeAll (h : strict → deadline = deadline') (cap : Int) (op : Operation)
    (dice : List Die) : InStep strict (Tray.Mirrors strict) Eq
      (explodeAll deadline cap op dice : Drawing σ (List Die × List Nat × Bool))
      (explodeAll deadline' cap op dice) :=
  .ite (.of_pure rfl) <| (InStep.of_lift op.operand.number).bind_eq fun _ =>
    (inStep_explosions h ..).bind_eq fun _ => .of_pure rfl

theorem Operation.inStep_apply (h : strict → deadline = deadline') (cap : Int) (op : Operation)
    (dice : List Die) : InStep strict (Tray.Mirrors strict) Eq
      (op.apply deadline cap dice : Drawing σ (List Die × List Nat × Bool))
      (op.apply deadline' cap dice) := by
  unfold apply
  split
  · exact (inStep_rerollAll h ..).bind_eq fun _ => .of_pure rfl
  · exact inStep_explodeAll h ..
  · exact (InStep.of_lift _).bind_eq fun _ => .of_pure rfl
  · exact (InStep.of_lift _).bind_eq fun _ => .of_pure rfl
  · exact (InStep.of_lift _).bind_eq fun _ => .of_pure rfl

theorem Progress.inStep_step (h : strict → deadline = deadline') (cap : Int) (p : Progress)
    (op : Operation) : InStep strict (Tray.Mirrors strict) Eq
      (p.step deadline cap op : Drawing σ Progress) (p.step deadline' cap op) := by
  rw [step_eq, step_eq]
  refine (op.inStep_apply h ..).bind_eq fun r => ?_
  exact .ite ((inStep_note _ _).bind_eq fun _ => .of_pure rfl) (.of_pure rfl)

theorem inStep_rollDice (h : strict → deadline = deadline') (sides : Int) (next n : Nat) :
    InStep strict (Tray.Mirrors strict) Eq (rollDice deadline sides next n : Drawing σ (List Die))
      (rollDice deadline' sides next n) := by
  induction n generalizing next with
  | zero => exact .of_pure rfl
  | succ n ih => exact (inStep_draw h _).bind_eq fun _ => (ih _).bind_eq fun _ => .of_pure rfl

/-- Rolls of one pool that differ at most in how the pool and the roll are called. -/
structure Roll.Agrees (r r' : Roll) : Prop where
  pool : r.term.pool = r'.term.pool
  dice : r.dice = r'.dice
  notes : r.notes = r'.notes

theorem Term.inStep_roll (h : strict → deadline = deadline') (cap : Int)
    (label label' : Option String) {t t' : Term} (hp : t.pool = t'.pool) :
    InStep strict (Tray.Mirrors strict) Roll.Agrees (t.roll deadline cap label : Drawing σ Roll)
      (t'.roll deadline' cap label') := by
  unfold roll
  rw [← hp]
  refine (inStep_rollDice h ..).bind_eq fun dice => ?_
  refine (InStep.foldlM_eq (fun p op => p.inStep_step h cap op) _).bind_eq fun p => ?_
  exact .of_pure ⟨hp, rfl, rfl⟩

namespace Roll.Agrees

variable {r r' : Roll} (h : r.Agrees r')

include h

theorem total_eq : r.total = r'.total := by
  unfold total kept
  rw [h.dice, h.pool]

end Roll.Agrees

end DiceTower

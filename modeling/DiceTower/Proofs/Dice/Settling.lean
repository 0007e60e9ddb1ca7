import DiceTower.Proofs.Dice.Rolling

/-! Selections and bounds draw no dice and cannot fail, so that a run of them is a plain function of
the dice. -/

namespace DiceTower

open DiceTower.Computation Drawing

/-- Operations that leave dice out or bound their faces. -/
def OperationKind.settles (kind : OperationKind) : Bool := kind.selects || kind.clamps

def Operation.settle (op : Operation) (dice : List Die) : List Die :=
  if op.kind.selects then (select op.kind op.number dice).1 else (bound op.kind op.number dice).1

def settled (ops : List Operation) (dice : List Die) : List Die :=
  ops.foldl (fun dice op => op.settle dice) dice

theorem settled_cons (op : Operation) (ops : List Operation) (dice : List Die) :
    settled (op :: ops) dice = settled ops (op.settle dice) := rfl

theorem Operation.settle_of_selects {op : Operation} (h : op.kind.selects = true)
    (dice : List Die) : op.settle dice = (select op.kind op.number dice).1 := if_pos h

theorem Operation.settle_of_clamps {op : Operation} (h : op.kind.clamps = true) (dice : List Die) :
    op.settle dice = (bound op.kind op.number dice).1 := by
  have hs : op.kind.selects = false := by
    cases hk : op.kind <;> simp_all [OperationKind.selects, OperationKind.clamps]
  simp [settle, hs]

theorem bound_of_all_dropped (kind : OperationKind) (n : Int) {dice : List Die}
    (h : dice.all (·.dropped) = true) : bound kind n dice = (dice, []) := by
  have hnone : ∀ d ∈ dice, d.exceeds kind n = false := by
    intro d hd
    have hdropped := List.all_eq_true.mp h d hd
    simp [Die.exceeds, hdropped]
  have hsame : (dice.map fun d => if d.exceeds kind n
      then { d with value := bounded kind n d.value, clamped := true } else d) = dice := by
    rw [List.map_congr_left (g := id) fun d hd => by simp [hnone d hd], List.map_id]
  have hempty : dice.filter (·.exceeds kind n) = [] :=
    List.filter_eq_nil_iff.mpr fun d hd => by simp [hnone d hd]
  rw [bound, hsame, hempty, List.map_nil]

theorem boundAll_eq {op : Operation} (h : op.Positive) (dice : List Die) :
    boundAll op dice = .ok (bound op.kind op.number dice) := by
  unfold boundAll
  split
  · next hd => rw [bound_of_all_dropped _ _ hd]
  · rw [h.operand.1]
    rfl

theorem map_thrown_select (kind : OperationKind) (n : Int) (dice : List Die) :
    (select kind n dice).1.map Die.thrown = dice.map Die.thrown := by
  unfold select
  dsimp only
  rw [List.map_map]
  refine List.map_congr_left fun d _ => ?_
  simp only [Function.comp]
  split <;> rfl

theorem map_thrown_bound (kind : OperationKind) (n : Int) (dice : List Die) :
    (bound kind n dice).1.map Die.thrown = dice.map Die.thrown := by
  unfold bound
  dsimp only
  rw [List.map_map]
  refine List.map_congr_left fun d _ => ?_
  simp only [Function.comp]
  split <;> rfl

theorem map_thrown_settled (ops : List Operation) (dice : List Die) :
    (settled ops dice).map Die.thrown = dice.map Die.thrown := by
  induction ops generalizing dice with
  | nil => rfl
  | cons op ops ih =>
    rw [settled_cons, ih]
    unfold Operation.settle
    split
    · exact map_thrown_select _ _ _
    · exact map_thrown_bound _ _ _

variable {σ : Type} [Source σ] (deadline : Option Float) (cap : Int)

theorem Operation.exists_apply_of_settles {op : Operation} (h : op.Positive)
    (hk : op.kind.settles = true) (dice : List Die) : ∃ affected,
      (op.apply deadline cap dice : Drawing σ (List Die × List Nat × Bool)) =
        pure (op.settle dice, affected, false) := by
  have hb := boundAll_eq h dice
  unfold apply settle
  rw [hb, h.operand.1]
  cases hkind : op.kind <;> rw [hkind] at hk <;> first | exact ⟨_, rfl⟩ | cases hk

theorem Progress.exists_step_of_settles {op : Operation} (h : op.Positive)
    (hk : op.kind.settles = true) (p : Progress) : ∃ record : AppliedOperation,
      record.kind = op.kind ∧ (p.step deadline cap op : Drawing σ Progress) = pure {
        dice := op.settle p.dice, operations := p.operations ++ [record], notes := p.notes } := by
  obtain ⟨affected, ha⟩ := Operation.exists_apply_of_settles (σ := σ) deadline cap h hk p.dice
  refine ⟨⟨op.kind, op.operand, p.dice.map (·.value), (op.settle p.dice).map (·.value), affected,
    op.description⟩, rfl, ?_⟩
  rw [step_eq, ha, pure_bind]
  simp only [record, Bool.false_eq_true, if_false, List.append_nil]

theorem Progress.exists_foldlM_step_of_settles {ops : List Operation}
    (h : ∀ op ∈ ops, op.Positive) (hk : ∀ op ∈ ops, op.kind.settles = true) (p : Progress) :
    ∃ records : List AppliedOperation, records.map (·.kind) = ops.map (·.kind) ∧
      (ops.foldlM (step deadline cap) p : Drawing σ Progress) = pure {
        dice := settled ops p.dice, operations := p.operations ++ records, notes := p.notes } := by
  induction ops generalizing p with
  | nil => exact ⟨[], rfl, by simp [settled]⟩
  | cons op ops ih =>
    obtain ⟨hop, hops⟩ := List.forall_mem_cons.mp h
    obtain ⟨hkind, hks⟩ := List.forall_mem_cons.mp hk
    obtain ⟨record, hr, hstep⟩ := p.exists_step_of_settles (σ := σ) deadline cap hop hkind
    obtain ⟨records, hrs, hrun⟩ := ih hops hks
      ⟨op.settle p.dice, p.operations ++ [record], p.notes⟩
    refine ⟨record :: records, by rw [List.map_cons, List.map_cons, hr, hrs], ?_⟩
    rw [List.foldlM_cons, hstep, pure_bind, hrun, settled_cons, List.append_assoc]
    rfl

end DiceTower

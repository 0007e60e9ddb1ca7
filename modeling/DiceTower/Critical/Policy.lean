import DiceTower.Critical.Rules
import DiceTower.Modifier.Basic
import DiceTower.Notation.Reading

/-! Which rolls are critical and what becomes of damage then. -/

namespace DiceTower

def insertFace (n : Int) : List Int → List Int
  | [] => [n]
  | m :: ms => if n < m then n :: m :: ms else if n = m then m :: ms else m :: insertFace n ms

def sortedFaces (ns : List Int) : List Int := ns.foldr insertFace []

def facesUpToTwenty (low : Int) : List Int :=
  (List.range (21 - low).toNat).map fun (i : Nat) => low + i

/-- The natural rolls that are critical hits: those of the rules, and with a modifier all from its
amount on. -/
def criticalRange (rules : CriticalRules) (modifiers : List Modifier) : Except Fault (List Int) := do
  let widened ← (modifiers.filter (·.kind = .critRange)).mapM fun m =>
    m.amount.truncated.map facesUpToTwenty
  .ok (sortedFaces (rules.range ++ widened.flatten))

/-- Without a natural roll nothing is critical. -/
def isCritical (natural : Option Int) (faces : List Int) : Bool := natural.any faces.contains

def isCriticalFailure (natural : Option Int) (rules : CriticalRules) : Bool :=
  natural.any rules.failureRange.contains

/-- Twice a number; twice a list of faces is the list and itself again. -/
def Operand.doubled : Operand → Operand
  | one n => .one (n * 2)
  | many ns => .many (ns ++ ns)

/-- Numbers of dice kept or dropped grow with the pool. -/
def Operation.doubled (op : Operation) : Operation :=
  if op.kind.selects then { op with operand := op.operand.doubled } else op

def Pool.critical (rules : CriticalRules) (p : Pool) : Pool :=
  match rules.strategy with
  | .maxBaseDice => { p with modifier := p.modifier + p.count * p.sides }
  | strategy =>
    { p with
      count := p.count * 2
      operations := p.operations.map Operation.doubled
      modifier :=
        if strategy = .doubleTotal ∧ rules.affected ≠ .excludeModifiers then p.modifier * 2
        else p.modifier }

/-- A term as it is rolled on a critical hit; numbers stay as they are. -/
def Term.critical (rules : CriticalRules) (t : Term) : Term :=
  if t.pool.isFlat then t else .ofPool (t.pool.critical rules)

/-- Dice whose label does not make them a roll of a twenty-sided die. -/
def Segment.isDamage (s : Segment) : Bool :=
  match s.label.bind RollType.ofLabel? with
  | some kind => !kind.isD20 && !s.term.pool.isFlat
  | none => !s.term.pool.isFlat

/-- Segments as they are rolled on a critical hit. If only the weapon is affected, that is the first
segment of damage; `done` tells that it has passed. -/
def criticalSegments (rules : CriticalRules) (done : Bool) : List Segment → List Segment
  | [] => []
  | s :: segments =>
    if s.isDamage && !(done && rules.affected == .weaponOnly) then
      { s with term := s.term.critical rules } :: criticalSegments rules true segments
    else s :: criticalSegments rules done segments

def Formula.critical (rules : CriticalRules) (f : Formula) : Formula :=
  .ofSegments (criticalSegments rules false f.segments)

def criticalText (limits : Limits) (rules : CriticalRules) (text : String) :
    Except Fault String :=
  (Formula.parse limits text).map fun f => (f.critical rules).written

theorem length_criticalSegments (rules : CriticalRules) (done : Bool) (segments : List Segment) :
    (criticalSegments rules done segments).length = segments.length := by
  induction segments generalizing done with
  | nil => rfl
  | cons s segments ih =>
    unfold criticalSegments
    split <;> simp [ih]

theorem Operation.kind_doubled (op : Operation) : op.doubled.kind = op.kind := by
  cases h : op.kind.selects <;> simp [doubled, h]

theorem Operation.recursive_doubled (op : Operation) : op.doubled.recursive = op.recursive := by
  cases h : op.kind.selects <;> simp [doubled, h]

theorem Operation.doubled_of_not_selects {op : Operation} (h : op.kind.selects = false) :
    op.doubled = op := by
  simp [doubled, h]

/-- One number stays one number, the same or twice as much. -/
theorem Operation.operand_doubled {op : Operation} {n : Int} (h : op.operand = .one n) :
    op.doubled.operand = .one n ∨ op.doubled.operand = .one (n * 2) := by
  cases hs : op.kind.selects <;> simp [doubled, hs, h, Operand.doubled]

section Pool

variable {p : Pool}

theorem Pool.one_le_count_critical (h : 1 ≤ p.count) (rules : CriticalRules) :
    1 ≤ (p.critical rules).count := by
  unfold Pool.critical
  split
  · exact h
  · show 1 ≤ p.count * 2
    omega

theorem Pool.sides_critical (p : Pool) (rules : CriticalRules) :
    (p.critical rules).sides = p.sides := by
  unfold Pool.critical
  split
  · rfl
  · rfl

theorem Pool.operations_critical (p : Pool) (rules : CriticalRules) :
    (p.critical rules).operations = p.operations ∨
      (p.critical rules).operations = p.operations.map Operation.doubled := by
  unfold Pool.critical
  split
  · exact .inl rfl
  · exact .inr rfl

/-- What is kept when an operation is doubled holds of the operations of a critical hit. -/
theorem Pool.forall_mem_operations_critical {P : Operation → Prop}
    (h : ∀ op ∈ p.operations, P op) (hd : ∀ op, P op → P op.doubled) (rules : CriticalRules) :
    ∀ op ∈ (p.critical rules).operations, P op := by
  intro op hop
  rcases p.operations_critical rules with he | he <;> rw [he] at hop
  · exact h op hop
  · obtain ⟨op', hop', rfl⟩ := List.mem_map.mp hop
    exact hd op' (h op' hop')

end Pool

/-- A critical hit leaves the pool of a term as it is or makes a critical one of it. -/
theorem Term.of_critical {P : Pool → Prop} {t : Term} {rules : CriticalRules} (h : P t.pool)
    (hc : P (t.pool.critical rules)) : P (t.critical rules).pool := by
  by_cases hf : t.pool.isFlat = true
  · rwa [Term.critical, if_pos hf]
  · rwa [Term.critical, if_neg hf]

theorem Term.critical_of_isFlat {rules : CriticalRules} {t : Term} (h : t.pool.isFlat = true) :
    t.critical rules = t := by
  simp [Term.critical, h]

end DiceTower

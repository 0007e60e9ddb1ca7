import Mathlib.Order.Lattice
import Mathlib.Data.Int.Order.Basic
import DiceTower.Notation.Clamp

/-! The bounds that a pool sets on the faces of its dice. Where every operand is a number they can
all be compared, and the greatest minimum and the least maximum decide. -/

namespace DiceTower

/-- Operations that are applied with one number each. -/
def Single (ops : List Operation) : Prop := ∀ op ∈ ops, ∃ n, op.operand = .one n

def numbersOf (kind : OperationKind) (ops : List Operation) : List Int :=
  (ops.filter (·.kind = kind)).flatMap (·.operand.values)

def BoundsAgree (ops : List Operation) : Prop :=
  ∀ low ∈ numbersOf .minimum ops, ∀ high ∈ numbersOf .maximum ops, low ≤ high

theorem Single.append {ops ops' : List Operation} (h : Single ops) (h' : Single ops') :
    Single (ops ++ ops') := by
  intro op hop
  rcases List.mem_append.mp hop with hop | hop
  · exact h op hop
  · exact h' op hop

theorem mem_numbersOf {kind : OperationKind} {ops : List Operation} {n : Int} :
    n ∈ numbersOf kind ops ↔ ∃ op ∈ ops, op.kind = kind ∧ n ∈ op.operand.values := by
  simp [numbersOf, and_assoc]

theorem Single.operandsOf_eq {ops : List Operation} (h : Single ops) (kind : OperationKind) :
    operandsOf kind ops = (numbersOf kind ops).map .one := by
  induction ops with
  | nil => rfl
  | cons op ops ih =>
    obtain ⟨n, hn⟩ := h op (by simp)
    have ih := ih fun op hop => h op (by simp [hop])
    simp only [operandsOf, numbersOf] at ih ⊢
    by_cases hk : op.kind = kind
    · simp [hk, hn, ih, Operand.values]
    · simp [hk, ih]

theorem Operand.greatest?_one (n : Int) (ns : List Int) :
    greatest? (.one n) (ns.map .one) = (n :: ns).max?.map .one := by
  induction ns generalizing n with
  | nil => rfl
  | cons m ns ih =>
    have hstep : greatest? (.one n) ((m :: ns).map .one) =
        greatest? (.one (max n m)) (ns.map .one) := by
      by_cases hlt : n < m
      · have hmax : max n m = m := by omega
        simp [greatest?, lt?, hlt, hmax]
      · have hmax : max n m = n := by omega
        simp [greatest?, lt?, hlt, hmax]
    rw [hstep, ih]
    rfl

theorem Operand.least?_one (n : Int) (ns : List Int) :
    least? (.one n) (ns.map .one) = (n :: ns).min?.map .one := by
  induction ns generalizing n with
  | nil => rfl
  | cons m ns ih =>
    have hstep : least? (.one n) ((m :: ns).map .one) =
        least? (.one (min n m)) (ns.map .one) := by
      by_cases hlt : m < n
      · have hmin : min n m = m := by omega
        simp [least?, lt?, hlt, hmin]
      · have hmin : min n m = n := by omega
        simp [least?, lt?, hlt, hmin]
    rw [hstep, ih]
    rfl

theorem Single.clampsAgree?_eq {ops : List Operation} (h : Single ops) :
    (clampsAgree? ops = some true ∧ BoundsAgree ops) ∨
      (clampsAgree? ops = some false ∧ ¬ BoundsAgree ops) := by
  unfold clampsAgree? BoundsAgree
  rw [h.operandsOf_eq, h.operandsOf_eq]
  cases hl : numbersOf .minimum ops with
  | nil => simp
  | cons low lows =>
    cases hh : numbersOf .maximum ops with
    | nil => simp
    | cons high highs =>
      obtain ⟨a, ha⟩ : ∃ a, (low :: lows).max? = some a := ⟨_, rfl⟩
      obtain ⟨b, hb⟩ : ∃ b, (high :: highs).min? = some b := ⟨_, rfl⟩
      have ha' := List.max?_eq_some_iff.mp ha
      have hb' := List.min?_eq_some_iff.mp hb
      simp only [List.map_cons, Operand.greatest?_one, Operand.least?_one, ha, hb,
        Option.map_some, bind, Option.bind, Operand.lt?]
      by_cases hlt : b < a
      · right
        exact ⟨by simp [hlt], fun hall => absurd (hall a ha'.1 b hb'.1) (by omega)⟩
      · left
        exact ⟨by simp [hlt], fun x hx y hy =>
          (ha'.2 x hx).trans ((Int.not_lt.mp hlt).trans (hb'.2 y hy))⟩

theorem Single.clampsAgree?_eq_true_iff {ops : List Operation} (h : Single ops) :
    clampsAgree? ops = some true ↔ BoundsAgree ops := by
  rcases h.clampsAgree?_eq with ⟨hc, hb⟩ | ⟨hc, hb⟩ <;> simp [hc, hb]

theorem Single.clampsAgree?_eq_false_iff {ops : List Operation} (h : Single ops) :
    clampsAgree? ops = some false ↔ ¬ BoundsAgree ops := by
  rcases h.clampsAgree?_eq with ⟨hc, hb⟩ | ⟨hc, hb⟩ <;> simp [hc, hb]

end DiceTower

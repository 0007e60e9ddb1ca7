import DiceTower.Odds.Estimate
import DiceTower.Proofs.Dice.Keeping

/-! Bounds on the faces of a pool. Applied one after another, in any order, they do what the
greatest minimum and the least maximum do together, as long as they agree. -/

namespace DiceTower

def lowestShown (ops : List Operation) : Option Int := (numbersOf .minimum ops).max?

def highestShown (ops : List Operation) : Option Int := (numbersOf .maximum ops).min?

def shown (ops : List Operation) (face : Int) : Int :=
  clamp (lowestShown ops) (highestShown ops) face

theorem clamp_mono {low high : Option Int} {m n : Int} (h : m ≤ n) :
    clamp low high m ≤ clamp low high n := by
  cases low <;> cases high <;> simp only [clamp] <;> omega

theorem shown_mono (ops : List Operation) {m n : Int} (h : m ≤ n) : shown ops m ≤ shown ops n :=
  clamp_mono h

theorem one_le_shown {ops : List Operation} (h : ∀ op ∈ ops, op.Positive) {face : Int}
    (hf : 1 ≤ face) : 1 ≤ shown ops face := by
  have hh : ∀ n, highestShown ops = some n → 1 ≤ n := fun n hn =>
    one_le_of_mem_numbersOf h (List.min?_mem hn)
  unfold shown
  cases hl : lowestShown ops <;> cases hm : highestShown ops <;> simp only [clamp]
  · exact hf
  · have := hh _ hm
    omega
  · omega
  · have := hh _ hm
    omega

theorem numbersOf_cons {op : Operation} (h : op.Positive) (kind : OperationKind)
    (ops : List Operation) :
    numbersOf kind (op :: ops) =
      if op.kind = kind then op.number :: numbersOf kind ops else numbersOf kind ops := by
  obtain ⟨ho, _⟩ := h.operand
  by_cases hk : op.kind = kind
  · rw [if_pos hk, numbersOf, List.filter_cons_of_pos (by simpa using hk), List.flatMap_cons, ho]
    rfl
  · rw [if_neg hk, numbersOf, List.filter_cons_of_neg (by simpa using hk)]
    rfl

theorem shown_cons {op : Operation} {ops : List Operation} (h : op.Positive)
    (hb : BoundsAgree (op :: ops)) (face : Int) :
    shown ops (bounded op.kind op.number face) = shown (op :: ops) face := by
  unfold shown lowestShown highestShown
  rw [numbersOf_cons h, numbersOf_cons h]
  cases hk : op.kind <;> simp only [bounded, if_true, if_false, reduceCtorEq]
  case minimum =>
    rw [List.max?_cons]
    cases (numbersOf .minimum ops).max? <;> cases (numbersOf .maximum ops).min? <;>
      simp only [clamp, Option.elim] <;> omega
  case maximum =>
    have hle : ∀ n, (numbersOf .minimum ops).max? = some n → n ≤ op.number := fun n hn =>
      hb n (by rw [numbersOf_cons h, hk]; exact List.max?_mem hn)
        op.number (by rw [numbersOf_cons h, hk, if_pos rfl]; exact List.mem_cons_self)
    rw [List.min?_cons]
    cases hl : (numbersOf .minimum ops).max? <;> cases (numbersOf .maximum ops).min? <;>
      simp only [clamp, Option.elim]
    · omega
    · have := hle _ hl
      omega
    · have := hle _ hl
      omega

theorem bounded_eq_of_shown_eq {op : Operation} {ops : List Operation} (h : op.Positive)
    (hb : BoundsAgree (op :: ops)) {face : Int} (hs : shown (op :: ops) face = face) :
    bounded op.kind op.number face = face := by
  have hcons := shown_cons h hb face
  rw [hs] at hcons
  have hnumber : ∀ n ∈ numbersOf .maximum ops, op.kind = .minimum → op.number ≤ n := by
    intro n hn hk
    refine hb op.number ?_ n ?_
    · rw [numbersOf_cons h, if_pos hk]
      exact List.mem_cons_self
    · rw [numbersOf_cons h, hk]
      exact hn
  have hnumber' : ∀ n ∈ numbersOf .minimum ops, op.kind = .maximum → n ≤ op.number := by
    intro n hn hk
    refine hb n ?_ op.number ?_
    · rw [numbersOf_cons h, hk]
      exact hn
    · rw [numbersOf_cons h, if_pos hk]
      exact List.mem_cons_self
  unfold shown lowestShown highestShown at hcons
  cases hk : op.kind <;> rw [hk] at hcons <;> simp only [bounded, clamp] at hcons ⊢
  case minimum =>
    have hhigh := fun n hn => hnumber n (List.min?_mem hn) hk
    cases hl : (numbersOf .minimum ops).max? <;> cases hh : (numbersOf .maximum ops).min? <;>
      simp only [hl, hh] at hcons hhigh
    · omega
    · have := hhigh _ rfl
      omega
    · omega
    · have := hhigh _ rfl
      omega
  case maximum =>
    have hlow := fun n hn => hnumber' n (List.max?_mem hn) hk
    cases hl : (numbersOf .minimum ops).max? <;> cases hh : (numbersOf .maximum ops).min? <;>
      simp only [hl, hh] at hcons hlow
    · omega
    · omega
    · have := hlow _ rfl
      omega
    · have := hlow _ rfl
      omega

theorem BoundsAgree.tail {op : Operation} {ops : List Operation} (h : BoundsAgree (op :: ops)) :
    BoundsAgree ops := by
  have hsub (kind : OperationKind) {n : Int} (hn : n ∈ numbersOf kind ops) :
      n ∈ numbersOf kind (op :: ops) := by
    obtain ⟨op', hop, hk, hv⟩ := mem_numbersOf.mp hn
    exact mem_numbersOf.mpr ⟨op', List.mem_cons_of_mem _ hop, hk, hv⟩
  exact fun low hl high hh => h low (hsub _ hl) high (hsub _ hh)

theorem numbersOf_filter {kind : OperationKind} {p : Operation → Bool} {ops : List Operation}
    (h : ∀ op, op.kind = kind → p op = true) :
    numbersOf kind (ops.filter p) = numbersOf kind ops := by
  unfold numbersOf
  rw [List.filter_filter]
  congr 1
  refine List.filter_congr fun op _ => ?_
  by_cases hk : op.kind = kind
  · simp [hk, h op hk]
  · simp [hk]

theorem shown_filter_clamps (ops : List Operation) : shown (ops.filter (·.kind.clamps)) = shown ops := by
  unfold shown lowestShown highestShown
  rw [numbersOf_filter fun op hk => by rw [hk]; rfl, numbersOf_filter fun op hk => by rw [hk]; rfl]

theorem BoundsAgree.filter_clamps {ops : List Operation} (h : BoundsAgree ops) :
    BoundsAgree (ops.filter (·.kind.clamps)) := by
  unfold BoundsAgree
  rw [numbersOf_filter fun op hk => by rw [hk]; rfl, numbersOf_filter fun op hk => by rw [hk]; rfl]
  exact h

/-- The bounds of the estimate are those that the dice are brought within. -/
theorem Bounds.ofOperations_eq {ops : List Operation} (hs : Single ops) :
    Bounds.ofOperations ops =
      .ok ⟨(lowestShown ops).map .one, (highestShown ops).map .one⟩ := by
  unfold Bounds.ofOperations lowestShown highestShown
  rw [hs.operandsOf_eq, hs.operandsOf_eq]
  cases numbersOf .minimum ops with
  | nil =>
    cases numbersOf .maximum ops with
    | nil => rfl
    | cons high highs =>
      simp only [List.map_cons, Operand.least?_one]
      rfl
  | cons low lows =>
    cases numbersOf .maximum ops with
    | nil =>
      simp only [List.map_cons, Operand.greatest?_one]
      rfl
    | cons high highs =>
      simp only [List.map_cons, Operand.greatest?_one, Operand.least?_one]
      rfl

theorem Bounds.numbers_one (low high : Option Int) :
    Bounds.numbers ⟨low.map .one, high.map .one⟩ = .ok (low, high) := by
  cases low <;> cases high <;> rfl

end DiceTower

import DiceTower.Engine.Lines
import DiceTower.Proofs.Dice.Phases

/-! One twenty-sided die, and two of them of which the better or the worse counts: how they are
rolled, and the lines that they write. -/

namespace DiceTower

open DiceTower.Computation Drawing

/-- The one of two dice counts and the other does not, and it is no worse than that, or no better. -/
structure Die.Prevails (better : Bool) (d d' : Die) : Prop where
  counts : d.dropped = false
  dropped : d'.dropped = true
  face : if better then d'.value ≤ d.value else d.value ≤ d'.value

def Die.Paired (better : Bool) (dice : List Die) : Prop :=
  ∃ d d' : Die, dice = [d, d'] ∧ d.sides = 20 ∧ d'.sides = 20 ∧
    (d.Prevails better d' ∨ d'.Prevails better d)

def Operation.keepOne (better : Bool) : Operation :=
  ⟨if better then .keepHighest else .keepLowest, .one 1, false⟩

theorem highestFirst_pair (d d' : Die) :
    highestFirst [d, d'] = if d'.value ≤ d.value then [d, d'] else [d', d] := by
  simp [highestFirst, List.mergeSort, List.merge]

theorem lowestFirst_pair (d d' : Die) :
    lowestFirst [d, d'] = if d.value ≤ d'.value then [d, d'] else [d', d] := by
  simp [lowestFirst, List.mergeSort, List.merge]

theorem exists_leftOut_pair (better : Bool) (d d' : Die) :
    ∃ out, leftOut (Operation.keepOne better).kind 1 [d, d'] = [out] ∧
      (out = d' ∧ (if better then d'.value ≤ d.value else d.value ≤ d'.value) ∨
        out = d ∧ if better then d.value ≤ d'.value else d'.value ≤ d.value) := by
  cases better with
  | true =>
    simp only [Operation.keepOne, leftOut, if_true, highestFirst_pair]
    split
    · next h => exact ⟨d', rfl, .inl ⟨rfl, h⟩⟩
    · next h => exact ⟨d, rfl, .inr ⟨rfl, by omega⟩⟩
  | false =>
    simp only [Operation.keepOne, leftOut, Bool.false_eq_true, if_false, lowestFirst_pair]
    split
    · next h => exact ⟨d', rfl, .inl ⟨rfl, h⟩⟩
    · next h => exact ⟨d, rfl, .inr ⟨rfl, by omega⟩⟩

theorem paired_select (better : Bool) (a b : Int) : Die.Paired better
    (select (Operation.keepOne better).kind 1 [Die.ofFace 0 20 a, Die.ofFace 1 20 b]).1 := by
  obtain ⟨out, hout, h⟩ := exists_leftOut_pair better (Die.ofFace 0 20 a) (Die.ofFace 1 20 b)
  have hlying : [Die.ofFace 0 20 a, Die.ofFace 1 20 b].filter (!·.dropped) =
      [Die.ofFace 0 20 a, Die.ofFace 1 20 b] := rfl
  unfold select
  rw [hlying, hout]
  rcases h with ⟨rfl, hface⟩ | ⟨rfl, hface⟩
  · exact ⟨Die.ofFace 0 20 a, { Die.ofFace 1 20 b with dropped := true }, rfl, rfl, rfl,
      .inl ⟨rfl, rfl, hface⟩⟩
  · exact ⟨{ Die.ofFace 0 20 a with dropped := true }, Die.ofFace 1 20 b, rfl, rfl, rfl,
      .inr ⟨rfl, rfl, hface⟩⟩

section Rolls

variable {σ : Type} [Source σ] {deadline : Option Float} {cap n : Int} {label : Option String}
  {t : Term}

theorem Term.gives_roll_one (h : t.pool = ⟨1, 20, n, []⟩) :
    Gives (t.roll deadline cap label : Drawing σ Roll) fun r => r.term = t ∧
      ∃ d, r.dice = [d] ∧ d.sides = 20 ∧ d.dropped = false := by
  unfold roll
  rw [h]
  refine Gives.bind (P := fun dice => ∃ d : Die, dice = [d] ∧ d.sides = 20 ∧ d.dropped = false)
    ?_ fun dice hdice => .of_pure ⟨rfl, hdice⟩
  exact (Gives.trivial _).bind fun face _ => .of_pure ⟨_, rfl, rfl, rfl⟩

theorem Term.gives_roll_two {better : Bool} (h : t.pool = ⟨2, 20, n, [.keepOne better]⟩) :
    Gives (t.roll deadline cap label : Drawing σ Roll) fun r =>
      r.term = t ∧ Die.Paired better r.dice := by
  have hphases : Pool.phases ⟨2, 20, n, [.keepOne better]⟩ = [.keepOne better] := by
    cases better <;> rfl
  unfold roll
  rw [h, hphases]
  refine Gives.bind (P := fun dice => ∃ a b, dice = [Die.ofFace 0 20 a, Die.ofFace 1 20 b]) ?_ ?_
  · refine (Gives.trivial _).bind fun a _ => ?_
    refine Gives.bind (P := fun dice => ∃ b, dice = [Die.ofFace 1 20 b]) ?_ ?_
    · exact (Gives.trivial _).bind fun b _ => .of_pure ⟨b, rfl⟩
    · rintro _ ⟨b, rfl⟩
      exact .of_pure ⟨a, b, rfl⟩
  · rintro _ ⟨a, b, rfl⟩
    have hselect := paired_select better a b
    rw [List.foldlM_cons]
    refine Gives.bind (P := fun p => Die.Paired better p.dice) ?_ fun p hp => .of_pure ⟨rfl, hp⟩
    refine (Progress.gives_step (P := Die.Paired better) ?_).bind fun p hp => .of_pure hp
    cases better <;> exact .of_pure hselect

end Rolls

section Lines

/-- A line of a die of the notation itself; dice that modifiers add name what they come from. -/
def Item.isOwnDie (i : Item) : Bool := i.kind == .die && i.origin == none

structure Item.Prevails (better : Bool) (i j : Item) : Prop where
  counts : i.dropped = false
  dropped : j.dropped = true
  face : if better then j.value ≤ i.value else i.value ≤ j.value

theorem Die.Prevails.lines {better : Bool} {d d' : Die} {i j : Item} (h : d.Prevails better d')
    (hi : i.value = d.value ∧ i.dropped = d.dropped)
    (hj : j.value = d'.value ∧ j.dropped = d'.dropped) : i.Prevails better j := by
  refine ⟨hi.2.trans h.counts, hj.2.trans h.dropped, ?_⟩
  rw [hi.1, hj.1]
  exact h.face

theorem Die.exists_own_line (d : Die) : ∃ i, (d.items none).filter Item.isOwnDie = [i] ∧
    i.sides = some d.sides ∧ i.value = d.value ∧ i.dropped = d.dropped := by
  have hrerolls (faces : List Int) (f : Int → Item) (hf : ∀ face, (f face).kind = .reroll) :
      (faces.map f).filter Item.isOwnDie = [] := by
    rw [List.filter_eq_nil_iff]
    intro i hi
    obtain ⟨face, _, rfl⟩ := List.mem_map.mp hi
    simp [Item.isOwnDie, hf]
  unfold items
  rw [List.filter_append, hrerolls _ _ fun _ => rfl]
  exact ⟨_, rfl, rfl, rfl, rfl⟩

theorem Roll.not_isOwnDie_of_origin (r : Roll) (name : String) :
    ∀ i ∈ r.items (some name), i.isOwnDie = false := by
  intro i hi
  unfold items at hi
  split at hi
  · obtain rfl := List.mem_singleton.mp hi
    rfl
  · rcases List.mem_append.mp hi with hi | hi
    · obtain ⟨d, _, hi⟩ := List.mem_flatMap.mp hi
      unfold Die.items at hi
      rcases List.mem_append.mp hi with hi | hi
      · obtain ⟨face, _, rfl⟩ := List.mem_map.mp hi
        rfl
      · obtain rfl := List.mem_singleton.mp hi
        rfl
    · split at hi
      · cases hi
      · obtain rfl := List.mem_singleton.mp hi
        rfl

theorem Roll.filter_items {r : Roll} (h : r.term.pool.isFlat = false) :
    (r.items none).filter Item.isOwnDie = r.dice.flatMap fun d =>
      (d.items none).filter Item.isOwnDie := by
  unfold items
  rw [if_neg (by simp [h]), List.filter_append, List.filter_flatMap]
  split <;> simp [Item.isOwnDie]

end Lines

end DiceTower

import Mathlib.Tactic.Linarith
import DiceTower.Proofs.Dice.Phases
import DiceTower.Proofs.Odds.Estimate

/-! Every total of a pool lies within its estimate. -/

namespace DiceTower

open DiceTower.Computation Drawing

variable {σ : Type} [Source σ] {deadline : Option Float} {cap : Int}

theorem Pool.Orderly.size_of_grown {p : Pool} (h : p.Orderly) {n : Nat}
    (hg : Grown cap (p.operations.filter fun op => !op.kind.selects && !op.kind.clamps)
      p.count.toNat n) :
    (p.fewest cap).toNat ≤ n ∧ n ≤ (p.most cap).toNat := by
  have hc := h.count
  have hl := hg.least
  have hm := hg.most
  unfold Pool.fewest Pool.fewestFrom Pool.most
  cases hf : p.operations.find? (·.kind = .explode) with
  | none =>
    have hs := hg.same fun op hop hk => by
      simpa [hk] using List.find?_eq_none.mp hf op (List.mem_filter.mp hop).1
    dsimp only
    omega
  | some op =>
    have hk : op.kind = .explode := by simpa using List.find?_some hf
    have hmem : op ∈ p.operations.filter fun op => !op.kind.selects && !op.kind.clamps :=
      List.mem_filter.mpr ⟨List.mem_of_find?_eq_some hf, by rw [hk]; rfl⟩
    dsimp only
    refine ⟨?_, by omega⟩
    split
    · next ht =>
      have := hg.full (by omega) ⟨op, hmem, hk, ht⟩
      omega
    · omega

/-- What dice of a pool show: as many faces as its operations keep of a size, each one of the die
brought within the bounds. -/
structure Pool.Shows (p : Pool) (size : Nat) (rolled : List Int) (dice : List Die) : Prop where
  length : rolled.length = sizeKept p.operations size
  face : ∀ face ∈ rolled, 1 ≤ face ∧ face ≤ p.sides
  shown : faces dice = rolled.map (shown p.operations)

theorem Term.gives_shows {t : Term} (h : t.pool.Orderly) (label : Option String) :
    Gives (t.roll deadline cap label : Drawing σ Roll) fun r => r.term = t ∧
      ∃ size rolled, (t.pool.fewest cap).toNat ≤ size ∧ size ≤ (t.pool.most cap).toNat ∧
        t.pool.Shows size rolled r.dice := by
  obtain ⟨records, -, hroll⟩ :=
    Term.exists_roll_eq (σ := σ) h.operations h.compatible.bounds deadline cap label
  rw [hroll]
  refine t.pool.gives_grow.bind fun p ⟨hthrown, hgrown⟩ => ?_
  obtain ⟨hlow, hhigh⟩ := h.size_of_grown hgrown
  have hcounted := hthrown.lying.counted.settled
    (fun op hop => h.operations op (List.mem_filter.mp hop).1) fun op hop =>
      (List.mem_filter.mp hop).2
  rw [sizeKept_filter_selects] at hcounted
  generalize hchosen : settled (t.pool.operations.filter (·.kind.selects)) p.dice = chosen at hcounted
  refine .of_pure ⟨rfl, p.dice.length, faces chosen, hlow, hhigh, ?_, fun face hface => ?_, ?_⟩
  · rw [faces, List.length_map, hcounted.size]
  · obtain ⟨d, hd, rfl⟩ := List.mem_map.mp hface
    exact hcounted.face d hd
  · unfold Pool.settle
    rw [hchosen, faces_map_within]

structure Range.Contains {α : Type} (r : Range α) (n : Int) : Prop where
  min : r.min ≤ n
  max : n ≤ r.max

theorem sum_bounds {ns : List Int} {low high : Int} (h : ∀ n ∈ ns, low ≤ n ∧ n ≤ high) :
    ns.length * low ≤ Number.sum ns ∧ Number.sum ns ≤ ns.length * high := by
  induction ns with
  | nil => simp [Number.sum]
  | cons n ns ih =>
    obtain ⟨hl, hh⟩ := ih fun n hn => h n (by simp [hn])
    obtain ⟨hl', hh'⟩ := h n (by simp)
    rw [Number.sum_cons, List.length_cons]
    push_cast
    constructor <;> linarith

theorem sum_faces_bounds {ops : List Operation} {size fewest most : Nat} {rolled : List Int}
    {low high : Int} (hlength : rolled.length = sizeKept ops size)
    (hfewest : sizeKept ops fewest ≤ sizeKept ops size) (hmost : size ≤ most)
    (hf : ∀ face ∈ rolled, shown ops low ≤ shown ops face ∧ shown ops face ≤ shown ops high)
    (hlow : 1 ≤ shown ops low) (hhigh : 1 ≤ shown ops high) :
    sizeKept ops fewest * shown ops low ≤ Number.sum (rolled.map (shown ops)) ∧
      Number.sum (rolled.map (shown ops)) ≤ sizeKept ops most * shown ops high := by
  have hbetween : ∀ n ∈ rolled.map (shown ops), shown ops low ≤ n ∧ n ≤ shown ops high := by
    intro n hn
    obtain ⟨face, hface, rfl⟩ := List.mem_map.mp hn
    exact hf face hface
  obtain ⟨hmin, hmax⟩ := sum_bounds hbetween
  rw [List.length_map, hlength] at hmin hmax
  have hk : (sizeKept ops fewest : Int) ≤ sizeKept ops size := by exact_mod_cast hfewest
  have hk' : (sizeKept ops size : Int) ≤ sizeKept ops most := by
    exact_mod_cast sizeKept_mono ops hmost
  have := mul_le_mul_of_nonneg_right hk (by omega : 0 ≤ shown ops low)
  have := mul_le_mul_of_nonneg_right hk' (by omega : 0 ≤ shown ops high)
  constructor <;> omega

theorem Pool.Spans.contains {p : Pool} (h : p.Sound) {r : Range ℚ} (hr : p.Spans cap r) {size : Nat}
    {rolled : List Int} {dice : List Die} (hlow : (p.fewest cap).toNat ≤ size)
    (hhigh : size ≤ (p.most cap).toNat) (hs : p.Shows size rolled dice) :
    r.Contains (Number.sum (faces dice) + p.modifier) := by
  have hpos := h.orderly.operations
  obtain ⟨hmin, hmax⟩ := sum_faces_bounds hs.length (sizeKept_mono _ hlow) hhigh
    (fun face hface => ⟨shown_mono _ (hs.face face hface).1, shown_mono _ (hs.face face hface).2⟩)
    (one_le_shown hpos le_rfl) (one_le_shown hpos h.sides)
  rw [← hs.shown] at hmin hmax
  constructor
  · rw [hr.min]
    omega
  · rw [hr.max]
    omega

/-- Whatever the source shows, the total of a roll lies within the estimate of its pool. -/
theorem Term.gives_total_within_estimate {t : Term} (h : t.pool.Sound) (label : Option String) :
    Gives (t.roll deadline cap label : Drawing σ Roll) fun r => r.term = t ∧
      Foretells (Fault.OfMemory (t.pool.Crowded cap)) (fun range => range.Contains r.total)
        (estimate t.pool cap : Except Fault (Range ℚ)) := by
  refine (t.gives_shows h.orderly label).mono ?_
  rintro r ⟨rfl, size, rolled, hlow, hhigh, hs⟩
  exact ⟨rfl, (h.foretells_estimate cap).mono fun range hr => hr.contains h hlow hhigh hs⟩

end DiceTower

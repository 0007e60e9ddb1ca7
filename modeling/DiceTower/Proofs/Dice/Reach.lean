import Mathlib
import DiceTower.Proofs.Dice.Facing

/-! Whether the totals that a pool can reach lie within its estimate. The dice that it is rolled with
show what the estimate counts with, whatever their ranks are in the end; the others may show less or
more than that. -/

namespace DiceTower

open DiceTower.Computation Drawing

variable {cap first last low high : Int} {p : Pool} {rolled : List Int} {ranks : List Nat}

/-- A roll of which no recursive reroll was stopped by the number of its attempts. -/
def Roll.Clears (t : Term) (r : Roll) : Prop :=
  List.Forall₂ (fun op a => op.Clears a.after) t.pool.phases r.operations

instance (t : Term) (r : Roll) : Decidable (r.Clears t) :=
  inferInstanceAs (Decidable (List.Forall₂ _ _ _))

/-- A total of dice that show what they can in the end, of which those of the ranks count that the
estimate keeps. -/
def Pool.Reaches (cap : Int) (p : Pool) (total : Int) : Prop :=
  ∃ rolled ranks, p.Turns cap rolled ∧ keptRanks? p.operations rolled.length = some ranks ∧
    total = Number.sum (ranks.map fun r => shown p.operations (ranked rolled r)) + p.modifier

theorem Term.gives_reaches {σ : Type} [Source σ] {deadline : Option Float} {t : Term}
    (h : t.pool.Orderly) (label : Option String) :
    Gives (t.roll deadline cap label : Drawing σ Roll) fun r =>
      r.Clears t → t.pool.Reaches cap r.total := by
  obtain ⟨records, -, hroll⟩ :=
    Term.exists_roll_eq (σ := σ) h.operations h.compatible.bounds deadline cap label
  rw [hroll]
  refine h.gives_turns.bind fun q ⟨hlying, hlength, hturns⟩ => .of_pure fun hclear => ?_
  have hgrowing := List.forall₂_take_append _ _ _ hclear
  rw [hlength, Pool.phases, List.append_assoc, List.take_left] at hgrowing
  obtain ⟨ranks, hkept, -, -⟩ := exists_keptRanks?_of_positive
    (fun op hop => h.operations op (List.mem_filter.mp hop).1) q.dice.length
  refine ⟨_, ranks, hturns hgrowing, by rwa [List.length_map], ?_⟩
  show Number.sum (faces (t.pool.settle q.dice)) + t.pool.modifier = _
  rw [Number.sum_eq, (hlying.faces_settle_perm h.operations hkept).sum_eq]
  rfl

section Ranks

theorem Pool.Turns.le_ranked (h : p.Turns cap rolled) (he : (Law.ofPool p : Law ℚ).Ends first last)
    {r : Nat} (hr : r < rolled.length) (hhigh : rolled.length ≤ r + p.count.toNat) :
    first ≤ ranked rolled r := by
  by_contra hlow
  have hbelow := (ranked_le_iff (b := first - 1) hr).mp (by omega)
  have hsplit := List.length_eq_countP_add_countP
    (fun face => decide (face ∈ (Law.ofPool p : Law ℚ).map (·.1))) (l := rolled)
  have hothers : rolled.countP (· ≤ first - 1) ≤
      rolled.countP fun face => ¬decide (face ∈ (Law.ofPool p : Law ℚ).map (·.1)) = true := by
    refine List.countP_mono_left fun face _ hface => ?_
    simp only [decide_eq_true_eq] at hface ⊢
    intro hmem
    have := (he.between face hmem).1
    omega
  have hearly := h.early
  omega

theorem Pool.Turns.ranked_le (h : p.Turns cap rolled) (he : (Law.ofPool p : Law ℚ).Ends first last)
    {r : Nat} (hr : r < rolled.length) (hlow : r < p.count.toNat) : ranked rolled r ≤ last := by
  refine (ranked_le_iff hr).mpr (hlow.trans_le (h.early.trans ?_))
  refine List.countP_mono_left fun face _ hface => ?_
  simp only [decide_eq_true_eq] at hface ⊢
  exact (he.between face hface).2

end Ranks

/-- The least that the dice of some ranks add up to, when those that the pool was rolled with show one
face at least and all of them another one. -/
def Pool.leastAt (p : Pool) (first low : Int) (size : Nat) (ranks : List Nat) : Int :=
  Number.sum (ranks.map fun r => shown p.operations (if size - p.count.toNat ≤ r then first else low))

def Pool.greatestAt (p : Pool) (last high : Int) (ranks : List Nat) : Int :=
  Number.sum (ranks.map fun r => shown p.operations (if r < p.count.toNat then last else high))

/-- Whatever size the pool reaches, the estimate allows for the dice that explosions add: of the dice
that it keeps, those that the pool was rolled with show faces of its law, the others any that a die can
show in the end. -/
def Pool.Covered (cap : Int) (p : Pool) : Prop :=
  ∀ first last low high, (Law.ofPool p : Law ℚ).Ends first last → p.latest.Ends low high →
    ∀ size ranks, (p.fewest cap).toNat ≤ size → size ≤ (p.most cap).toNat →
      keptRanks? p.operations size = some ranks →
        sizeKept p.operations (p.fewestFrom cap first).toNat * shown p.operations first ≤
          p.leastAt first low size ranks ∧
        p.greatestAt last high ranks ≤
          sizeKept p.operations (p.most cap).toNat * shown p.operations last

theorem number_sum_map_le {f g : Nat → Int} (h : ∀ r ∈ ranks, f r ≤ g r) :
    Number.sum (ranks.map f) ≤ Number.sum (ranks.map g) := List.sum_le_sum h

/-- A total that a covered pool reaches lies within its estimate. -/
theorem Pool.Covered.contains (hc : p.Covered cap) (h : p.Orderly)
    (he : (Law.ofPool p : Law ℚ).Ends first last) {range : Range ℚ}
    (hr : p.Reckoned cap first last range) {total : Int} (ht : p.Reaches cap total) :
    range.Contains total := by
  obtain ⟨rolled, ranks, hturns, hkept, rfl⟩ := ht
  obtain ⟨low, _, high, _, -, -, hends⟩ := (Pool.proper_latest h.sides).exists_ends
  obtain ⟨-, hranks⟩ := length_of_keptRanks? h.operations hkept
  have hface {r : Nat} (hmem : r ∈ ranks) :=
    hends.between _ (hturns.late _ (ranked_mem (hranks r hmem)))
  obtain ⟨hmin, hmax⟩ :=
    hc first last low high he hends rolled.length ranks hturns.fewest hturns.most hkept
  have hleast : p.leastAt first low rolled.length ranks ≤
      Number.sum (ranks.map fun r => shown p.operations (ranked rolled r)) := by
    refine number_sum_map_le fun r hmem => shown_mono _ ?_
    split
    · next hhigh => exact hturns.le_ranked he (hranks r hmem) (by omega)
    · exact (hface hmem).1
  have hgreatest : Number.sum (ranks.map fun r => shown p.operations (ranked rolled r)) ≤
      p.greatestAt last high ranks := by
    refine number_sum_map_le fun r hmem => shown_mono _ ?_
    split
    · next hlow => exact hturns.ranked_le he (hranks r hmem) hlow
    · exact (hface hmem).2
  constructor
  · rw [hr.min]
    omega
  · rw [hr.max]
    omega

section Covers

variable {size : Nat}

theorem Pool.countP_mul_le_leastAt (p : Pool) (hlow : 0 ≤ shown p.operations low) :
    (ranks.countP fun r => size - p.count.toNat ≤ r) * shown p.operations first ≤
      p.leastAt first low size ranks := by
  unfold leastAt
  induction ranks with
  | nil => simp [Number.sum]
  | cons r ranks ih =>
    rw [List.map_cons, Number.sum_cons]
    by_cases hr : size - p.count.toNat ≤ r
    · rw [List.countP_cons_of_pos (by simpa using hr), if_pos hr]
      push_cast
      linarith
    · rw [List.countP_cons_of_neg (by simpa using hr), if_neg hr]
      linarith

theorem Pool.length_mul_le_leastAt (p : Pool) (h : first ≤ low) :
    ranks.length * shown p.operations first ≤ p.leastAt first low size ranks := by
  refine le_of_eq_of_le ?_ (number_sum_map_le (f := fun _ => shown p.operations first)
    fun r _ => shown_mono _ ?_)
  · simp [Number.sum_eq]
  · split
    · exact le_rfl
    · exact h

theorem Pool.greatestAt_le_length_mul (p : Pool)
    (h : high ≤ last ∨ ∀ r ∈ ranks, r < p.count.toNat) :
    p.greatestAt last high ranks ≤ ranks.length * shown p.operations last := by
  refine le_of_le_of_eq (number_sum_map_le (g := fun _ => shown p.operations last)
    fun r hr => shown_mono _ ?_) ?_
  · split
    · exact le_rfl
    · next hlate => exact h.resolve_right fun hearly => hlate (hearly r hr)
  · simp [Number.sum_eq]

theorem min_le_countP_drop (hs : ranks.Pairwise (· < ·)) (bound j : Nat) :
    min (ranks.countP (bound ≤ ·)) (ranks.length - j) ≤ (ranks.drop j).countP (bound ≤ ·) := by
  induction ranks generalizing j with
  | nil => simp
  | cons r ranks ih =>
    obtain ⟨hr, hranks⟩ := List.pairwise_cons.mp hs
    cases j with
    | zero => exact min_le_left _ _
    | succ j =>
      rw [List.drop_succ_cons, List.length_cons, Nat.add_sub_add_right]
      by_cases hb : bound ≤ r
      · refine (min_le_right _ _).trans (le_of_eq ?_)
        rw [List.countP_eq_length.mpr fun r' hr' => ?_, List.length_drop]
        have := hr r' (List.mem_of_mem_drop hr')
        simp only [decide_eq_true_eq]
        omega
      · rw [List.countP_cons_of_neg (by simpa using hb)]
        exact ih hranks j

theorem countP_le_countP_take_add (ranks : List Nat) (bound j : Nat) : ranks.countP (bound ≤ ·) ≤
    (ranks.take j).countP (bound ≤ ·) + (ranks.length - j) := by
  have hsplit := congrArg (List.countP (bound ≤ ·)) (List.take_append_drop j ranks)
  rw [List.countP_append] at hsplit
  have hrest := List.countP_le_length (p := (bound ≤ ·)) (l := ranks.drop j)
  rw [List.length_drop] at hrest
  omega

theorem keeps_le_countP_keepRanks {kind : OperationKind} (hk : kind ≠ .keepLowest) {n : Int}
    (hn : 0 ≤ n) (hs : ranks.Pairwise (· < ·)) {bound kept : Nat}
    (h : kept ≤ ranks.countP (bound ≤ ·)) :
    kind.keeps n kept ≤ (keepRanks kind n ranks).countP (bound ≤ ·) := by
  have hlength := List.countP_le_length (p := (bound ≤ ·)) (l := ranks)
  cases kind <;> simp only [OperationKind.keeps, keepRanks] <;> try exact h
  case keepHighest =>
    rw [startingAt_of_nonneg (by omega)]
    have := min_le_countP_drop hs bound ((ranks.length : Int) - min n ranks.length).toNat
    omega
  case keepLowest => exact absurd rfl hk
  case dropHighest =>
    rw [upTo_of_nonneg (by omega)]
    have := countP_le_countP_take_add ranks bound ((ranks.length : Int) - min n ranks.length).toNat
    omega
  case dropLowest =>
    rw [startingAt_of_nonneg (by omega)]
    have := min_le_countP_drop hs bound (min n ranks.length).toNat
    omega

theorem sizeKept_le_countP_of_foldlM {ops : List Operation} (hpos : ∀ op ∈ ops, op.Positive)
    (hk : ∀ op ∈ ops, op.kind ≠ .keepLowest) (hs : ranks.Pairwise (· < ·)) {bound n : Nat}
    (h : n ≤ ranks.countP (bound ≤ ·)) {kept : List Nat}
    (hkept : ops.foldlM (fun ranks op => op.operand.single?.map fun n => keepRanks op.kind n ranks)
      ranks = some kept) : sizeKept ops n ≤ kept.countP (bound ≤ ·) := by
  induction ops generalizing ranks n with
  | nil =>
    obtain rfl := Option.some.inj hkept
    exact h
  | cons op ops ih =>
    obtain ⟨hop, hops⟩ := List.forall_mem_cons.mp hpos
    obtain ⟨hkop, hks⟩ := List.forall_mem_cons.mp hk
    obtain ⟨ho, hone⟩ := hop.operand
    rw [List.foldlM_cons, ho] at hkept
    exact ih hops hks (hs.sublist (keepRanks_sublist ..))
      (keeps_le_countP_keepRanks hkop (by omega) hs h) hkept

theorem Pool.Orderly.sizeKept_le_countP (h : p.Orderly)
    (hk : ∀ op ∈ p.operations, op.kind ≠ .keepLowest) {n : Nat} (hn : n ≤ size)
    (hkept : keptRanks? p.operations size = some ranks) :
    sizeKept p.operations n ≤ ranks.countP (size - n ≤ ·) := by
  rw [← sizeKept_filter_selects]
  refine sizeKept_le_countP_of_foldlM (fun op hop => h.operations op (List.mem_filter.mp hop).1)
    (fun op hop => hk op (List.mem_filter.mp hop).1) List.pairwise_lt_range ?_ hkept
  have hsplit := congrArg (List.countP (size - n ≤ ·)) (List.range_add (n := size - n) (m := n))
  rw [Nat.sub_add_cancel hn, List.countP_append, List.countP_map] at hsplit
  have hall : (List.range n).countP ((fun r => decide (size - n ≤ r)) ∘ (size - n + ·)) = n := by
    rw [List.countP_eq_length.mpr fun r _ => ?_, List.length_range]
    simp only [Function.comp, decide_eq_true_eq]
    omega
  omega

section Pools

variable (h : p.Orderly) (he : (Law.ofPool p : Law ℚ).Ends first last)

include h he

theorem Pool.Orderly.shown_nonneg :
    0 ≤ shown p.operations first ∧ 0 ≤ shown p.operations last := by
  have hl := Law.proper_ofPool h.sides
  have hfirst := one_le_shown h.operations (hl.face_within he.first_mem).1
  have hlast := one_le_shown h.operations (hl.face_within he.last_mem).1
  omega

theorem Pool.Orderly.le_leastAt (hends : p.latest.Ends low high) {n : Nat}
    (hn : sizeKept p.operations n ≤ ranks.countP (size - p.count.toNat ≤ ·)) :
    sizeKept p.operations n * shown p.operations first ≤ p.leastAt first low size ranks := by
  have hlow := one_le_shown h.operations
    ((Pool.proper_latest h.sides).face_within hends.first_mem).1
  refine le_trans ?_ (p.countP_mul_le_leastAt (by omega))
  exact Int.mul_le_mul_of_nonneg_right (Int.ofNat_le.mpr hn) (h.shown_nonneg he).1

theorem Pool.Orderly.greatestAt_le (hmost : size ≤ (p.most cap).toNat)
    (hkept : keptRanks? p.operations size = some ranks)
    (hhigh : high ≤ last ∨ ∀ r ∈ ranks, r < p.count.toNat) :
    p.greatestAt last high ranks ≤
      sizeKept p.operations (p.most cap).toNat * shown p.operations last := by
  refine (p.greatestAt_le_length_mul hhigh).trans
    (Int.mul_le_mul_of_nonneg_right ?_ (h.shown_nonneg he).2)
  rw [(length_of_keptRanks? h.operations hkept).1]
  exact Int.ofNat_le.mpr (sizeKept_mono _ hmost)

end Pools

/-- Without explosions, or with no room for them, no dice are added. -/
theorem Pool.Orderly.covered_of_most (h : p.Orderly) (hm : p.most cap = p.count) :
    p.Covered cap := by
  intro first last low high he hends size ranks hsize hmost hkept
  obtain ⟨hlength, hranks⟩ := length_of_keptRanks? h.operations hkept
  rw [hm] at hmost
  refine ⟨h.le_leastAt he hends ?_,
    h.greatestAt_le he (by rwa [hm]) hkept (.inr fun r hr => (hranks r hr).trans_le hmost)⟩
  rw [List.countP_eq_length.mpr fun r _ => by simp; omega, hlength]
  refine sizeKept_mono _ (le_trans (Int.toNat_le_toNat ?_) hsize)
  have hfirst := ((Law.proper_ofPool h.sides).face_within he.first_mem).1
  revert hm
  unfold fewest fewestFrom most
  cases p.operations.find? (·.kind = .explode) with
  | none => exact fun _ => le_rfl
  | some op =>
    dsimp only
    intro hm
    split <;> split <;> omega

/-- Whatever explodes, an estimate that counts with the least and the greatest face of a die allows
for all dice. -/
theorem Pool.Orderly.covered_of_ends (h : p.Orderly)
    (hfirst : 1 ∈ (Law.ofPool p : Law ℚ).map (·.1))
    (hlast : p.sides ∈ (Law.ofPool p : Law ℚ).map (·.1)) (cap : Int) : p.Covered cap := by
  intro first last low high he hends size ranks hsize hmost hkept
  have hlatest := Pool.proper_latest h.sides
  have hlow := (hlatest.face_within hends.first_mem).1
  have hhigh := (hlatest.face_within hends.last_mem).2
  have hone := (he.between _ hfirst).1
  have hone' := ((Law.proper_ofPool h.sides).face_within he.first_mem).1
  obtain rfl : first = 1 := by omega
  refine ⟨le_trans ?_ (p.length_mul_le_leastAt hlow),
    h.greatestAt_le he hmost hkept (.inl (hhigh.trans (he.between _ hlast).2))⟩
  rw [(length_of_keptRanks? h.operations hkept).1]
  exact Int.mul_le_mul_of_nonneg_right (Int.ofNat_le.mpr (sizeKept_mono _ hsize))
    (h.shown_nonneg he).1

/-- Where the lowest are not kept, a die below the least face that the estimate counts with may come
from an explosion, if that is not taken for certain. -/
theorem Pool.Orderly.covered_of_not_keepLowest (h : p.Orderly)
    (hk : ∀ op ∈ p.operations, op.kind ≠ .keepLowest)
    (hx : ∀ op ∈ p.operations, op.kind = .explode →
      ∃ face ∈ (Law.ofPool p : Law ℚ).map (·.1), face < op.number)
    (hlast : p.sides ∈ (Law.ofPool p : Law ℚ).map (·.1)) (cap : Int) : p.Covered cap := by
  intro first last low high he hends size ranks hsize hmost hkept
  have hhigh := ((Pool.proper_latest h.sides).face_within hends.last_mem).2
  have hfirst := ((Law.proper_ofPool h.sides).face_within he.first_mem).1
  have hcount : p.fewestFrom cap first = p.count ∧ p.fewest cap = p.count := by
    unfold fewest fewestFrom
    cases hf : p.operations.find? (·.kind = .explode) with
    | none => exact ⟨rfl, rfl⟩
    | some op =>
      obtain ⟨face, hface, hless⟩ := hx op (List.mem_of_find?_eq_some hf)
        (by simpa using List.find?_some hf)
      have := (he.between face hface).1
      exact ⟨if_neg (by omega), if_neg (by omega)⟩
  rw [hcount.2] at hsize
  rw [hcount.1]
  exact ⟨h.le_leastAt he hends (h.sizeKept_le_countP hk hsize hkept),
    h.greatestAt_le he hmost hkept (.inl (hhigh.trans (he.between _ hlast).2))⟩

/-- No dice are added, or the law of a die has its greatest face and the added dice do no harm below:
it has the least face as well, or the lowest dice are not kept and no explosion is taken for certain. -/
def Pool.EvidentlyCovered (cap : Int) (p : Pool) : Prop :=
  p.most cap = p.count ∨ p.sides ∈ (Law.ofPool p : Law ℚ).map (·.1) ∧
    (1 ∈ (Law.ofPool p : Law ℚ).map (·.1) ∨
      (∀ op ∈ p.operations, op.kind ≠ .keepLowest) ∧ ∀ op ∈ p.operations, op.kind = .explode →
        ∃ face ∈ (Law.ofPool p : Law ℚ).map (·.1), face < op.number)

instance (p : Pool) : Decidable (p.EvidentlyCovered cap) :=
  inferInstanceAs (Decidable (_ ∨ _ ∧ (_ ∨ _ ∧ _)))

theorem Pool.Orderly.covered (h : p.Orderly) (hc : p.EvidentlyCovered cap) : p.Covered cap := by
  rcases hc with hm | ⟨hlast, hfirst | ⟨hk, hx⟩⟩
  · exact h.covered_of_most hm
  · exact h.covered_of_ends hfirst hlast cap
  · exact h.covered_of_not_keepLowest hk hx hlast cap

end Covers

/-- A roll of what was read of which no recursive reroll was stopped has a total that the pool
reaches, and it lies within the estimate wherever that allows for the dice that explosions add. -/
theorem Term.total_within_estimate_of_clears {σ : Type} [Source σ] {deadline : Option Float}
    {limits : Limits} {text : String} {t : Term} (h : parse limits text = .ok t)
    {label : Option String} {tray tray' : Tray σ} {r : Roll}
    (hr : t.roll deadline cap label tray = (.ok r, tray')) (hc : r.Clears t) :
    t.pool.Reaches cap r.total ∧ (t.pool.EvidentlyCovered cap → t.pool.Covered cap) ∧
      (t.pool.Covered cap →
      Foretells (Fault.OfMemory (t.pool.Crowded cap))
        (fun range : Range ℚ => range.Contains r.total) (estimate t.pool cap)) := by
  have hp := Pool.orderly_of_denotes (Term.parse_eq_ok_iff.mp h).2
  have hreaches := gives_reaches hp label _ _ _ hr hc
  refine ⟨hreaches, hp.covered, fun hcovered => .map ((hp.foretells_reckoned cap).mono ?_)⟩
  intro range ⟨first, last, he, hrange⟩
  obtain ⟨hmin, hmax⟩ := hcovered.contains hp he hrange hreaches
  exact ⟨hmin, hmax⟩

def Term.gamble : Term :=
  ⟨"2d6rr1!6kh2", 2, 6, 0, [⟨.reroll, .one 1, true⟩, ⟨.explode, .one 6, false⟩,
    ⟨.keepHighest, .one 2, false⟩]⟩

/-- Of one and six, rolled again to three and six, and one after the six, three and six are kept. -/
theorem Term.total_within_estimate_of_clears_gamble : parse {} "2d6rr1!6kh2" = .ok gamble ∧
    ∃ r tray', gamble.roll none 100 none ({ source := ⟨[1, 6, 3, 1]⟩ } : Tray Script) =
      (.ok r, tray') ∧ r.Clears gamble ∧ gamble.pool.Covered 100 ∧ gamble.pool.Reaches 100 r.total ∧
      ∃ range : Range ℚ, estimate gamble.pool 100 = .ok range ∧ range.Contains r.total ∧
        r.total = 9 ∧ range.min = 4 ∧ range.max = 12 := by
  have h : parse {} "2d6rr1!6kh2" = .ok gamble := eq_ok_of_toOption (by decide +kernel)
  obtain ⟨r, hr, hc⟩ : ∃ r, (gamble.roll none 100 none
      ({ source := ⟨[1, 6, 3, 1]⟩ } : Tray Script)).1 = .ok r ∧
      decide (r.Clears gamble ∧ r.total = 9) = true := exists_eq_ok_of_any (by cbv)
  obtain ⟨range, hrange, hends⟩ : ∃ range : Range ℚ, estimate gamble.pool 100 = .ok range ∧
      decide (range.min = 4 ∧ range.max = 12) = true := exists_eq_ok_of_any (by decide +kernel)
  obtain ⟨hclears, htotal⟩ := of_decide_eq_true hc
  obtain ⟨hreaches, hevident, hwithin⟩ :=
    total_within_estimate_of_clears h (Prod.ext hr rfl) hclears
  have hcovered := hevident (by decide +kernel)
  have hcontains := hwithin hcovered
  rw [hrange] at hcontains
  exact ⟨h, r, _, Prod.ext hr rfl, hclears, hcovered, hreaches, range, hrange, hcontains, htotal,
    of_decide_eq_true hends⟩

def Term.lateReroll : Term :=
  ⟨"1d6!2rr1", 1, 6, 0, [⟨.explode, .one 2, false⟩, ⟨.reroll, .one 1, true⟩]⟩

/-- A die that shows one does not explode and may be a five in the end, though the least total is
counted as if there were always a hundred dice. -/
theorem Term.total_lt_min_lateReroll : parse {} "1d6!2rr1" = .ok lateReroll ∧
    ∃ r tray', lateReroll.roll none 100 none ({ source := ⟨[1, 5]⟩ } : Tray Script) =
      (.ok r, tray') ∧ r.Clears lateReroll ∧
      ∃ range : Range ℚ, estimate lateReroll.pool 100 = .ok range ∧ r.total = 5 ∧ range.min = 200 := by
  have h : parse {} "1d6!2rr1" = .ok lateReroll := eq_ok_of_toOption (by decide +kernel)
  obtain ⟨r, hr, hc⟩ : ∃ r, (lateReroll.roll none 100 none
      ({ source := ⟨[1, 5]⟩ } : Tray Script)).1 = .ok r ∧
      decide (r.Clears lateReroll ∧ r.total = 5) = true := exists_eq_ok_of_any (by cbv)
  obtain ⟨range, hrange, hmin⟩ : ∃ range : Range ℚ, estimate lateReroll.pool 100 = .ok range ∧
      decide (range.min = 200) = true := exists_eq_ok_of_any (by decide +kernel)
  obtain ⟨hclears, htotal⟩ := of_decide_eq_true hc
  exact ⟨h, r, _, Prod.ext hr rfl, hclears, range, hrange, htotal, of_decide_eq_true hmin⟩

end DiceTower

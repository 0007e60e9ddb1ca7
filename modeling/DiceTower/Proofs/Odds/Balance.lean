import DiceTower.Proofs.Odds.Estimate

/-! Where the average of an estimate stands between its bounds. Each die that counts adds on average a
face between the least and the greatest one; how many count on average lies between the sizes of the
bounds, unless a pool that may explode is larger than the cap on it. -/

namespace DiceTower

open Chance

section Faces

variable {sides : Int} {law : Law ℚ} {first last : Int} {ops : List Operation}

theorem Law.Ends.shown_bounds (h : law.Ends first last) (ops : List Operation) {face : Int}
    (hf : face ∈ law.map (·.1)) :
    (shown ops first : ℚ) ≤ shown ops face ∧ (shown ops face : ℚ) ≤ shown ops last := by
  obtain ⟨hlow, hhigh⟩ := h.between face hf
  exact ⟨by exact_mod_cast shown_mono ops hlow, by exact_mod_cast shown_mono ops hhigh⟩

theorem Law.mean_eq (law : Law ℚ) (ops : List Operation) :
    law.mean (lowestShown ops) (highestShown ops) =
      (law.map fun f => (shown ops f.1 : ℚ) * f.2).sum := total_eq_sum _

theorem Law.Proper.mean_bounds (h : law.Proper sides) (he : law.Ends first last)
    (ops : List Operation) :
    (shown ops first : ℚ) ≤ law.mean (lowestShown ops) (highestShown ops) ∧
      law.mean (lowestShown ops) (highestShown ops) ≤ shown ops last := by
  have hconst (c : ℚ) : (law.map fun f => c * f.2).sum = c := by
    rw [List.sum_map_mul_left, show (law.map (·.2)).sum = 1 from h.certain, mul_one]
  rw [law.mean_eq]
  constructor
  · refine (hconst (shown ops first)).ge.trans (List.sum_le_sum fun f hf => ?_)
    have hface := he.shown_bounds ops (List.mem_map_of_mem hf)
    exact mul_le_mul_of_nonneg_right hface.1 (h.positive f hf).le
  · refine (List.sum_le_sum fun f hf => ?_).trans (hconst (shown ops last)).le
    have hface := he.shown_bounds ops (List.mem_map_of_mem hf)
    exact mul_le_mul_of_nonneg_right hface.2 (h.positive f hf).le

theorem length_mul_le_sum_map {α : Type} {xs : List α} {g : α → ℚ} {low : ℚ}
    (h : ∀ x ∈ xs, low ≤ g x) : xs.length * low ≤ (xs.map g).sum := by
  have hlow := List.card_nsmul_le_sum (xs.map g) low fun y hy => by
    obtain ⟨x, hx, rfl⟩ := List.mem_map.mp hy
    exact h x hx
  rwa [List.length_map, nsmul_eq_mul] at hlow

theorem sum_map_le_length_mul {α : Type} {xs : List α} {g : α → ℚ} {high : ℚ}
    (h : ∀ x ∈ xs, g x ≤ high) : (xs.map g).sum ≤ xs.length * high := by
  have hhigh := List.sum_le_card_nsmul (xs.map g) high fun y hy => by
    obtain ⟨x, hx, rfl⟩ := List.mem_map.mp hy
    exact h x hx
  rwa [List.length_map, nsmul_eq_mul] at hhigh

/-- The dice of some ranks add up to a total between the bounds, and so they do on average. -/
theorem Law.Proper.expect_ranks_bounds (h : law.Proper sides) (he : law.Ends first last)
    (ops : List Operation) {n : Nat} {ranks : List Nat} (hr : ∀ r ∈ ranks, r < n) :
    ranks.length * (shown ops first : ℚ) ≤ law.expect n (fun faces =>
        (ranks.map fun r => (shown ops (ranked faces r) : ℚ)).sum) ∧
      law.expect n (fun faces => (ranks.map fun r => (shown ops (ranked faces r) : ℚ)).sum) ≤
        ranks.length * (shown ops last : ℚ) := by
  have hnonneg : ∀ f ∈ law, 0 ≤ f.2 := fun f hf => (h.positive f hf).le
  have hshown {faces : List Int} (hl : faces.length = n)
      (hf : ∀ face ∈ faces, face ∈ law.map (·.1)) {r : Nat} (hmem : r ∈ ranks) :=
    he.shown_bounds ops (hf _ (ranked_mem (hl ▸ hr r hmem)))
  constructor
  · refine (h.certain.expect_const n _).ge.trans (Law.expect_mono hnonneg fun faces hl hf => ?_)
    exact length_mul_le_sum_map fun r hmem => (hshown hl hf hmem).1
  · refine (Law.expect_mono hnonneg fun faces hl hf => ?_).trans (h.certain.expect_const n _).le
    exact sum_map_le_length_mul fun r hmem => (hshown hl hf hmem).2

end Faces

namespace Pool

variable {p : Pool} {cap : Int} {trigger : ℚ}

section Sizes

theorem grownSize_bounds (cap : Int) (hc : 1 ≤ p.count) (ht : 0 ≤ trigger) :
    ((min cap p.count : Int) : ℚ) ≤ p.grownSize cap trigger ∧ p.grownSize cap trigger ≤ cap := by
  have hcount : (1 : ℚ) ≤ p.count := by exact_mod_cast hc
  have hmin : ((min cap p.count : Int) : ℚ) = min (cap : ℚ) p.count := Int.cast_min ..
  rw [hmin]
  unfold grownSize
  by_cases h1 : trigger < 1
  · rw [if_pos h1]
    refine ⟨min_le_min_left _ ?_, min_le_left _ _⟩
    rw [le_div_iff₀ (by linarith)]
    nlinarith
  · rw [if_neg h1]
    exact ⟨min_le_left _ _, le_rfl⟩

/-- As many dice count on average as of a pool between the sizes that it grows to. -/
theorem grownKept_bounds {low high : Int} (h : (low : ℚ) ≤ p.grownSize cap trigger ∧
    p.grownSize cap trigger ≤ high) (hlow : 0 ≤ low) :
    (sizeKept p.operations low.toNat : ℚ) ≤ p.grownKept cap trigger ∧
      p.grownKept cap trigger ≤ sizeKept p.operations high.toNat := by
  unfold grownKept
  by_cases hs : p.operations.any (·.kind.selects) = true
  · have hround := roundRat_mono h.1
    have hround' := roundRat_mono h.2
    rw [roundRat_intCast] at hround hround'
    rw [if_pos hs]
    constructor
    · exact_mod_cast sizeKept_mono _ (show low.toNat ≤ _ by omega)
    · exact_mod_cast sizeKept_mono _ (show _ ≤ high.toNat by omega)
  · have hhigh : (low : ℚ) ≤ high := h.1.trans h.2
    have hle : low ≤ high := by exact_mod_cast hhigh
    have hcast {n : Int} (hn : 0 ≤ n) : ((n.toNat : Nat) : ℚ) = n := by
      rw [← Int.cast_natCast, Int.toNat_of_nonneg hn]
    have hnone := eq_false_of_ne_true hs
    rw [if_neg hs, sizeKept_of_not_selects hnone, sizeKept_of_not_selects hnone, hcast hlow,
      hcast (hlow.trans hle)]
    exact h

end Sizes

/-- An explosion that is not certain, in a pool above the cap: as many dice as the cap allows show
less on average than those that are rolled do at least. -/
def Stunted (cap : Int) (p : Pool) : Prop :=
  ∃ op ∈ p.operations, op.kind = .explode ∧ cap < p.count ∧
    (∃ face ∈ (Law.ofPool p : Law ℚ).map (·.1), face < op.number) ∧
    ∀ face ∈ (Law.ofPool p : Law ℚ).map (·.1), (sizeKept p.operations cap.toNat : ℚ) *
      (Law.ofPool p : Law ℚ).mean (lowestShown p.operations) (highestShown p.operations) <
        sizeKept p.operations p.count.toNat * shown p.operations face

/-- The average stands between the bounds, unless it falls below the least total. -/
structure Balanced (cap : Int) (p : Pool) (r : Range ℚ) : Prop where
  max : r.average ≤ r.max
  min : r.min ≤ r.average ↔ ¬ p.Stunted cap

variable {first last : Int} {r : Range ℚ}

theorem balanced_of_fixed (h : p.Orderly) (he : (Law.ofPool p : Law ℚ).Ends first last)
    (hr : p.Reckoned cap first last r) (hx : p.operations.find? (·.kind = .explode) = none) :
    p.Balanced cap r := by
  obtain ⟨ranks, hranks, haverage⟩ := hr.fixed hx
  obtain ⟨hlength, hmem⟩ := length_of_keptRanks? h.operations hranks
  obtain ⟨hlow, hhigh⟩ := (Law.proper_ofPool h.sides).expect_ranks_bounds he p.operations hmem
  rw [hlength] at hlow hhigh
  have hmin := hr.min
  have hmax := hr.max
  unfold fewestFrom at hmin
  unfold most at hmax
  rw [hx] at hmin hmax
  have hnot : ¬ p.Stunted cap := by
    rintro ⟨op, hop, hk, -⟩
    have hnone := List.find?_eq_none.mp hx op hop
    exact hnone (by simpa using hk)
  refine ⟨?_, iff_of_true ?_ hnot⟩
  · rw [hmax, haverage]
    push_cast
    linarith
  · rw [hmin, haverage]
    push_cast
    linarith

theorem grownSize_of_certain (h : 1 ≤ trigger) : p.grownSize cap trigger = cap :=
  if_neg (not_lt.mpr h)

theorem grownKept_of_grownSize {n : Int} (h : p.grownSize cap trigger = n) (hn : 0 ≤ n) :
    p.grownKept cap trigger = sizeKept p.operations n.toNat := by
  obtain ⟨hlow, hhigh⟩ := grownKept_bounds ⟨h.ge, h.le⟩ hn
  exact le_antisymm hhigh hlow

theorem stunted_iff (cap : Int) (h : p.Orderly) (he : (Law.ofPool p : Law ℚ).Ends first last) {op : Operation}
    (hop : op ∈ p.operations) (hk : op.kind = .explode) :
    p.Stunted cap ↔ cap < p.count ∧ first < op.number ∧ (sizeKept p.operations cap.toNat : ℚ) *
      (Law.ofPool p : Law ℚ).mean (lowestShown p.operations) (highestShown p.operations) <
        sizeKept p.operations p.count.toNat * shown p.operations first := by
  constructor
  · rintro ⟨op', hop', hk', hcap, ⟨face, hface, hlt⟩, hless⟩
    have hsame := (h.compatible.find?_eq hop' hk').symm.trans (h.compatible.find?_eq hop hk)
    obtain rfl : op' = op := Option.some.inj hsame
    have hfirst := (he.between face hface).1
    exact ⟨hcap, by omega, hless first he.first_mem⟩
  · rintro ⟨hcap, hlt, hless⟩
    refine ⟨op, hop, hk, hcap, ⟨first, he.first_mem, hlt⟩, fun face hface => hless.trans_le ?_⟩
    exact mul_le_mul_of_nonneg_left (he.shown_bounds p.operations hface).1 (Nat.cast_nonneg _)

theorem balanced_of_exploding (h : p.Orderly) (hcap : 1 ≤ cap)
    (he : (Law.ofPool p : Law ℚ).Ends first last) (hr : p.Reckoned cap first last r)
    {op : Operation} (hop : op ∈ p.operations) (hk : op.kind = .explode) :
    p.Balanced cap r := by
  have hx := h.compatible.find?_eq hop hk
  have hcount := h.count
  have hl := Law.proper_ofPool h.sides
  have hmean := hl.mean_bounds he p.operations
  have hmin := hr.min
  have hmax := hr.max
  have haverage := hr.exploding op hx
  have hstunted := stunted_iff cap h he hop hk
  have htrigger := Law.chance_nonneg (fun f hf => (hl.positive f hf).le) (op.number ≤ ·)
  have hcertain : op.number ≤ first → (Law.ofPool p : Law ℚ).chance (op.number ≤ ·) = 1 := by
    intro hle
    refine hl.certain.chance_eq_one fun f hf => ?_
    have := (he.between f.1 (List.mem_map_of_mem hf)).1
    simp only [decide_eq_true_eq]
    omega
  have hfirst : (1 : ℚ) ≤ shown p.operations first := by
    exact_mod_cast one_le_shown h.operations (hl.face_within he.first_mem).1
  unfold fewestFrom at hmin
  unfold most at hmax
  rw [hx] at hmin hmax
  dsimp only at hmin hmax
  generalize (Law.ofPool p : Law ℚ).mean (lowestShown p.operations) (highestShown p.operations) =
    mean at hmean haverage hstunted
  generalize (Law.ofPool p : Law ℚ).chance (op.number ≤ ·) = trigger at htrigger hcertain haverage
  have hsize := grownSize_bounds cap hcount htrigger
  obtain ⟨hlow, hhigh⟩ := grownKept_bounds hsize (by omega)
  refine ⟨?_, ?_⟩
  · have hmost : (sizeKept p.operations cap.toNat : ℚ) ≤
        sizeKept p.operations (max cap p.count).toNat := by
      exact_mod_cast sizeKept_mono _ (by omega)
    have hle := mul_le_mul (hhigh.trans hmost) hmean.2 (by linarith) (Nat.cast_nonneg _)
    rw [hmax, haverage]
    push_cast
    linarith
  · rw [hstunted, hmin, haverage]
    push_cast
    rw [add_le_add_iff_right]
    by_cases ht : op.number ≤ first
    · have hkept := grownKept_of_grownSize (p := p) (grownSize_of_certain (hcertain ht).ge)
        (show 0 ≤ cap by omega)
      have hle := mul_le_mul_of_nonneg_left hmean.1
        (Nat.cast_nonneg (α := ℚ) (sizeKept p.operations cap.toNat))
      rw [if_pos ht, hkept]
      exact iff_of_true hle fun hno => by omega
    · rw [if_neg ht]
      by_cases hc : cap < p.count
      · rw [min_eq_left hc.le] at hsize
        rw [grownKept_of_grownSize (le_antisymm hsize.2 hsize.1) (by omega), ← not_lt]
        exact not_congr ⟨fun hless => ⟨hc, by omega, hless⟩, fun hless => hless.2.2⟩
      · rw [min_eq_right (by omega)] at hlow
        have hle := mul_le_mul hlow hmean.1 (by linarith) ((Nat.cast_nonneg _).trans hlow)
        exact iff_of_true hle fun hno => hc hno.1

theorem Orderly.foretells_balanced (h : p.Orderly) (hcap : 1 ≤ cap) :
    Foretells (Fault.OfMemory (p.Crowded cap)) (p.Balanced cap) (exactEstimate p cap : Except Fault (Range ℚ)) := by
  refine (h.foretells_reckoned cap).mono fun r ⟨first, last, he, hr⟩ => ?_
  cases hx : p.operations.find? (·.kind = .explode) with
  | none => exact balanced_of_fixed h he hr hx
  | some op =>
    exact balanced_of_exploding h hcap he hr (List.mem_of_find?_eq_some hx)
      (by simpa using List.find?_some hx)

end Pool

/-- The average of an estimate that is not rounded is at most its greatest total, and at least its
least total unless a pool that may explode is larger than the cap and falls below it. To two places
it is between them where it was before. There is an estimate unless the pool is crowded. -/
theorem Term.average_balanced {limits : Limits} {text : String} {t : Term}
    (h : parse limits text = .ok t) {cap : Int} (hcap : 1 ≤ cap) :
    Foretells (Fault.OfMemory (t.pool.Crowded cap)) (fun r : Range ℚ => r.average ≤ r.max ∧
      ((r.min : ℚ) ≤ r.average ↔ ¬ t.pool.Stunted cap)) (exactEstimate t.pool cap) ∧
    Foretells (Fault.OfMemory (t.pool.Crowded cap)) (fun r : Range ℚ => r.average ≤ r.max ∧
      (¬ t.pool.Stunted cap → (r.min : ℚ) ≤ r.average)) (estimate t.pool cap) := by
  have hp := Pool.orderly_of_denotes (Term.parse_eq_ok_iff.mp h).2
  have hbalanced := hp.foretells_balanced hcap
  refine ⟨hbalanced.mono fun r hr => ⟨hr.max, hr.min⟩, .map (hbalanced.mono fun r hr => ?_)⟩
  constructor
  · have hround := hundredths_mono hr.max
    rwa [hundredths_intCast] at hround
  · intro hs
    have hround := hundredths_mono (hr.min.mpr hs)
    rwa [hundredths_intCast] at hround

def Term.volley : Term := ⟨"10d6!", 10, 6, 0, [⟨.explode, .one 6, false⟩]⟩

theorem Term.average_balanced_volley : parse {} "10d6!" = .ok volley ∧
    ∃ r : Range ℚ, exactEstimate volley.pool 100 = .ok r ∧ r.min ≤ r.average ∧
      r.average ≤ r.max := by
  have h : parse {} "10d6!" = .ok volley := eq_ok_of_toOption (by decide +kernel)
  obtain ⟨r, hr, -⟩ : ∃ r : Range ℚ, exactEstimate volley.pool 100 = .ok r ∧ true = true :=
    exists_eq_ok_of_any (p := fun _ => true) (by decide +kernel)
  obtain ⟨hbalanced, -⟩ := average_balanced h (show (1 : Int) ≤ 100 by decide)
  rw [hr] at hbalanced
  have hlarge : ¬ volley.pool.Stunted 100 := by
    rintro ⟨-, -, -, hcap, -⟩
    exact absurd hcap (by decide)
  exact ⟨h, r, hr, hbalanced.2.mpr hlarge, hbalanced.1⟩

/-- Ten dice show ten at least, though with a cap of one die the average is that of one. -/
theorem Term.average_lt_min_volley : parse {} "10d6!" = .ok volley ∧
    ∃ r : Range ℚ, estimate volley.pool 1 = .ok r ∧ r.average < r.min := by
  have h : parse {} "10d6!" = .ok volley := eq_ok_of_toOption (by decide +kernel)
  obtain ⟨r, hr, hlt⟩ : ∃ r : Range ℚ, estimate volley.pool 1 = .ok r ∧
      decide (r.average < r.min) = true := exists_eq_ok_of_any (by decide +kernel)
  exact ⟨h, r, hr, of_decide_eq_true hlt⟩

end DiceTower

import DiceTower.Proofs.Odds.Balance

/-! What exploding dice do to the average of a pool of which the highest dice are kept. Without
explosions the average is that of the highest faces; with them each die that counts adds the average
of any die, which is less wherever a die is left out and faces differ. -/

namespace DiceTower

open Chance

def KeepsHighest (ops : List Operation) : Prop :=
  ∀ op ∈ ops, op.kind.selects = true → op.kind = .keepHighest

instance (ops : List Operation) : Decidable (KeepsHighest ops) :=
  inferInstanceAs (Decidable (∀ op ∈ ops, op.kind.selects = true → op.kind = .keepHighest))

section Kept

variable {ops : List Operation}

theorem KeepsHighest.tail {op : Operation} (h : KeepsHighest (op :: ops)) : KeepsHighest ops :=
  fun op hop => h op (List.mem_cons_of_mem _ hop)

theorem KeepsHighest.exists_sizeKept_eq (h : KeepsHighest ops) (hpos : ∀ op ∈ ops, op.Positive) :
    (∀ n, sizeKept ops n = n) ∨ ∃ m, 1 ≤ m ∧ ∀ n, sizeKept ops n = min m n := by
  induction ops with
  | nil => exact .inl fun n => rfl
  | cons op ops ih =>
    obtain ⟨hop, hops⟩ := List.forall_mem_cons.mp hpos
    have hcons (n : Nat) : sizeKept (op :: ops) n = sizeKept ops (op.kind.keeps op.number n) := rfl
    cases hs : op.kind.selects
    · have hsame (n : Nat) : sizeKept (op :: ops) n = sizeKept ops n := by
        rw [hcons, OperationKind.keeps_of_not_selects hs]
      simpa only [hsame] using ih h.tail hops
    · have hnumber := hop.operand.2
      have hkeeps (n : Nat) : sizeKept (op :: ops) n = sizeKept ops (min op.number.toNat n) := by
        rw [hcons, h op (by simp) hs]
        rfl
      rcases ih h.tail hops with hall | ⟨m, hm, hmost⟩
      · exact .inr ⟨op.number.toNat, by omega, fun n => (hkeeps n).trans (hall _)⟩
      · refine .inr ⟨min m op.number.toNat, by omega, fun n => ?_⟩
        rw [hkeeps, hmost]
        omega

theorem exists_drop_of_foldlM_keepRanks {ops : List Operation}
    (h : ∀ op ∈ ops, op.kind = .keepHighest ∧ op.Positive) {ranks kept : List Nat}
    (hk : ops.foldlM (fun ranks op => op.operand.single?.map fun n => keepRanks op.kind n ranks)
      ranks = some kept) : ∃ j, kept = ranks.drop j := by
  induction ops generalizing ranks with
  | nil => exact ⟨0, (Option.some.inj hk).symm⟩
  | cons op ops ih =>
    obtain ⟨⟨hkind, hop⟩, hops⟩ := List.forall_mem_cons.mp h
    rw [List.foldlM_cons, hop.operand.1] at hk
    obtain ⟨j, hj⟩ := ih hops hk
    rw [hj, hkind]
    exact ⟨_, List.drop_drop⟩

theorem KeepsHighest.keptRanks?_eq (h : KeepsHighest ops) (hpos : ∀ op ∈ ops, op.Positive) (n : Nat) :
    keptRanks? ops n = some ((List.range n).drop (n - sizeKept ops n)) := by
  have hselects : ∀ op ∈ ops.filter (·.kind.selects), op.kind = .keepHighest ∧ op.Positive := by
    intro op hop
    obtain ⟨hmem, hs⟩ := List.mem_filter.mp hop
    exact ⟨h op hmem hs, hpos op hmem⟩
  obtain ⟨kept, hkept, hlength, -⟩ :=
    exists_keptRanks?_of_positive (fun op hop => (hselects op hop).2) n
  obtain ⟨j, hj⟩ := exists_drop_of_foldlM_keepRanks hselects hkept
  rw [hkept, hj, ← hlength, hj, List.length_drop, List.length_range]
  by_cases hle : j ≤ n
  · rw [Nat.sub_sub_self hle]
  · rw [List.drop_of_length_le (by simp; omega), List.drop_of_length_le (by simp; omega)]

end Kept

section Shares

variable {faces : List Int} {k : Nat} {f : Int → ℚ}

def highest (f : Int → ℚ) (faces : List Int) (k : Nat) : ℚ :=
  (((List.range faces.length).drop (faces.length - k)).map fun r => f (ranked faces r)).sum

theorem ranked_mono {r s : Nat} (hrs : r ≤ s) (hs : s < faces.length) :
    ranked faces r ≤ ranked faces s := by
  have hl : s < (ascending faces).length := by rwa [length_ascending]
  unfold ranked
  rw [List.getD_eq_getElem _ _ hl, List.getD_eq_getElem _ _ (hrs.trans_lt hl)]
  exact (pairwise_ascending faces).rel_get_of_le (a := ⟨r, hrs.trans_lt hl⟩) (b := ⟨s, hl⟩) hrs

theorem mem_take_range {n j r : Nat} (h : r ∈ (List.range n).take j) : r < j := by
  rw [List.take_range] at h
  have := List.mem_range.mp h
  omega

theorem mem_drop_range {n j r : Nat} (h : r ∈ (List.range n).drop j) : j ≤ r ∧ r < n := by
  rw [List.range_eq_range', List.drop_range', List.mem_range'_1] at h
  omega

theorem share_le_highest (hf : ∀ {m n}, m ≤ n → f m ≤ f n) (hk : 1 ≤ k) (hle : k ≤ faces.length) :
    k * (faces.map f).sum ≤ faces.length * highest f faces k := by
  obtain ⟨j, hj⟩ : ∃ j, faces.length = j + k := ⟨faces.length - k, by omega⟩
  have hdrop : faces.length - k = j := by omega
  have hsplit : (faces.map f).sum = (((List.range faces.length).take j).map fun r =>
      f (ranked faces r)).sum + highest f faces k := by
    unfold highest
    rw [← sum_map_ranked, hdrop, ← List.sum_append, ← List.map_append, List.take_append_drop]
  have hlower : ∀ r ∈ (List.range faces.length).take j, f (ranked faces r) ≤ f (ranked faces j) := by
    intro r hr
    have := mem_take_range hr
    exact hf (ranked_mono (by omega) (by omega))
  have hupper : ∀ r ∈ (List.range faces.length).drop j, f (ranked faces j) ≤ f (ranked faces r) := by
    intro r hr
    have := mem_drop_range hr
    exact hf (ranked_mono this.1 this.2)
  have hbelow := sum_map_le_length_mul hlower
  have habove := length_mul_le_sum_map hupper
  rw [List.length_take, List.length_range, min_eq_left (by omega)] at hbelow
  rw [List.length_drop, List.length_range, show faces.length - j = k by omega] at habove
  have hscaled := mul_le_mul_of_nonneg_left hbelow (Nat.cast_nonneg (α := ℚ) k)
  have hscaled' := mul_le_mul_of_nonneg_left habove (Nat.cast_nonneg (α := ℚ) j)
  have hcast : (faces.length : ℚ) = j + k := by exact_mod_cast hj
  rw [hsplit, hcast]
  unfold highest
  rw [hdrop]
  linarith

theorem share_lt_highest {low high : Int} {n : Nat} (hlow : low ≤ high) (hlt : f low < f high)
    (hk : 1 ≤ k) (hle : k ≤ n) :
    k * ((low :: List.replicate n high).map f).sum <
      (n + 1 : Nat) * highest f (low :: List.replicate n high) k := by
  have hsorted : ascending (low :: List.replicate n high) = low :: List.replicate n high := by
    refine ascending_eq (List.pairwise_cons.mpr ⟨fun face hface => ?_, ?_⟩) (.refl _)
    · rwa [List.eq_of_mem_replicate hface]
    · exact List.pairwise_replicate.mpr (.inr le_rfl)
  have hlength : (low :: List.replicate n high).length = n + 1 := by simp
  have hranked {r : Nat} (hr : 1 ≤ r ∧ r < n + 1) :
      ranked (low :: List.replicate n high) r = high := by
    obtain ⟨r, rfl⟩ : ∃ s, r = s + 1 := ⟨r - 1, by omega⟩
    unfold ranked
    rw [hsorted, List.getD_cons_succ, List.getD_eq_getElem _ _ (by simp; omega),
      List.getElem_replicate]
  have hhighest : highest f (low :: List.replicate n high) k = k * f high := by
    have hall : ∀ r ∈ (List.range (n + 1)).drop (n + 1 - k),
        f (ranked (low :: List.replicate n high) r) = f high := by
      intro r hr
      have := mem_drop_range hr
      rw [hranked (by omega)]
    unfold highest
    rw [hlength, List.map_congr_left hall, List.map_const', List.sum_replicate, List.length_drop,
      List.length_range, show n + 1 - (n + 1 - k) = k by omega, nsmul_eq_mul]
  have hk' : (1 : ℚ) ≤ k := by exact_mod_cast hk
  rw [hhighest, List.map_cons, List.sum_cons, List.map_replicate, List.sum_replicate, nsmul_eq_mul]
  push_cast
  nlinarith

end Shares

section Averages

variable {sides : Int} {law : Law ℚ} {first last : Int} {n k : Nat}

theorem cast_shown_mono (ops : List Operation) {m n : Int} (h : m ≤ n) :
    (shown ops m : ℚ) ≤ shown ops n := by
  exact_mod_cast shown_mono ops h

theorem Law.Ends.shown_eq {ops : List Operation} (he : law.Ends first last)
    (h : shown ops first = shown ops last) {face : Int} (hf : face ∈ law.map (·.1)) :
    shown ops face = shown ops first :=
  le_antisymm ((shown_mono ops (he.between face hf).2).trans h.ge)
    (shown_mono ops (he.between face hf).1)

theorem Law.Proper.expect_all (h : law.Proper sides) (ops : List Operation) (n : Nat) :
    law.expect n (fun faces => (faces.map fun face => (shown ops face : ℚ)).sum) =
      n * law.mean (lowestShown ops) (highestShown ops) := by
  rw [h.certain.expect_sum_map n, law.mean_eq]

/-- The highest dice are worth more on average than as many single ones, unless all faces count for
the same. -/
theorem Law.Proper.expect_highest_le_iff (h : law.Proper sides) (he : law.Ends first last)
    (ops : List Operation) (hk : 1 ≤ k) (hkn : k < n) :
    law.expect n (fun faces => (((List.range n).drop (n - k)).map fun r =>
        (shown ops (ranked faces r) : ℚ)).sum) ≤
      k * law.mean (lowestShown ops) (highestShown ops) ↔
    ∀ face ∈ law.map (·.1), ∀ face' ∈ law.map (·.1), shown ops face = shown ops face' := by
  have hn : (0 : ℚ) < n := by exact_mod_cast (by omega : 0 < n)
  constructor
  · intro hle
    by_contra hdiffer
    have hends : shown ops first < shown ops last := by
      refine lt_of_le_of_ne (shown_mono ops (he.between last he.last_mem).1) fun hsame => hdiffer ?_
      intro face hface face' hface'
      exact (he.shown_eq hsame hface).trans (he.shown_eq hsame hface').symm
    obtain ⟨m, rfl⟩ : ∃ m, n = m + 1 := ⟨n - 1, by omega⟩
    have hlt := Law.expect_lt (n := m + 1)
      (v := fun faces => k * (faces.map fun face => (shown ops face : ℚ)).sum)
      (w := fun faces => (m + 1 : Nat) * (((List.range (m + 1)).drop (m + 1 - k)).map fun r =>
        (shown ops (ranked faces r) : ℚ)).sum)
      h.positive (fun faces hl _ => ?_) (first :: List.replicate m last) (by simp)
      (fun face hface => ?_) ?_
    · rw [Law.expect_mul, Law.expect_mul, h.expect_all] at hlt
      have hscaled := mul_le_mul_of_nonneg_left hle hn.le
      linarith
    · have hshare := share_le_highest (cast_shown_mono ops) hk (show k ≤ faces.length by omega)
      rwa [highest, hl] at hshare
    · rcases List.mem_cons.mp hface with rfl | hface
      · exact he.first_mem
      · rw [List.eq_of_mem_replicate hface]
        exact he.last_mem
    · have hshare := share_lt_highest (f := fun face => (shown ops face : ℚ)) (n := m)
        (he.between last he.last_mem).1 (by exact_mod_cast hends) hk (by omega)
      rwa [highest, List.length_cons, List.length_replicate] at hshare
  · intro hsame
    have hmean := (h.mean_bounds he ops).1
    have hless : ∀ r ∈ (List.range n).drop (n - k), r < n := fun r hr => (mem_drop_range hr).2
    have hranks := (h.expect_ranks_bounds he ops hless).2
    rw [List.length_drop, List.length_range, Nat.sub_sub_self hkn.le,
      ← hsame first he.first_mem last he.last_mem] at hranks
    exact hranks.trans (mul_le_mul_of_nonneg_left hmean (Nat.cast_nonneg k))

end Averages

namespace Pool

variable {p : Pool} {cap : Int}

def explodingAt (place : Nat) (threshold : Int) (p : Pool) : Pool :=
  { p with operations := p.operations.take place ++
      ⟨.explode, .one threshold, false⟩ :: p.operations.drop place }

/-- No die is left out of the pool, or all faces of a die count for the same. -/
def Even (p : Pool) : Prop := sizeKept p.operations p.count.toNat = p.count.toNat ∨
  ∀ face ∈ (Law.ofPool p : Law ℚ).map (·.1), ∀ face' ∈ (Law.ofPool p : Law ℚ).map (·.1),
    shown p.operations face = shown p.operations face'

section Exploding

variable (place : Nat) (threshold : Int)

theorem law_explodingAt (p : Pool) :
    (Law.ofPool (p.explodingAt place threshold) : Law ℚ) = Law.ofPool p := by
  rw [Law.ofPool_eq_possible, Law.ofPool_eq_possible, explodingAt]
  conv_rhs => rw [← List.take_append_drop place p.operations]
  rw [List.foldl_append, List.foldl_append, List.foldl_cons]
  rfl

theorem sizeKept_explodingAt (p : Pool) :
    sizeKept (p.explodingAt place threshold).operations = sizeKept p.operations := by
  funext size
  unfold sizeKept explodingAt
  conv_rhs => rw [← List.take_append_drop place p.operations]
  rw [List.foldl_append, List.foldl_append, List.foldl_cons]
  rfl

theorem numbersOf_explodingAt {kind : OperationKind} (hk : kind ≠ .explode) (p : Pool) :
    numbersOf kind (p.explodingAt place threshold).operations = numbersOf kind p.operations := by
  unfold numbersOf explodingAt
  conv_rhs => rw [← List.take_append_drop place p.operations]
  rw [List.filter_append, List.filter_append, List.filter_cons_of_neg (by simpa using hk.symm)]

theorem Orderly.explodingAt (h : p.Orderly) (hx : ∀ op ∈ p.operations, op.kind ≠ .explode)
    (ht : 1 ≤ threshold) : (p.explodingAt place threshold).Orderly := by
  refine ⟨h.count, h.sides, fun op hop => ?_, ?_, ?_⟩
  · rcases List.mem_append.mp hop with hop | hop
    · exact h.operations op (List.mem_of_mem_take hop)
    · rcases List.mem_cons.mp hop with rfl | hop
      · exact ⟨threshold, rfl, ht⟩
      · exact h.operations op (List.mem_of_mem_drop hop)
  · have hnone : ∀ op ∈ p.operations, ¬ decide (op.kind = .explode) = true := by simpa using hx
    have htake : (p.operations.take place).countP (·.kind = .explode) = 0 :=
      List.countP_eq_zero.mpr fun op hop => hnone op (List.mem_of_mem_take hop)
    have hdrop : (p.operations.drop place).countP (·.kind = .explode) = 0 :=
      List.countP_eq_zero.mpr fun op hop => hnone op (List.mem_of_mem_drop hop)
    unfold Pool.explodingAt
    rw [List.countP_append, List.countP_cons, htake, hdrop]
    simp
  · unfold BoundsAgree
    rw [numbersOf_explodingAt _ _ (by decide), numbersOf_explodingAt _ _ (by decide)]
    exact h.compatible.bounds

end Exploding

section Comparison

variable {place : Nat} {threshold : Int} {r r' : Range ℚ}

theorem average_explodingAt (hp : (p.explodingAt place threshold).Orderly) {first last : Int}
    (hr : (p.explodingAt place threshold).Reckoned cap first last r) :
    r.average = (p.explodingAt place threshold).grownKept cap
      ((Law.ofPool p : Law ℚ).chance (threshold ≤ ·)) *
        (Law.ofPool p : Law ℚ).mean (lowestShown p.operations) (highestShown p.operations) +
          p.modifier := by
  have hmem : ⟨.explode, .one threshold, false⟩ ∈ (p.explodingAt place threshold).operations := by
    simp [explodingAt]
  have hx := hp.compatible.find?_eq hmem rfl
  have haverage := hr.exploding _ hx
  unfold lowestShown highestShown at haverage ⊢
  rwa [law_explodingAt, numbersOf_explodingAt _ _ (by decide),
    numbersOf_explodingAt _ _ (by decide)] at haverage

/-- An explosion lowers the average of a pool exactly if it leaves dice out and their faces differ. -/
theorem average_le_explodingAt_iff (h : p.Orderly) (hk : KeepsHighest p.operations)
    (hx : ∀ op ∈ p.operations, op.kind ≠ .explode) (ht : 1 ≤ threshold) (hcap : p.count ≤ cap)
    {first last first' last' : Int} (he : (Law.ofPool p : Law ℚ).Ends first last)
    (hr : p.Reckoned cap first last r)
    (hr' : (p.explodingAt place threshold).Reckoned cap first' last' r') :
    r.average ≤ r'.average ↔ p.Even := by
  have hcount := h.count
  have hl := Law.proper_ofPool h.sides
  have haverage' := average_explodingAt (h.explodingAt place threshold hx ht) hr'
  obtain ⟨ranks, hranks, haverage⟩ := hr.fixed (List.find?_eq_none.mpr (by simpa using hx))
  have hdrop := hk.keptRanks?_eq h.operations p.count.toNat
  obtain rfl := Option.some.inj (hranks.symm.trans hdrop)
  have hbounds := grownSize_bounds (p := p.explodingAt place threshold) cap hcount
    (Law.chance_nonneg (fun f hf => (hl.positive f hf).le) (threshold ≤ ·))
  have hmin : min cap (p.explodingAt place threshold).count = p.count := min_eq_right hcap
  rw [hmin] at hbounds
  obtain ⟨hlow, hhigh⟩ := grownKept_bounds hbounds (by omega)
  rw [sizeKept_explodingAt] at hlow hhigh
  generalize (p.explodingAt place threshold).grownKept cap _ = kept at haverage' hlow hhigh
  rw [haverage, haverage', add_le_add_iff_right]
  by_cases hall : sizeKept p.operations p.count.toNat = p.count.toNat
  · have hmean : 0 ≤ (Law.ofPool p : Law ℚ).mean (lowestShown p.operations)
        (highestShown p.operations) := by
      have hfirst := (hl.mean_bounds he p.operations).1
      have hone : (1 : ℚ) ≤ shown p.operations first := by
        exact_mod_cast one_le_shown h.operations (hl.face_within he.first_mem).1
      linarith
    have hsum : (Law.ofPool p : Law ℚ).expect p.count.toNat (fun faces =>
        ((List.range p.count.toNat).map fun r => (shown p.operations (ranked faces r) : ℚ)).sum) =
          p.count.toNat * (Law.ofPool p : Law ℚ).mean (lowestShown p.operations)
            (highestShown p.operations) := by
      rw [← hl.expect_all]
      refine Law.expect_congr fun faces hlength _ => ?_
      rw [← hlength]
      exact sum_map_ranked faces fun face => (shown p.operations face : ℚ)
    rw [hall, Nat.sub_self, List.drop_zero, hsum]
    rw [hall] at hlow
    exact iff_of_true (mul_le_mul_of_nonneg_right hlow hmean) (.inl hall)
  · have hlt : sizeKept p.operations p.count.toNat < p.count.toNat := by
      rcases hk.exists_sizeKept_eq h.operations with hsame | ⟨m, -, hmost⟩
      · exact absurd (hsame _) hall
      · rw [hmost] at hall ⊢
        omega
    have hone : 1 ≤ sizeKept p.operations p.count.toNat ∧
        sizeKept p.operations cap.toNat = sizeKept p.operations p.count.toNat := by
      rcases hk.exists_sizeKept_eq h.operations with hsame | ⟨m, hm, hmost⟩
      · exact absurd (hsame _) hall
      · rw [hmost] at hlt
        rw [hmost, hmost]
        omega
    rw [hone.2] at hhigh
    rw [← le_antisymm hlow hhigh, hl.expect_highest_le_iff he p.operations hone.1 hlt]
    exact (or_iff_right hall).symm

end Comparison

end Pool

/-- An explosion, wherever it stands, leaves the average of a pool that keeps its highest dice no
lower exactly if no die is left out or all faces count for the same. -/
theorem Term.average_le_exploding_iff {limits : Limits} {text : String} {t : Term}
    (h : parse limits text = .ok t) (hx : ∀ op ∈ t.pool.operations, op.kind ≠ .explode)
    (hk : KeepsHighest t.pool.operations) (place : Nat) {threshold cap : Int} (ht : 1 ≤ threshold)
    (hcap : t.pool.count ≤ cap) :
    let exploding := t.pool.explodingAt place threshold
    Foretells (Fault.OfMemory (t.pool.Crowded cap)) (fun r : Range ℚ =>
      Foretells (Fault.OfMemory (exploding.Crowded cap))
        (fun r' : Range ℚ => r.average ≤ r'.average ↔ t.pool.Even)
        (exactEstimate exploding cap)) (exactEstimate t.pool cap) ∧
    Foretells (Fault.OfMemory (t.pool.Crowded cap)) (fun r : Range ℚ =>
      Foretells (Fault.OfMemory (exploding.Crowded cap))
        (fun r' : Range ℚ => t.pool.Even → r.average ≤ r'.average)
        (estimate exploding cap)) (estimate t.pool cap) := by
  intro exploding
  have hp := Pool.orderly_of_denotes (Term.parse_eq_ok_iff.mp h).2
  have hp' := hp.explodingAt place threshold hx ht
  have hiff : Foretells (Fault.OfMemory (t.pool.Crowded cap)) (fun r : Range ℚ =>
      Foretells (Fault.OfMemory (exploding.Crowded cap))
        (fun r' : Range ℚ => r.average ≤ r'.average ↔ t.pool.Even)
        (exactEstimate exploding cap)) (exactEstimate t.pool cap) := by
    refine (hp.foretells_reckoned cap).mono fun r ⟨first, last, he, hr⟩ => ?_
    refine (hp'.foretells_reckoned cap).mono fun r' ⟨first', last', _, hr'⟩ => ?_
    exact Pool.average_le_explodingAt_iff hp hk hx ht hcap he hr hr'
  refine ⟨hiff, .map (hiff.mono fun r hr => .map (hr.mono fun r' hr' heven => ?_))⟩
  exact hundredths_mono (hr'.mpr heven)

def Term.allKept : Term :=
  ⟨"3d6r1kh3", 3, 6, 0, [⟨.reroll, .one 1, false⟩, ⟨.keepHighest, .one 3, false⟩]⟩

/-- Where all dice are kept an explosion after their reroll does not lower the average. -/
theorem Term.average_le_exploding_allKept : parse {} "3d6r1kh3" = .ok allKept ∧
    KeepsHighest allKept.pool.operations ∧ ∃ r r' : Range ℚ,
      exactEstimate allKept.pool 100 = .ok r ∧
      exactEstimate (allKept.pool.explodingAt 1 6) 100 = .ok r' ∧ r.average ≤ r'.average := by
  have h : parse {} "3d6r1kh3" = .ok allKept := eq_ok_of_toOption (by decide +kernel)
  have hk : KeepsHighest allKept.pool.operations := by decide
  obtain ⟨hiff, -⟩ := average_le_exploding_iff h (by decide) hk 1 (show (1 : Int) ≤ 6 by decide)
    (show allKept.pool.count ≤ 100 by decide)
  obtain ⟨r, hr, -⟩ := exists_eq_ok_of_any (p := fun _ => true)
    (x := (exactEstimate allKept.pool 100 : Except Fault (Range ℚ))) (by decide +kernel)
  obtain ⟨r', hr', -⟩ := exists_eq_ok_of_any (p := fun _ => true)
    (x := (exactEstimate (allKept.pool.explodingAt 1 6) 100 : Except Fault (Range ℚ)))
    (by decide +kernel)
  rw [hr] at hiff
  change Foretells _ _ _ at hiff
  rw [hr'] at hiff
  exact ⟨h, hk, r, r', hr, hr', hiff.mpr (.inl (by decide))⟩

def Term.betterDie : Term := ⟨"2d6kh1", 2, 6, 0, [⟨.keepHighest, .one 1, false⟩]⟩

def Term.betterDieExploding : Term :=
  ⟨"2d6!kh1", 2, 6, 0, [⟨.explode, .one 6, false⟩, ⟨.keepHighest, .one 1, false⟩]⟩

/-- The better of two dice that may explode is said to show less on average than that of two that do
not. -/
theorem Term.average_exploding_lt_betterDie :
    parse {} "2d6kh1" = .ok betterDie ∧ parse {} "2d6!kh1" = .ok betterDieExploding ∧
    betterDieExploding.pool = betterDie.pool.explodingAt 0 6 ∧
    ∃ r r' : Range ℚ, estimate betterDie.pool 100 = .ok r ∧
      estimate betterDieExploding.pool 100 = .ok r' ∧ r'.average < r.average := by
  have h : parse {} "2d6kh1" = .ok betterDie := eq_ok_of_toOption (by decide +kernel)
  have h' : parse {} "2d6!kh1" = .ok betterDieExploding := eq_ok_of_toOption (by decide +kernel)
  obtain ⟨r, hr, haverage⟩ : ∃ r : Range ℚ, estimate betterDie.pool 100 = .ok r ∧
      decide (r.average = 447 / 100) = true := exists_eq_ok_of_any (by decide +kernel)
  obtain ⟨r', hr', haverage'⟩ : ∃ r : Range ℚ, estimate betterDieExploding.pool 100 = .ok r ∧
      decide (r.average = 350 / 100) = true := exists_eq_ok_of_any (by decide +kernel)
  refine ⟨h, h', rfl, r, r', hr, hr', ?_⟩
  rw [of_decide_eq_true haverage, of_decide_eq_true haverage']
  norm_num

end DiceTower

import Mathlib.Data.List.GetD
import Mathlib.Data.List.Sort
import DiceTower.Odds.Estimate
import DiceTower.Proofs.Odds.Laws
import DiceTower.Proofs.Outcomes

/-! The average of the dice of some ranks. The die of a rank shows at most a face exactly when more
dice than the rank do, so that its chance is a tail of a binomial law; the faces are added up one
after another, each with the chance that it makes the difference. -/

namespace DiceTower

open Chance

def ascending (faces : List Int) : List Int := faces.mergeSort fun a b => decide (a ≤ b)

/-- The face of a rank, from zero for the lowest. -/
def ranked (faces : List Int) (r : Nat) : Int := (ascending faces).getD r 0

section Ascending

variable {faces : List Int} {r : Nat} {b : Int}

theorem ascending_perm (faces : List Int) : (ascending faces).Perm faces :=
  List.mergeSort_perm ..

theorem pairwise_ascending (faces : List Int) : (ascending faces).Pairwise (· ≤ ·) :=
  List.pairwise_mergeSort' (· ≤ ·) faces

theorem length_ascending (faces : List Int) : (ascending faces).length = faces.length :=
  (ascending_perm faces).length_eq

theorem ascending_eq {sorted : List Int} (h : sorted.Pairwise (· ≤ ·)) (hp : faces.Perm sorted) :
    ascending faces = sorted :=
  ((ascending_perm faces).trans hp).eq_of_pairwise' (pairwise_ascending faces) h

theorem map_ranked (faces : List Int) :
    (List.range faces.length).map (ranked faces) = ascending faces := by
  refine List.ext_getElem (by simp [length_ascending]) fun i hi hi' => ?_
  rw [List.getElem_map, List.getElem_range, ranked, List.getD_eq_getElem _ _ hi']

theorem sum_map_ranked (faces : List Int) (g : Int → ℚ) :
    ((List.range faces.length).map fun r => g (ranked faces r)).sum = (faces.map g).sum := by
  rw [← ((ascending_perm faces).map g).sum_eq, ← map_ranked, List.map_map]
  rfl

theorem ranked_mem (h : r < faces.length) : ranked faces r ∈ faces := by
  have hr : r < (ascending faces).length := by rwa [length_ascending]
  rw [ranked, List.getD_eq_getElem _ _ hr]
  exact (ascending_perm faces).subset (List.getElem_mem hr)

theorem getD_le_iff {sorted : List Int} (h : sorted.Pairwise (· ≤ ·)) (hr : r < sorted.length) :
    sorted.getD r 0 ≤ b ↔ r < sorted.countP (· ≤ b) := by
  induction sorted generalizing r with
  | nil => simp at hr
  | cons a sorted ih =>
    obtain ⟨ha, hs⟩ := List.pairwise_cons.mp h
    by_cases hb : a ≤ b
    · rw [List.countP_cons_of_pos (by simpa using hb)]
      cases r with
      | zero => simpa using hb
      | succ r =>
        rw [List.getD_cons_succ, ih hs (by simpa using hr)]
        omega
    · have hnone : (a :: sorted).countP (· ≤ b) = 0 := by
        rw [List.countP_eq_zero]
        intro c hc
        rcases List.mem_cons.mp hc with rfl | hc
        · simpa using hb
        · have := ha c hc
          simp only [decide_eq_true_eq]
          omega
      have hlow : a ≤ (a :: sorted).getD r 0 := by
        rw [List.getD_eq_getElem _ _ hr]
        rcases List.mem_cons.mp (List.getElem_mem hr) with he | hm
        · exact he.ge
        · exact ha _ hm
      rw [hnone]
      omega

theorem ranked_le_iff (h : r < faces.length) :
    ranked faces r ≤ b ↔ r < faces.countP (· ≤ b) := by
  rw [ranked, getD_le_iff (pairwise_ascending faces) (by rwa [length_ascending]),
    (ascending_perm faces).countP_eq]

end Ascending

section Binomials

theorem binomials_eq (n : Nat) : binomials n = (List.range (n + 1)).map n.choose := by
  induction n with
  | zero => rfl
  | succ n ih =>
    refine List.ext_getElem (by simp [length_binomials]) fun i hi hi' => ?_
    simp only [binomials, ih, List.getElem_zipWith, List.getElem_map, List.getElem_range]
    rw [length_binomials] at hi
    cases i with
    | zero => simp
    | succ i =>
      simp only [List.getElem_cons_succ, List.getElem_map, List.getElem_range, Nat.choose_succ_succ]
      congr 1
      by_cases hin : i = n
      · subst hin
        simp
      · rw [List.getElem_append_left (by simp; omega)]
        simp

theorem atMostLaw_eq (n : Nat) (q : ℚ) : atMostLaw (binomials n) n q =
    (List.range (n + 1)).map fun k => n.choose k * (q ^ k * (1 - q) ^ (n - k)) := by
  refine List.ext_getElem (by simp [atMostLaw, length_binomials]) fun i hi hi' => ?_
  simp only [atMostLaw, binomials_eq, List.getElem_map, List.getElem_zipIdx, List.getElem_range,
    Nat.zero_add, ← mul_assoc]
  rfl

theorem length_tails (xs : List ℚ) : (tails xs).length = xs.length := by
  induction xs with
  | nil => rfl
  | cons x xs ih =>
    unfold tails
    split
    · next h =>
      rw [h] at ih
      exact congrArg Nat.succ ih
    · next h =>
      rw [h] at ih
      exact congrArg Nat.succ ih

theorem getD_tails (xs : List ℚ) (j : Nat) : (tails xs).getD j 0 = (xs.drop j).sum := by
  induction xs generalizing j with
  | nil => simp [tails]
  | cons x xs ih =>
    have hhead := ih 0
    unfold tails
    split
    · next ht =>
      have hnil : xs = [] := List.length_eq_zero_iff.mp (by rw [← length_tails, ht]; rfl)
      subst hnil
      cases j with
      | zero => exact (zero_add x).trans (by simp)
      | succ j => simp
    · next t ts ht =>
      rw [ht] at hhead ih
      cases j with
      | zero =>
        have htop : t = xs.sum := by simpa using hhead
        rw [List.drop_zero, List.sum_cons, ← htop]
        exact add_comm t x
      | succ j => exact ih j

theorem sum_drop_map_range (f : Nat → ℚ) (m j : Nat) :
    (((List.range m).map f).drop j).sum = ∑ k ∈ Finset.range m, if j ≤ k then f k else 0 := by
  induction m with
  | zero => simp
  | succ m ih =>
    rw [List.range_succ, List.map_append, List.drop_append, List.sum_append, ih,
      Finset.sum_range_succ, List.length_map, List.length_range]
    congr 1
    by_cases hj : j ≤ m
    · simp [hj, Nat.sub_eq_zero_of_le hj]
    · obtain ⟨i, hi⟩ : ∃ i, j - m = i + 1 := ⟨j - m - 1, by omega⟩
      simp [hj, hi]

end Binomials

section Sweeps

variable {sides : Int} {law : Law ℚ} {n : Nat}

structure Law.Ordered (law : Law ℚ) : Prop where
  ascending : (law.map (·.1)).Pairwise (· < ·)
  nonneg : ∀ f ∈ law, 0 ≤ f.2
  certain : law.Certain

theorem Law.Proper.ordered (h : law.Proper sides) : law.Ordered :=
  ⟨h.ascending, fun f hf => (h.positive f hf).le, h.certain⟩

/-- The chance that a die of a rank shows at most a face is the end of a binomial law. -/
theorem Law.Certain.getD_tails_atMostLaw (h : law.Certain) {r : Nat} (hr : r < n) (b : Int) :
    (tails (atMostLaw (binomials n) n (law.chance (· ≤ b)))).getD (r + 1) 0 =
      law.expect n fun faces => if ranked faces r ≤ b then 1 else 0 := by
  have hranked : law.expect n (fun faces => if ranked faces r ≤ b then (1 : ℚ) else 0) =
      law.expect n fun faces => if r < faces.countP (· ≤ b) then 1 else 0 :=
    Law.expect_congr fun faces hlength _ => by
      rw [if_congr (ranked_le_iff (hlength.symm ▸ hr)) rfl rfl]
  rw [hranked, h.expect_countP n _ fun k => if r < k then 1 else 0, getD_tails, atMostLaw_eq,
    sum_drop_map_range, Finset.Nat.sum_antidiagonal_eq_sum_range_succ fun i j =>
      (n.choose i : ℚ) * (law.chance (· ≤ b) ^ i * (1 - law.chance (· ≤ b)) ^ j *
        if r < i then 1 else 0)]
  refine Finset.sum_congr rfl fun k _ => ?_
  by_cases hk : r < k
  · simp [hk]
  · simp [hk]

theorem Chance.lesser_eq_min (x y : ℚ) : lesser x y = min x y := by
  unfold lesser
  by_cases hlt : y < x
  · exact (if_pos hlt).trans (min_eq_right hlt.le).symm
  · exact (if_neg hlt).trans (min_eq_left (not_lt.mp hlt)).symm

theorem foldl_add_mul {α : Type} (xs : List α) (c s : ℚ) (f : α → ℚ) :
    (xs.map f).foldl (fun sum p => sum + c * p) s = s + (xs.map fun x => c * f x).sum := by
  induction xs generalizing s with
  | nil => simp
  | cons x xs ih => rw [List.map_cons, List.foldl_cons, ih, List.map_cons, List.sum_cons, add_assoc]

/-- What is known after the faces up to one of them: the chance of these, the chance of each rank to
show one of them, and the average of what the ranks that do show. -/
def Sweep.upTo (law : Law ℚ) (n : Nat) (ranks : List Nat) (low high : Option Int) (b : Int) :
    Sweep ℚ :=
  ⟨law.chance (· ≤ b),
    ranks.map fun r => law.expect n fun faces => if ranked faces r ≤ b then 1 else 0,
    law.expect n fun faces => (ranks.map fun r =>
      if ranked faces r ≤ b then (clamp low high (ranked faces r) : ℚ) else 0).sum⟩

structure Law.Next (law : Law ℚ) (b : Int) (f : Int × ℚ) : Prop where
  least : b < f.1 ∧ ∀ face ∈ law.map (·.1), b < face → f.1 ≤ face
  chance : law.chance (· ≤ b) + f.2 = law.chance (· ≤ f.1)

theorem Law.Ordered.next (h : law.Ordered) {before after : Law ℚ} {f : Int × ℚ}
    (hlaw : law = before ++ f :: after) {b : Int} (hb : ∀ g ∈ before, g.1 ≤ b) (hf : b < f.1) :
    law.Next b f := by
  have hafter : ∀ g ∈ after, f.1 < g.1 := by
    have hascending := h.ascending
    rw [hlaw, List.map_append, List.map_cons] at hascending
    have hrest := (List.pairwise_cons.mp (List.pairwise_append.mp hascending).2.1).1
    exact fun g hg => hrest g.1 (List.mem_map_of_mem hg)
  refine ⟨⟨hf, fun face hface hlt => ?_⟩, ?_⟩
  · obtain ⟨g, hg, rfl⟩ := List.mem_map.mp hface
    rw [hlaw] at hg
    rcases List.mem_append.mp hg with hg | hg
    · have := hb g hg
      omega
    · rcases List.mem_cons.mp hg with rfl | hg
      · exact le_rfl
      · exact (hafter g hg).le
  · have hnone {c : Int} (hc : c ≤ f.1) : after.filter (fun g => decide (g.1 ≤ c)) = [] := by
      refine List.filter_eq_nil_iff.mpr fun g hg => ?_
      have := hafter g hg
      simp only [decide_eq_true_eq]
      omega
    have hall {c : Int} (hc : b ≤ c) : before.filter (fun g => decide (g.1 ≤ c)) = before := by
      refine List.filter_eq_self.mpr fun g hg => ?_
      have := hb g hg
      simp only [decide_eq_true_eq]
      omega
    unfold chance
    rw [total_eq_sum, total_eq_sum, hlaw, List.filter_append, List.filter_append, hall le_rfl,
      hall hf.le, List.filter_cons_of_neg (by simpa using hf), hnone hf.le,
      List.filter_cons_of_pos (by simp), hnone le_rfl]
    simp

theorem Law.Ordered.chance_le_one (h : law.Ordered) (p : Int → Bool) : law.chance p ≤ 1 := by
  have hsum := h.certain.chance_add_not p
  have hnonneg := law.chance_nonneg h.nonneg fun face => !p face
  linarith

theorem Law.Ordered.step_upTo (h : law.Ordered) {ranks : List Nat} (hr : ∀ r ∈ ranks, r < n)
    (low high : Option Int) {b : Int} {f : Int × ℚ} (hf : law.Next b f) :
    (Sweep.upTo law n ranks low high b).step (binomials n) n (ranks.map Int.ofNat) low high f =
      Sweep.upTo law n ranks low high f.1 := by
  have hranks : (ranks.map Int.ofNat).map (fun r => (tails (atMostLaw (binomials n) n
      (law.chance (· ≤ f.1)))).getD (r + 1).toNat zero) =
        ranks.map fun r => law.expect n fun faces => if ranked faces r ≤ f.1 then 1 else 0 := by
    rw [List.map_map]
    refine List.map_congr_left fun r hmem => ?_
    exact h.certain.getD_tails_atMostLaw (hr r hmem) _
  have hsum : (List.zipWith (· - ·)
      (ranks.map fun r => law.expect n fun faces => if ranked faces r ≤ f.1 then (1 : ℚ) else 0)
      (ranks.map fun r => law.expect n fun faces => if ranked faces r ≤ b then (1 : ℚ) else 0)).foldl
      (fun sum p => sum + (clamp low high f.1 : ℚ) * p) (Sweep.upTo law n ranks low high b).sum =
        (Sweep.upTo law n ranks low high f.1).sum := by
    rw [List.zipWith_map, List.zipWith_self, foldl_add_mul]
    simp only [← Law.expect_sub, ← Law.expect_mul]
    rw [← Law.expect_sum, Sweep.upTo, Sweep.upTo, ← Law.expect_add]
    refine Law.expect_congr fun faces hlength hfaces => ?_
    rw [← List.sum_map_add]
    refine congrArg List.sum (List.map_congr_left fun r hmem => ?_)
    have hface := hfaces _ (ranked_mem (hlength ▸ hr r hmem))
    have hnext := hf.least.2 _ hface
    have hlt := hf.least.1
    by_cases hb : ranked faces r ≤ b
    · rw [if_pos hb, if_pos hb, if_pos (by omega), if_pos (by omega), sub_self, mul_zero, add_zero]
    · by_cases hb' : ranked faces r ≤ f.1
      · have he : ranked faces r = f.1 := by omega
        rw [if_neg hb, if_neg hb, if_pos hb', if_pos hb', he, sub_zero, mul_one, zero_add]
      · rw [if_neg hb, if_neg hb, if_neg hb', if_neg hb', sub_self, mul_zero, add_zero]
  unfold Sweep.step
  dsimp only
  have hc' : (Sweep.upTo law n ranks low high b).cumulative = law.chance (· ≤ b) := rfl
  have hone : lesser one (law.chance (· ≤ f.1)) = law.chance (· ≤ f.1) :=
    (Chance.lesser_eq_min _ _).trans (min_eq_right (h.chance_le_one _))
  rw [hc', hf.chance, hone, hranks]
  exact congrArg _ hsum

theorem Law.Ordered.foldl_step (h : law.Ordered) {ranks : List Nat} (hr : ∀ r ∈ ranks, r < n)
    (low high : Option Int) {before after : Law ℚ} (hlaw : law = before ++ after) {b : Int}
    (hb : ∀ g ∈ before, g.1 ≤ b) (ha : ∀ g ∈ after, b < g.1) :
    ∃ last, (∀ g ∈ law, g.1 ≤ last) ∧
      after.foldl (Sweep.step (binomials n) n (ranks.map Int.ofNat) low high)
        (Sweep.upTo law n ranks low high b) = Sweep.upTo law n ranks low high last := by
  induction after generalizing before b with
  | nil =>
    rw [List.append_nil] at hlaw
    exact ⟨b, hlaw ▸ hb, rfl⟩
  | cons f after ih =>
    have hf := ha f (by simp)
    have hnext := h.next hlaw hb hf
    have hmoved : law = before ++ [f] ++ after := by rw [hlaw, List.append_assoc]; rfl
    rw [List.foldl_cons, h.step_upTo hr low high hnext]
    refine ih hmoved (fun g hg => ?_) fun g hg => ?_
    · rcases List.mem_append.mp hg with hg | hg
      · exact (hb g hg).trans hf.le
      · rw [List.mem_singleton.mp hg]
    · have hascending := h.ascending
      rw [hlaw, List.map_append, List.map_cons] at hascending
      exact (List.pairwise_cons.mp (List.pairwise_append.mp hascending).2.1).1 _
        (List.mem_map_of_mem hg)

theorem Sweep.upTo_below {b : Int} (hb : ∀ f ∈ law, b < f.1) {ranks : List Nat}
    (hr : ∀ r ∈ ranks, r < n) (low high : Option Int) : Sweep.upTo law n ranks low high b =
      ⟨zero, (ranks.map Int.ofNat).map fun _ => zero, zero⟩ := by
  have hnone (c : List Int → ℚ) {r : Nat} (hmem : r ∈ ranks) : law.expect n (fun faces =>
      if ranked faces r ≤ b then c faces else 0) = 0 := by
    refine (Law.expect_congr fun faces hlength hf => if_neg ?_).trans (law.expect_zero n)
    obtain ⟨f, hlaw, he⟩ := List.mem_map.mp (hf _ (ranked_mem (hlength ▸ hr r hmem)))
    rw [← he]
    exact not_le.mpr (hb f hlaw)
  have hchance : law.chance (· ≤ b) = 0 := by
    have hnil : law.filter (fun f => decide (f.1 ≤ b)) = [] := by
      refine List.filter_eq_nil_iff.mpr fun f hf => ?_
      simpa using hb f hf
    unfold Law.chance
    rw [hnil]
    rfl
  have hsum : law.expect n (fun faces => (ranks.map fun r => if ranked faces r ≤ b
      then (clamp low high (ranked faces r) : ℚ) else 0).sum) = 0 := by
    rw [Law.expect_sum]
    refine List.sum_eq_zero fun x hx => ?_
    obtain ⟨r, hmem, rfl⟩ := List.mem_map.mp hx
    exact hnone _ hmem
  have hranks : ranks.map (fun r => law.expect n fun faces =>
      if ranked faces r ≤ b then (1 : ℚ) else 0) = ranks.map fun _ => 0 :=
    List.map_congr_left fun r hmem => hnone _ hmem
  rw [Sweep.upTo, hchance, hsum, hranks, List.map_map]
  rfl

theorem Law.exists_below (law : Law ℚ) : ∃ b, ∀ f ∈ law, b < f.1 := by
  induction law with
  | nil => exact ⟨0, by simp⟩
  | cons f law ih =>
    obtain ⟨b, hb⟩ := ih
    refine ⟨min b (f.1 - 1), fun g hg => ?_⟩
    rcases List.mem_cons.mp hg with rfl | hg
    · omega
    · have := hb g hg
      omega

theorem Law.Ordered.orderStatisticMeans_eq (h : law.Ordered) {ranks : List Nat}
    (hr : ∀ r ∈ ranks, r < n) (low high : Option Int) :
    orderStatisticMeans law n (ranks.map Int.ofNat) low high =
      law.expect n fun faces => (ranks.map fun r => (clamp low high (ranked faces r) : ℚ)).sum := by
  obtain ⟨b, hb⟩ := law.exists_below
  obtain ⟨last, hlast, hfold⟩ :=
    h.foldl_step hr low high (List.nil_append law).symm (by simp) hb
  unfold orderStatisticMeans
  rw [← Sweep.upTo_below hb hr, hfold]
  refine Law.expect_congr fun faces hlength hf => ?_
  refine congrArg List.sum (List.map_congr_left fun r hmem => if_pos ?_)
  obtain ⟨f, hmem', he⟩ := List.mem_map.mp (hf _ (ranked_mem (hlength ▸ hr r hmem)))
  rw [← he]
  exact hlast f hmem'

end Sweeps

section Averages

variable {sides : Int} {law : Law ℚ} {ranks : List Nat}

theorem requireHeld_rat (ns : List Int) : requireHeld ℚ ns = .ok () :=
  if_pos (List.all_eq_true.mpr fun _ _ => rfl)

theorem waysHeld_rat (n k ways more : Nat) : waysHeld ℚ n k ways more = true := by
  induction more generalizing k ways with
  | zero => rfl
  | succ more ih => exact ih ..

theorem eraseDups_of_nodup {ns : List Int} (h : ns.Nodup) : ns.eraseDups = ns := by
  induction ns with
  | nil => rfl
  | cons n ns ih =>
    obtain ⟨hn, hns⟩ := List.nodup_cons.mp h
    rw [List.eraseDups_cons, List.filter_eq_self.mpr, ih hns]
    intro m hm
    simp only [Bool.not_eq_true', beq_eq_false_iff_ne]
    rintro rfl
    exact hn hm

theorem sort_ranks (h : ranks.Nodup) :
    ((ranks.map Int.ofNat).mergeSort fun r s => decide (r ≤ s)).eraseDups =
      (ranks.mergeSort fun r s => decide (r ≤ s)).map Int.ofNat := by
  have hnodup : (ranks.map Int.ofNat).Nodup := h.map fun _ _ => Int.ofNat.inj
  rw [eraseDups_of_nodup ((List.mergeSort_perm ..).nodup_iff.mpr hnodup)]
  refine (List.map_mergeSort fun r _ s _ => ?_).symm
  simp

/-- The average that is computed for some ranks is the average of the sum of their dice, in whatever
order the ranks are given. -/
theorem Law.Ordered.rankedAverage_eq (h : law.Ordered) {n : Nat} (hd : ranks.Nodup)
    (hr : ∀ r ∈ ranks, r < n) (low high : Option Int) :
    rankedAverage law n (ranks.map Int.ofNat) low high = .ok (law.expect n fun faces =>
      (ranks.map fun r => (clamp low high (ranked faces r) : ℚ)).sum) := by
  have hne : List.isEmpty law = false := by
    cases law with
    | nil => exact absurd h.certain (by simp [Law.Certain])
    | cons => rfl
  have hperm : (ranks.mergeSort fun r s => decide (r ≤ s)).Perm ranks := List.mergeSort_perm ..
  have hsorted : ∀ r ∈ ranks.mergeSort fun r s => decide (r ≤ s), r < n := fun r hmem =>
    hr r (hperm.subset hmem)
  have hheld : (((ranks.mergeSort fun r s => decide (r ≤ s)).map Int.ofNat).forM fun r =>
      if r < -1 ∨ (n : Int) ≤ r then .error .missingRank else law.requireHeld low high) =
        (.ok () : Except Fault Unit) := by
    refine forM_eq_ok fun r hmem => ?_
    obtain ⟨k, hk, rfl⟩ := List.mem_map.mp hmem
    have := hsorted k hk
    rw [if_neg (by simp only [Int.ofNat_eq_natCast]; omega)]
    exact requireHeld_rat _
  unfold rankedAverage
  rw [hne, sort_ranks hd]
  simp only [Bool.false_eq_true, if_false, waysHeld_rat, Bool.not_true, hheld]
  refine congrArg Except.ok ((h.orderStatisticMeans_eq hsorted low high).trans ?_)
  exact Law.expect_congr fun faces _ _ => (hperm.map _).sum_eq

theorem Law.Proper.fixedAverage_eq (h : law.Proper sides) {p : Pool} (hp : 1 ≤ p.count)
    (hs : ranks.Sublist (List.range p.count.toNat))
    (low high : Option Int) :
    fixedAverage law p ranks low high = .ok (law.expect p.count.toNat fun faces =>
      (ranks.map fun r => (clamp low high (ranked faces r) : ℚ)).sum) := by
  have hcount : ((p.count.toNat : Nat) : Int) = p.count := Int.toNat_of_nonneg (by omega)
  unfold fixedAverage
  split
  · next hall =>
    have hrange : ranks = List.range p.count.toNat := by
      refine hs.eq_of_length ?_
      rw [List.length_range]
      omega
    have hsum (faces : List Int) (hlength : faces.length = p.count.toNat) :
        (ranks.map fun r => (clamp low high (ranked faces r) : ℚ)).sum =
          (faces.map fun face => (clamp low high face : ℚ)).sum := by
      rw [hrange, ← hlength]
      exact sum_map_ranked faces fun face => (clamp low high face : ℚ)
    have hmean : law.mean low high = (law.map fun f => (clamp low high f.1 : ℚ) * f.2).sum :=
      total_eq_sum _
    rw [Law.expect_congr fun faces hlength _ => hsum faces hlength, h.certain.expect_sum_map, ← hmean]
    unfold Law.requireHeld
    rw [requireHeld_rat]
    refine congrArg Except.ok ?_
    rw [← Int.cast_natCast, hcount]
    rfl
  · rw [← hcount]
    exact h.ordered.rankedAverage_eq (List.nodup_range.sublist hs)
      (fun r hmem => List.mem_range.mp (hs.subset hmem)) low high

end Averages

end DiceTower

import DiceTower.Proofs.Odds.Rerolls

/-! The law of a die of any pool. A reroll that goes on until the face changes may leave faces without
a chance; those that are left are in ascending order, and their chances add up to one. -/

namespace DiceTower

open Chance

namespace Law

/-- All faces of a die, some of them perhaps without a chance. -/
structure Whole (sides : Int) (law : Law ℚ) : Prop where
  faces : law.map (·.1) = facesOf sides
  nonneg : ∀ f ∈ law, 0 ≤ f.2
  certain : law.Certain

/-- Faces of a die in ascending order, each with a chance. -/
structure Proper (sides : Int) (law : Law ℚ) : Prop where
  ascending : (law.map (·.1)).Pairwise (· < ·)
  within : ∀ f ∈ law, 1 ≤ f.1 ∧ f.1 ≤ sides
  positive : ∀ f ∈ law, 0 < f.2
  certain : law.Certain

variable {sides : Int} {fresh law : Law ℚ} {targets : List Int} {recursive : Bool}

theorem Proper.face_within (h : law.Proper sides) {face : Int} (hf : face ∈ law.map (·.1)) :
    1 ≤ face ∧ face ≤ sides := by
  obtain ⟨f, hmem, rfl⟩ := List.mem_map.mp hf
  exact h.within f hmem

theorem Whole.face_within (h : law.Whole sides) {face : Int} (hs : law.Shows face) :
    1 ≤ face ∧ face ≤ sides := by
  obtain ⟨p, hp, -⟩ := hs
  have hmem : face ∈ law.map (·.1) := List.mem_map_of_mem hp
  rw [h.faces] at hmem
  exact mem_facesOf.mp hmem

section Chances

theorem chance_eq_sum (law : Law ℚ) (p : Int → Bool) :
    law.chance p = (law.map fun f => f.2 * if p f.1 then 1 else 0).sum := by
  rw [sum_ite]
  ring

theorem Certain.chance_add_not (h : law.Certain) (p : Int → Bool) :
    law.chance p + law.chance (fun face => !p face) = 1 := by
  have hsum := law.sum_ite p 0 1
  rw [show (law.map (·.2)).sum = 1 from h] at hsum
  have hnot : law.chance (fun face => !p face) =
      (law.map fun f => f.2 * if p f.1 then 0 else 1).sum := by
    rw [chance_eq_sum]
    refine congrArg List.sum (List.map_congr_left fun f _ => ?_)
    cases p f.1 <;> simp
  rw [hnot, hsum]
  ring

theorem Certain.chance_eq_one (h : law.Certain) {p : Int → Bool} (hp : ∀ f ∈ law, p f.1 = true) :
    law.chance p = 1 := by
  have hall : law.filter (fun f => p f.1) = law := List.filter_eq_self.mpr hp
  rw [chance, total_eq_sum, hall]
  exact h

end Chances

section Rerolls

def instead (fresh : Law ℚ) (targets : List Int) (recursive : Bool) : Law ℚ :=
  if recursive then fresh.map fun f =>
    (f.1, if targets.contains f.1 then 0 else f.2 / (1 - fresh.chance targets.contains))
  else fresh

/-- A recursive reroll is one reroll with a die that shows no target. -/
theorem reroll_eq (law : Law ℚ) (h : recursive = true → fresh.chance targets.contains < 1) :
    Law.reroll fresh law targets recursive =
      Law.reroll (fresh.instead targets recursive) law targets false := by
  cases recursive with
  | false => rfl
  | true =>
    have hless : less (fresh.chance targets.contains) one = true := h rfl
    unfold Law.reroll instead
    simp only [hless, Bool.not_true, Bool.and_false, Bool.false_eq_true, if_false, if_true,
      Bool.false_and, List.zipWith_map_left]
    rfl

theorem Whole.instead (h : fresh.Whole sides)
    (hc : recursive = true → fresh.chance targets.contains < 1) :
    (fresh.instead targets recursive).Whole sides := by
  cases recursive with
  | false => exact h
  | true =>
    have hpos : 0 < 1 - fresh.chance targets.contains := by
      have := hc rfl
      linarith
    have hsum := fresh.sum_ite targets.contains 0 (1 / (1 - fresh.chance targets.contains))
    rw [show (fresh.map (·.2)).sum = 1 from h.certain, mul_zero, zero_add,
      mul_one_div_cancel hpos.ne'] at hsum
    unfold Law.instead
    refine ⟨?_, fun f hf => ?_, ?_⟩
    · rw [if_pos rfl, List.map_map]
      exact h.faces
    · rw [if_pos rfl] at hf
      obtain ⟨g, hg, rfl⟩ := List.mem_map.mp hf
      have hnonneg := h.nonneg g hg
      dsimp only
      split
      · exact le_rfl
      · exact div_nonneg hnonneg hpos.le
    · unfold Certain
      rw [if_pos rfl, List.map_map]
      refine Eq.trans (congrArg List.sum (List.map_congr_left fun f _ => ?_)) hsum
      simp only [Function.comp]
      split
      · simp
      · rw [mul_one_div]

theorem Whole.reroll_once (hf : fresh.Whole sides) (hl : law.Whole sides) (targets : List Int) :
    (Law.reroll fresh law targets false).Whole sides := by
  have hfaces := hf.faces.trans hl.faces.symm
  refine ⟨(faces_reroll hfaces targets).trans hl.faces, ?_, hf.certain.reroll hl.certain hfaces targets⟩
  rintro ⟨face, x⟩ hx
  obtain ⟨p, g, hz, rfl⟩ := (mem_reroll_iff targets).mp hx
  obtain ⟨hp, hg⟩ := List.of_mem_zip hz
  have hhit := chance_nonneg hl.nonneg targets.contains
  have hdrawn := mul_nonneg hhit (hf.nonneg _ hp)
  have hkept := hl.nonneg _ hg
  dsimp only at hdrawn ⊢
  split <;> linarith

theorem exists_mem_zip (hf : fresh.map (·.1) = law.map (·.1)) :
    (∀ f ∈ fresh, ∃ g ∈ law, (f, g) ∈ fresh.zip law) ∧
      ∀ g ∈ law, ∃ p, ((g.1, p), g) ∈ fresh.zip law := by
  induction fresh generalizing law with
  | nil =>
    rw [List.map_eq_nil_iff.mp hf.symm]
    simp
  | cons f fresh ih =>
    cases law with
    | nil => cases hf
    | cons g law =>
      obtain ⟨hface, hrest⟩ := List.cons.inj hf
      obtain ⟨hleft, hright⟩ := ih hrest
      constructor
      · intro f' hf'
        rcases List.mem_cons.mp hf' with rfl | hf'
        · exact ⟨g, by simp, by simp⟩
        · obtain ⟨g', hg', hz⟩ := hleft f' hf'
          exact ⟨g', List.mem_cons_of_mem _ hg', List.mem_cons_of_mem _ hz⟩
      · intro g' hg'
        rcases List.mem_cons.mp hg' with rfl | hg'
        · exact ⟨f.2, by simp [← hface]⟩
        · obtain ⟨p, hz⟩ := hright g' hg'
          exact ⟨p, List.mem_cons_of_mem _ hz⟩

theorem Shows.keep (hf : fresh.Whole sides) (hl : law.Whole sides) {face : Int}
    (hs : law.Shows face) (ht : targets.contains face = false) :
    (Law.reroll fresh law targets false).Shows face := by
  obtain ⟨x, hx, hpos⟩ := hs
  obtain ⟨p, hz⟩ := (exists_mem_zip (hf.faces.trans hl.faces.symm)).2 _ hx
  refine ⟨_, (mem_reroll_iff targets).mpr ⟨p, _, hz, rfl⟩, ?_⟩
  have hhit := chance_nonneg hl.nonneg targets.contains
  have hdrawn := mul_nonneg hhit (hf.nonneg _ (List.of_mem_zip hz).1)
  rw [ht]
  exact add_pos_of_pos_of_nonneg hpos hdrawn

theorem Shows.redraw (hf : fresh.Whole sides) (hl : law.Whole sides) {face face' : Int}
    (hs : law.Shows face) (ht : targets.contains face = true) (hs' : fresh.Shows face') :
    (Law.reroll fresh law targets false).Shows face' := by
  obtain ⟨p, hp, hpos⟩ := hs'
  obtain ⟨g, hg, hz⟩ := (exists_mem_zip (hf.faces.trans hl.faces.symm)).1 _ hp
  refine ⟨_, (mem_reroll_iff targets).mpr ⟨p, g, hz, rfl⟩, ?_⟩
  have hdrawn := mul_pos (hs.chance_pos hl.nonneg ht) hpos
  have hkept := hl.nonneg _ hg
  split <;> linarith

theorem Shows.instead {face : Int} (hs : fresh.Shows face)
    (hc : recursive = true → fresh.chance targets.contains < 1 ∧ targets.contains face = false) :
    (fresh.instead targets recursive).Shows face := by
  cases recursive with
  | false => exact hs
  | true =>
    obtain ⟨p, hp, hpos⟩ := hs
    obtain ⟨hless, hclear⟩ := hc rfl
    refine ⟨_, List.mem_map_of_mem hp, ?_⟩
    have hrest : 0 < 1 - fresh.chance targets.contains := by linarith
    simpa only [hclear, Bool.false_eq_true, if_false] using div_pos hpos hrest

theorem Whole.reroll (hf : fresh.Whole sides) (hl : law.Whole sides) (targets : List Int)
    (recursive : Bool) : (Law.reroll fresh law targets recursive).Whole sides := by
  by_cases hc : recursive = true → fresh.chance targets.contains < 1
  · rw [reroll_eq law hc]
    exact (hf.instead hc).reroll_once hl targets
  · obtain ⟨rfl, hless⟩ := Classical.not_imp.mp hc
    have hkeeps : less (fresh.chance targets.contains) one = false := eq_false_of_ne_true hless
    unfold Law.reroll
    simpa [hkeeps] using hl

theorem Shows.reroll (hf : fresh.Whole sides) (hl : law.Whole sides) {face face' : Int}
    (hs : law.Shows face)
    (hstep : targets.contains face = false ∧ face' = face ∨ targets.contains face = true ∧
      fresh.Shows face' ∧ (recursive = true → targets.contains face' = false)) :
    (Law.reroll fresh law targets recursive).Shows face' := by
  by_cases hc : recursive = true → fresh.chance targets.contains < 1
  · rw [reroll_eq law hc]
    rcases hstep with ⟨ht, rfl⟩ | ⟨ht, hs', hclear⟩
    · exact hs.keep (hf.instead hc) hl ht
    · exact hs.redraw (hf.instead hc) hl ht (hs'.instead fun hr => ⟨hc hr, hclear hr⟩)
  · obtain ⟨rfl, hless⟩ := Classical.not_imp.mp hc
    have hkeeps : less (fresh.chance targets.contains) one = false := eq_false_of_ne_true hless
    have hsame : Law.reroll fresh law targets true = law := by
      unfold Law.reroll
      simp [hkeeps]
    rw [hsame]
    rcases hstep with ⟨-, rfl⟩ | ⟨-, hs', hclear⟩
    · exact hs
    · have hrest := hs'.chance_pos hf.nonneg (p := fun face => !targets.contains face)
        (by rw [hclear rfl]; rfl)
      have hsum := hf.certain.chance_add_not targets.contains
      exact absurd (by linarith) hless

theorem exists_shows_of_chance_pos {p : Int → Bool} (h : 0 < law.chance p) :
    ∃ face, law.Shows face ∧ p face = true := by
  rw [chance, total_eq_sum] at h
  obtain ⟨f, hf, hpos⟩ := List.exists_lt_of_sum_lt (fun _ => 0)
    (fun f : Int × ℚ => f.2) (by simpa using h)
  obtain ⟨hlaw, hp⟩ := List.mem_filter.mp hf
  exact ⟨f.1, ⟨f.2, hlaw, hpos⟩, hp⟩

theorem fst_eq_of_mem_zip {f g : Int × ℚ} (hf : fresh.map (·.1) = law.map (·.1))
    (h : (f, g) ∈ fresh.zip law) : f.1 = g.1 := by
  induction fresh generalizing law with
  | nil => cases h
  | cons f' fresh ih =>
    cases law with
    | nil => cases h
    | cons g' law =>
      obtain ⟨hface, hrest⟩ := List.cons.inj hf
      rcases List.mem_cons.mp h with he | h
      · obtain ⟨rfl, rfl⟩ := Prod.mk.inj he
        exact hface
      · exact ih hrest h

theorem Shows.of_instead (hf : fresh.Whole sides) {face : Int}
    (h : (fresh.instead targets recursive).Shows face) :
    fresh.Shows face ∧ (recursive = true → targets.contains face = false) := by
  cases recursive with
  | false => exact ⟨h, nofun⟩
  | true =>
    obtain ⟨p, hp, hpos⟩ := h
    obtain ⟨f, hmem, he⟩ := List.mem_map.mp hp
    obtain ⟨rfl, rfl⟩ := Prod.mk.inj he
    cases ht : targets.contains f.1 with
    | true => simp only [ht, if_true, lt_self_iff_false] at hpos
    | false =>
      simp only [ht, Bool.false_eq_true, if_false] at hpos
      have hne : f.2 ≠ 0 := fun hzero => by simp [hzero] at hpos
      exact ⟨⟨f.2, hmem, (hf.nonneg f hmem).lt_of_ne' hne⟩, fun _ => rfl⟩

/-- Where a face comes from that a die may show after a reroll. -/
theorem Shows.of_reroll (hf : fresh.Whole sides) (hl : law.Whole sides)
    (hc : recursive = true → fresh.chance targets.contains < 1) {face' : Int}
    (hs : (Law.reroll fresh law targets recursive).Shows face') :
    ∃ face, law.Shows face ∧ (targets.contains face = false ∧ face' = face ∨
      targets.contains face = true ∧ fresh.Shows face' ∧
        (recursive = true → targets.contains face' = false)) := by
  have hfresh := hf.instead hc
  rw [reroll_eq law hc] at hs
  obtain ⟨x, hx, hpos⟩ := hs
  obtain ⟨p, g, hz, rfl⟩ := (mem_reroll_iff targets).mp hx
  obtain ⟨hp, hg⟩ := List.of_mem_zip hz
  have hface : face' = g.1 := fst_eq_of_mem_zip (hfresh.faces.trans hl.faces.symm) hz
  have hhit := chance_nonneg hl.nonneg targets.contains
  by_cases hkept : targets.contains face' = false ∧ 0 < g.2
  · exact ⟨face', ⟨g.2, by rwa [hface], hkept.2⟩, .inl ⟨hkept.1, rfl⟩⟩
  · have hdrawn : 0 < law.chance targets.contains * p := by
      cases ht : targets.contains face' with
      | true => simpa only [ht, if_true, zero_add] using hpos
      | false =>
        have hzero : g.2 ≤ 0 := not_lt.mp fun h => hkept ⟨ht, h⟩
        simp only [ht, Bool.false_eq_true, if_false] at hpos
        linarith
    have hchance : 0 < law.chance targets.contains :=
      hhit.lt_of_ne fun he => by simp [← he] at hdrawn
    obtain ⟨face, hshows, ht⟩ := exists_shows_of_chance_pos hchance
    have hdraw := Shows.of_instead hf ⟨p, hp, (mul_pos_iff_of_pos_left hchance).mp hdrawn⟩
    exact ⟨face, hshows, .inr ⟨ht, hdraw⟩⟩

end Rerolls

section Pools

theorem Full.whole (h : law.Full sides) (hc : law.Certain) : law.Whole sides :=
  ⟨h.faces, fun f hf => (h.positive f hf).le, hc⟩

theorem whole_uniform (h : 1 ≤ sides) : (uniform sides : Law ℚ).Whole sides :=
  (full_uniform h).whole (certain_uniform h)

theorem shows_uniform {face : Int} (h : 1 ≤ face ∧ face ≤ sides) :
    (uniform sides : Law ℚ).Shows face := by
  have hfull : (uniform sides : Law ℚ).Full sides := full_uniform (h.1.trans h.2)
  obtain ⟨p, hp⟩ := hfull.mem_iff.mp (mem_facesOf.mpr h)
  exact ⟨p, hp, hfull.positive _ hp⟩

def possible (law : Law ℚ) : Law ℚ := law.filter fun f => less zero f.2

theorem shows_iff {face : Int} : law.Shows face ↔ face ∈ law.possible.map (·.1) := by
  unfold possible
  constructor
  · rintro ⟨p, hp, hpos⟩
    exact List.mem_map.mpr ⟨_, List.mem_filter.mpr ⟨hp, hpos⟩, rfl⟩
  · intro h
    obtain ⟨⟨_, p⟩, hf, rfl⟩ := List.mem_map.mp h
    obtain ⟨hp, hpos⟩ := List.mem_filter.mp hf
    exact ⟨p, hp, hpos⟩

theorem shows_possible {face : Int} : law.possible.Shows face ↔ law.Shows face :=
  ⟨fun ⟨p, hp, hpos⟩ => ⟨p, (List.mem_filter.mp hp).1, hpos⟩,
    fun ⟨p, hp, hpos⟩ => ⟨p, List.mem_filter.mpr ⟨hp, hpos⟩, hpos⟩⟩

theorem sum_possible (h : ∀ f ∈ law, 0 ≤ f.2) :
    (law.possible.map (·.2)).sum = (law.map (·.2)).sum := by
  induction law with
  | nil => rfl
  | cons f law ih =>
    obtain ⟨hf, hlaw⟩ := List.forall_mem_cons.mp h
    have hrest := ih hlaw
    unfold possible at hrest ⊢
    rw [List.filter_cons, List.map_cons, List.sum_cons]
    by_cases hp : less zero f.2 = true
    · rw [if_pos hp, List.map_cons, List.sum_cons, hrest]
    · have hzero : f.2 = 0 := le_antisymm (not_lt.mp hp) hf
      rw [if_neg hp, hrest, hzero, zero_add]

theorem Whole.possible (h : law.Whole sides) : law.possible.Proper sides := by
  have hascending : (facesOf sides).Pairwise (· < ·) := by
    refine List.pairwise_map.mpr (List.pairwise_lt_range.imp fun hlt => ?_)
    omega
  refine ⟨?_, fun f hf => ?_, fun f hf => ?_, ?_⟩
  · rw [← h.faces] at hascending
    exact hascending.sublist ((List.filter_sublist ..).map _)
  · have hmem : f.1 ∈ law.map (·.1) := List.mem_map_of_mem (List.mem_filter.mp hf).1
    rw [h.faces] at hmem
    exact mem_facesOf.mp hmem
  · exact (List.mem_filter.mp hf).2
  · exact (sum_possible h.nonneg).trans h.certain

def afterOperation (fresh law : Law ℚ) (op : Operation) : Law ℚ :=
  if op.kind = .reroll then Law.reroll fresh law op.operand.values op.recursive else law

theorem Whole.afterOperation (hf : fresh.Whole sides) (hl : law.Whole sides) (op : Operation) :
    (fresh.afterOperation law op).Whole sides := by
  unfold Law.afterOperation
  split
  · exact hf.reroll hl _ _
  · exact hl

theorem ofPool_eq_possible (p : Pool) : (ofPool p : Law ℚ) =
    (p.operations.foldl (uniform p.sides : Law ℚ).afterOperation (uniform p.sides)).possible := rfl

theorem proper_ofPool {p : Pool} (h : 1 ≤ p.sides) : (ofPool p : Law ℚ).Proper p.sides := by
  have hu := whole_uniform h
  have hrun : ∀ (ops : List Operation) (law : Law ℚ), law.Whole p.sides →
      (ops.foldl (uniform p.sides : Law ℚ).afterOperation law).Whole p.sides := by
    intro ops
    induction ops with
    | nil => exact fun law hl => hl
    | cons op ops ih => exact fun law hl => ih _ (hu.afterOperation hl op)
  rw [ofPool_eq_possible]
  exact (hrun p.operations _ hu).possible

end Pools

end Law

end DiceTower

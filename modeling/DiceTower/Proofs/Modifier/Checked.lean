import DiceTower.Rulebook.Basic
import DiceTower.Proofs.Outcomes

/-! What is known of the modifiers that a rulebook gives to a roll: each was checked, so that its
amount fits its kind. -/

namespace DiceTower

namespace Modifier

/-- The amount fits the kind, as far as the dice and the total depend on it. -/
structure Fits (m : Modifier) : Prop where
  flat : m.kind = .flat → ∃ n, m.amount = .whole n
  dice : m.kind = .dice → ∃ t, m.amount = .dice t
  scale : m.kind.scales = true → ∃ s, m.amount.scalar? = some s ∧ s.isNegative = false ∧
    (m.kind = .divider → s.isZero = false)
  faces : m.kind.operation? ≠ none → ∀ n ∈ m.amount.listedFaces, 1 ≤ n

variable {m m₀ : Modifier} {limits : Limits}

theorem fits_of_kind (h : m.kind ≠ .flat) (hd : m.kind ≠ .dice) (hs : m.kind.scales = false)
    (ho : m.kind.operation? = none) : m.Fits :=
  ⟨fun he => absurd he h, fun he => absurd he hd, by simp [hs], fun hn => absurd ho hn⟩

theorem fits_of_checkDice (hk : m₀.kind = .dice) (h : m₀.checkDice limits = .ok m) : m.Fits := by
  have hm : m.kind = .dice ∧ ∃ t, m.amount = .dice t := by
    unfold checkDice at h
    split at h
    · split at h
      · next t _ =>
        cases h
        exact ⟨hk, t, rfl⟩
      · cases h
    · next t ht =>
      cases h
      exact ⟨hk, t, ht⟩
    · cases h
  obtain ⟨hk, ht⟩ := hm
  exact ⟨by simp [hk], fun _ => ht, by simp [hk, ModifierKind.scales],
    by simp [hk, ModifierKind.operation?]⟩

theorem fits_of_checkWhole (hk : m₀.kind = .flat ∨ m₀.kind = .extraAttack)
    (h : m₀.checkWhole = .ok m) : m.Fits := by
  have hm : m = m₀ ∧ ∃ n, m.amount = .whole n := by
    unfold checkWhole at h
    split at h
    · cases h
    · next n hn =>
      split at h
      · cases h
      · cases h
        refine ⟨rfl, n, ?_⟩
        cases ha : m.amount <;> simp [ha, Amount.whole?] at hn
        rw [hn]
  obtain ⟨rfl, hn⟩ := hm
  exact ⟨fun _ => hn, by rcases hk with hk | hk <;> simp [hk],
    by rcases hk with hk | hk <;> simp [hk, ModifierKind.scales],
    by rcases hk with hk | hk <;> simp [hk, ModifierKind.operation?]⟩

theorem fits_of_checkScale (hk : m₀.kind.scales = true) (h : m₀.checkScale = .ok m) : m.Fits := by
  unfold checkScale at h
  split at h
  · cases h
  · next s hs =>
    split at h
    · cases h
    · next hn =>
      split at h
      · cases h
      · next hz =>
        cases h
        refine ⟨?_, ?_, fun _ => ⟨s, hs, by simpa using hn, fun hd => by simpa [hd] using hz⟩, ?_⟩
        all_goals cases hm : m.kind <;> simp [hm, ModifierKind.scales] at hk
        all_goals simp [ModifierKind.operation?]

theorem fits_of_checkFace (hk : m₀.kind ≠ .flat ∧ m₀.kind ≠ .dice ∧ m₀.kind.scales = false)
    (h : m₀.checkFace = .ok m) : m.Fits := by
  unfold checkFace checkFace.fail at h
  split at h
  · next n hn =>
    split at h
    · next h1 =>
      cases h
      refine ⟨fun he => absurd he hk.1, fun he => absurd he hk.2.1, by simp [hk.2.2], fun _ => ?_⟩
      cases ha : m.amount <;> simp [ha, Amount.whole?] at hn
      simpa [Amount.listedFaces, hn] using h1
    · cases h
  · cases h

theorem fits_of_checkReroll (hk : m₀.kind = .reroll) (h : m₀.checkReroll = .ok m) : m.Fits := by
  unfold checkReroll at h
  dsimp only at h
  split at h
  · next hf =>
    cases h
    refine ⟨by simp [hk], by simp [hk], by simp [hk, ModifierKind.scales], fun _ => ?_⟩
    simpa using hf.2
  · cases h

theorem fits_of_checkCritRange (hk : m₀.kind = .critRange) (h : m₀.checkCritRange = .ok m) :
    m.Fits := by
  unfold checkCritRange checkCritRange.fail at h
  split at h
  · split at h
    · cases h
      exact fits_of_kind (by simp [hk]) (by simp [hk]) (by rw [hk]; rfl) (by rw [hk]; rfl)
    · cases h
  · cases h

theorem fits_of_check (h : m₀.check limits = .ok m) : m.Fits := by
  unfold check at h
  cases hk : m₀.kind <;> simp only [hk] at h
  case flat => exact fits_of_checkWhole (.inl hk) h
  case extraAttack => exact fits_of_checkWhole (.inr hk) h
  case dice => exact fits_of_checkDice hk h
  case multiplier | divider => exact fits_of_checkScale (by rw [hk]; rfl) h
  case critRange => exact fits_of_checkCritRange hk h
  case minimum | maximum | replaceDie => exact fits_of_checkFace (by simp [hk, ModifierKind.scales]) h
  case reroll => exact fits_of_checkReroll hk h
  case advantage | disadvantage =>
    cases h
    exact fits_of_kind (by simp [hk]) (by simp [hk]) (by rw [hk]; rfl) (by rw [hk]; rfl)

theorem check_cases (h : m₀.check limits = .ok m) : m = m₀ ∨ ∃ text t, m₀.kind = .dice ∧
    m₀.amount = .text text ∧ Term.parse limits text = .ok t ∧ m = { m₀ with amount := .dice t } := by
  unfold check at h
  split at h
  · next hk =>
    unfold checkDice at h
    split at h
    · next text ha =>
      split at h
      · next t ht => exact .inr ⟨text, t, hk, ha, ht, (Except.ok.inj h).symm⟩
      · cases h
    · exact .inl (Except.ok.inj h).symm
    · cases h
  all_goals grind [checkWhole, checkScale, checkCritRange, checkCritRange.fail, checkFace,
    checkFace.fail, checkReroll]

theorem eq_of_check (h : m₀.check limits = .ok m) : ∃ amount, m = { m₀ with amount } := by
  rcases check_cases h with rfl | ⟨_, t, _, _, _, rfl⟩
  · exact ⟨m.amount, rfl⟩
  · exact ⟨.dice t, rfl⟩

theorem check_of_check (h : m₀.check limits = .ok m) : m.check limits = .ok m := by
  rcases check_cases h with rfl | ⟨_, t, hk, _, _, rfl⟩
  · exact h
  · unfold check
    simp only [hk]
    rfl

def IsCount (m : Modifier) : Prop :=
  m.kind = .extraAttack ∨ m.kind = .critRange ∨ m.kind = .replaceDie

theorem whole_of_check (hk : m.IsCount) (h : m₀.check limits = .ok m) : ∃ n, m.amount = .whole n := by
  have hwhole {n : Int} (hn : m.amount.whole? = some n) : ∃ n, m.amount = .whole n := by
    cases ha : m.amount <;> simp [ha, Amount.whole?] at hn
    exact ⟨_, rfl⟩
  obtain ⟨amount, hm⟩ := eq_of_check h
  have hkind : m₀.kind = m.kind := by rw [hm]
  unfold check at h
  rw [hkind] at h
  rcases hk with hk | hk | hk <;> rw [hk] at h
  · unfold checkWhole at h
    grind
  · unfold checkCritRange checkCritRange.fail at h
    grind
  · unfold checkFace checkFace.fail at h
    grind

theorem mem_place {x m : Modifier} {ms : List Modifier} (h : x ∈ place m ms) : x = m ∨ x ∈ ms := by
  induction ms with
  | nil => exact .inl (List.mem_singleton.mp h)
  | cons n ms ih =>
    unfold place at h
    split at h
    · rcases List.mem_cons.mp h with rfl | h
      · split
        · exact .inl rfl
        · exact .inr List.mem_cons_self
      · exact .inr (List.mem_cons_of_mem _ h)
    · rcases List.mem_cons.mp h with rfl | h
      · exact .inr List.mem_cons_self
      · exact (ih h).imp_right (List.mem_cons_of_mem _)

theorem mem_of_mem_foldl_place {x : Modifier} {kept ms : List Modifier}
    (h : x ∈ ms.foldl (fun kept m => place m kept) kept) : x ∈ kept ∨ x ∈ ms := by
  induction ms generalizing kept with
  | nil => exact .inl h
  | cons m ms ih =>
    rcases ih h with h | h
    · rcases mem_place h with rfl | h
      · exact .inr List.mem_cons_self
      · exact .inl h
    · exact .inr (List.mem_cons_of_mem _ h)

theorem mem_of_mem_best {x : Modifier} {ms : List Modifier} (h : x ∈ best ms) : x ∈ ms :=
  (mem_of_mem_foldl_place h).resolve_left List.not_mem_nil

theorem mem_of_mem_collapse {x : Modifier} {ms : List Modifier} (h : x ∈ collapse ms) : x ∈ ms := by
  unfold collapse at h
  rw [List.mem_mergeSort, List.mem_append] at h
  rcases h with h | h
  · exact (List.mem_filter.mp h).1
  · exact (List.mem_filter.mp (mem_of_mem_best h)).1

end Modifier

namespace Rulebook

theorem check_of_validate {b : Rulebook} {m m₀ : Modifier}
    (h : b.validate m₀ = .ok (some m)) : m₀.check b.limits = .ok m := by
  unfold validate at h
  split at h
  · cases h
  · obtain ⟨_, hc, he⟩ := map_eq_ok_iff.mp h
    cases he
    exact hc

theorem check_of_judge {b : Rulebook} {c : Context} {m m₀ : Modifier}
    (h : b.judge c m₀ = .ok (some m)) : m₀.check b.limits = .ok m := by
  unfold judge at h
  split at h
  · cases h
  · cases h
  · next m₁ hv =>
    have hm := check_of_validate hv
    split at h
    · cases h
      exact hm
    · split at h
      · cases h
        exact hm
      · cases h
      · cases h

theorem validate_of_judge {b : Rulebook} {c : Context} {m m₀ : Modifier}
    (h : b.judge c m₀ = .ok (some m)) : b.validate m = .ok (some m) := by
  have hcheck := Modifier.check_of_check (check_of_judge h)
  obtain ⟨amount, hm⟩ := Modifier.eq_of_check (check_of_judge h)
  have hcounts : ¬ (m.source = .homebrew ∧ b.homebrew = false) := by
    intro hhome
    have hsource : m.source = m₀.source := by rw [hm]
    rw [hsource] at hhome
    rw [judge, validate, if_pos hhome] at h
    cases h
  rw [validate, if_neg hcounts, hcheck]
  rfl

theorem holds_of_judge {b : Rulebook} {c : Context} {m m₀ : Modifier}
    (h : b.judge c m₀ = .ok (some m)) : ∀ holds ∈ m.condition, holds c = .ok true := by
  intro holds hholds
  unfold judge at h
  split at h
  · cases h
  · cases h
  · split at h
    · next hnone =>
      cases h
      rw [hnone] at hholds
      cases hholds
    · next holds' hsome =>
      split at h
      · next htrue =>
        cases h
        obtain rfl := Option.some.inj (hsome.symm.trans hholds)
        exact htrue
      · cases h
      · cases h

theorem fits_of_judge {b : Rulebook} {c : Context} {m m₀ : Modifier}
    (h : b.judge c m₀ = .ok (some m)) : m.Fits := Modifier.fits_of_check (check_of_judge h)

theorem eq_of_judge {b : Rulebook} {c : Context} {m m₀ : Modifier}
    (h : b.judge c m₀ = .ok (some m)) : ∃ amount, m = { m₀ with amount } :=
  Modifier.eq_of_check (check_of_judge h)

theorem judge_congr {b : Rulebook} {c c' : Context} {m : Modifier}
    (h : ∀ holds, m.condition = some holds → holds c' = holds c) : b.judge c' m = b.judge c m := by
  unfold judge
  cases hv : b.validate m with
  | error fault => rfl
  | ok m' =>
    cases m' with
    | none => rfl
    | some m' =>
      obtain ⟨amount, rfl⟩ := Modifier.eq_of_check (check_of_validate hv)
      cases hc : m.condition with
      | none => rfl
      | some holds => simp only [h holds hc]

section Resolve

variable {b : Rulebook} {c c' : Context} {kind : RollType} {extra : List Modifier}
  {withCharacter : Bool} {m : Modifier}

/-- Situations in which the rules say the same and no condition tells a difference give a roll the
same modifiers, and leave the same records. -/
theorem resolveNoted_congr
    (ha : b.answers c' kind withCharacter = b.answers c kind withCharacter)
    (hm : ∀ m ∈ offered (b.answers c kind withCharacter) ++ extra, ∀ holds,
      m.condition = some holds → holds c' = holds c) :
    b.resolveNoted c' kind extra withCharacter = b.resolveNoted c kind extra withCharacter := by
  have happlicable : b.applicable c' (offered (b.answers c kind withCharacter) ++ extra) =
      b.applicable c (offered (b.answers c kind withCharacter) ++ extra) :=
    List.filterMap_congr fun m hmem => by rw [judge_congr (hm m hmem)]
  have hrejections : b.rejections c' (offered (b.answers c kind withCharacter) ++ extra) =
      b.rejections c (offered (b.answers c kind withCharacter) ++ extra) :=
    List.filterMap_congr fun m hmem => by rw [judge_congr (hm m hmem)]
  unfold resolveNoted records resolve
  rw [ha]
  dsimp only
  rw [happlicable, hrejections]

theorem exists_judge_of_mem_resolve (h : m ∈ b.resolve c kind extra withCharacter) :
    ∃ m₀, b.judge c m₀ = .ok (some m) := by
  obtain ⟨m₀, _, hm⟩ := List.mem_filterMap.mp (Modifier.mem_of_mem_collapse h)
  split at hm
  · next hj =>
    rw [hm] at hj
    exact ⟨m₀, hj⟩
  · cases hm

theorem fits_of_mem_resolve (h : m ∈ b.resolve c kind extra withCharacter) : m.Fits := by
  obtain ⟨m₀, hj⟩ := exists_judge_of_mem_resolve h
  exact fits_of_judge hj

theorem whole_of_mem_resolve (h : m ∈ b.resolve c kind extra withCharacter) (hk : m.IsCount) :
    ∃ n, m.amount = .whole n := by
  obtain ⟨m₀, hj⟩ := exists_judge_of_mem_resolve h
  exact Modifier.whole_of_check hk (check_of_judge hj)

end Resolve

end Rulebook

end DiceTower

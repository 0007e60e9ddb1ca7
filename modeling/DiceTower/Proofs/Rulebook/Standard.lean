import DiceTower.Proofs.Modifier.Collapse
import DiceTower.Rulebook.Basic

/-! What the usual rules offer to a roll. They add numbers and dice, give advantage and disadvantage
and change what is a critical hit; they never touch the faces of the dice, and damage has no
advantage. -/

namespace DiceTower

structure Modifier.Favours (advantage : Bool) (m : Modifier) : Prop where
  kind : m.kind = if advantage then .advantage else .disadvantage
  timing : m.timing = .beforeRoll
  appliesTo : m.appliesTo = none

/-- A modifier as the usual rules offer it to a type of roll. -/
structure Modifier.Usual (kind : RollType) (m : Modifier) : Prop where
  cumulative : m.cumulative = false
  operation : m.kind.operation? = none
  face : m.kind ≠ .replaceDie
  copies : m.kind ≠ .extraAttack
  once : m.isOnce = true → m.id = if kind.isDamage then "sneak_attack" else "bardic_inspiration"
  fair : kind.isDamage = true → m.kind ≠ .advantage ∧ m.kind ≠ .disadvantage
  given : m.source = .temporary →
    m.name = "Advantage" ∧ m.Favours true ∨ m.name = "Disadvantage" ∧ m.Favours false
  hidden : kind.isAttack = true → m.source = .condition → m.name = "Hidden" → m.Favours true

theorem Modifier.Usual.withAmount {kind : RollType} {m : Modifier} (h : m.Usual kind)
    (amount : Amount) : Modifier.Usual kind { m with amount } where
  cumulative := h.cumulative
  operation := h.operation
  face := h.face
  copies := h.copies
  once := h.once
  fair := h.fair
  given hs := (h.given hs).imp (fun hg => ⟨hg.1, hg.2.kind, hg.2.timing, hg.2.appliesTo⟩)
    fun hg => ⟨hg.1, hg.2.kind, hg.2.timing, hg.2.appliesTo⟩
  hidden hk hs hn := ⟨(h.hidden hk hs hn).kind, (h.hidden hk hs hn).timing,
    (h.hidden hk hs hn).appliesTo⟩

theorem Modifier.usual_of_bonus {kind : RollType} {m : Modifier}
    (hk : m.kind = .flat ∨ m.kind = .dice ∨ m.kind = .critRange) (hc : m.cumulative = false)
    (ho : m.isOnce = true → m.id = if kind.isDamage then "sneak_attack" else "bardic_inspiration")
    (hs : m.source ≠ .temporary ∧ m.source ≠ .condition) : m.Usual kind := by
  refine ⟨hc, ?_, ?_, ?_, ho, fun _ => ⟨?_, ?_⟩, fun h => absurd h hs.1, fun _ h => absurd h hs.2⟩
  all_goals rcases hk with hk | hk | hk <;> simp [hk, ModifierKind.operation?]

theorem Modifier.usual_of_circumstance {kind : RollType} {m : Modifier}
    (hk : m.kind = .advantage ∨ m.kind = .disadvantage ∨ m.kind = .flat)
    (hc : m.cumulative = false) (ho : m.isOnce = false) (hd : kind.isDamage = false)
    (hs : m.source = .condition) (hh : m.name = "Hidden" → m.Favours true) : m.Usual kind := by
  refine ⟨hc, ?_, ?_, ?_, by simp [ho], by simp [hd], by simp [hs], fun _ _ => hh⟩
  all_goals rcases hk with hk | hk | hk <;> simp [hk, ModifierKind.operation?]

theorem RollType.not_isDamage_of_isD20 {kind : RollType} (h : kind.isD20 = true) :
    kind.isDamage = false := by
  cases kind <;> first | rfl | cases h

namespace Rule

variable {c : Context} {kind : RollType} {limits : Limits} {ms : List Modifier} {m : Modifier}

theorem usual_ability (h : ability c kind = .ok ms) : ∀ m ∈ ms, m.Usual kind := by
  cases h
  intro m hm
  dsimp only at hm
  split at hm
  · cases hm
  · split at hm
    · cases hm
    · obtain rfl := List.mem_singleton.mp hm
      exact Modifier.usual_of_bonus (.inl rfl) rfl nofun ⟨nofun, nofun⟩

theorem usual_proficiency (h : proficiency c kind = .ok ms) : ∀ m ∈ ms, m.Usual kind := by
  cases h
  intro m hm
  dsimp only at hm
  split at hm
  · split at hm <;> obtain rfl := List.mem_singleton.mp hm
    · exact Modifier.usual_of_bonus (.inl rfl) rfl nofun ⟨nofun, nofun⟩
    · exact Modifier.usual_of_bonus (.inl rfl) rfl nofun ⟨nofun, nofun⟩
  · cases hm

theorem mem_ite {α : Type} {p : Prop} [Decidable p] {x : α} {xs : List α}
    (h : x ∈ if p then xs else []) : x ∈ xs := by
  split at h
  · exact h
  · cases h

theorem mem_ite_singleton {α : Type} {p : Prop} [Decidable p] (h : p) {x : α} :
    x ∈ if p then [x] else [] := by
  rw [if_pos h]
  exact List.mem_singleton_self x

theorem usual_givenAdvantage (hd : kind.isDamage = false) {e : Environment}
    (hm : m ∈ givenAdvantage e) : m.Usual kind := by
  rcases List.mem_append.mp hm with hm | hm <;> obtain rfl := List.mem_singleton.mp (mem_ite hm)
  · exact ⟨rfl, rfl, nofun, nofun, nofun, by simp [hd], fun _ => .inl ⟨rfl, rfl, rfl, rfl⟩, nofun⟩
  · exact ⟨rfl, rfl, nofun, nofun, nofun, by simp [hd], fun _ => .inr ⟨rfl, rfl, rfl, rfl⟩, nofun⟩

theorem usual_attackAdvantage (hd : kind.isDamage = false) (hm : m ∈ attackAdvantage c) :
    m.Usual kind := by
  rcases List.mem_append.mp hm with hm | hm
  · obtain rfl := List.mem_singleton.mp (mem_ite hm)
    exact Modifier.usual_of_circumstance (.inl rfl) rfl rfl hd rfl fun _ => ⟨rfl, rfl, rfl⟩
  · have hm := mem_ite hm
    split at hm <;> obtain rfl := List.mem_singleton.mp hm
    · exact Modifier.usual_of_circumstance (.inr (.inl rfl)) rfl rfl hd rfl
        fun hn => absurd hn (by decide)
    · exact Modifier.usual_of_circumstance (.inl rfl) rfl rfl hd rfl
        fun hn => absurd hn (by decide)

theorem mem_advantage (h : advantage c kind = .ok ms) (hm : m ∈ ms) : kind.isD20 = true ∧
    (m ∈ givenAdvantage c.environment ∨ m ∈ attackAdvantage c ∨
      m = circumstance "poisoned" "Poisoned" "Disadvantage on attack rolls and ability checks"
        .disadvantage 32) := by
  cases h
  split at hm
  · next hk =>
    refine ⟨hk, ?_⟩
    rcases List.mem_append.mp hm with hm | hm
    · exact (List.mem_append.mp hm).imp_right fun hm => .inl (mem_ite hm)
    · exact .inr (.inr (List.mem_singleton.mp (mem_ite hm)))
  · cases hm

theorem usual_advantage (h : advantage c kind = .ok ms) : ∀ m ∈ ms, m.Usual kind := by
  intro m hm
  obtain ⟨hk, hm⟩ := mem_advantage h hm
  have hd := RollType.not_isDamage_of_isD20 hk
  rcases hm with hm | hm | rfl
  · exact usual_givenAdvantage hd hm
  · exact usual_attackAdvantage hd hm
  · exact Modifier.usual_of_circumstance (.inr (.inl rfl)) rfl rfl hd rfl
      fun hn => absurd hn (by decide)

theorem eq_of_mem_given {p : Prop} [Decidable p] {x : Except String Amount}
    {f : Amount → Modifier}
    (h : (if p then do let amount ← x; .ok [f amount] else .ok []) = Except.ok ms) (hm : m ∈ ms) :
    p ∧ ∃ amount, x = .ok amount ∧ m = f amount := by
  split at h
  · next hp =>
    obtain ⟨amount, hx, h⟩ := bind_eq_ok_iff.mp h
    rw [← Except.ok.inj h] at hm
    exact ⟨hp, amount, hx, List.mem_singleton.mp hm⟩
  · rw [← Except.ok.inj h] at hm
    cases hm

theorem usual_bless (h : bless limits c kind = .ok ms) : ∀ m ∈ ms, m.Usual kind := by
  intro m hm
  obtain ⟨_, amount, _, rfl⟩ := eq_of_mem_given h hm
  exact Modifier.usual_of_bonus (.inr (.inl rfl)) rfl nofun ⟨nofun, nofun⟩

theorem usual_guidance (h : guidance limits c kind = .ok ms) : ∀ m ∈ ms, m.Usual kind := by
  intro m hm
  obtain ⟨_, amount, _, rfl⟩ := eq_of_mem_given h hm
  exact Modifier.usual_of_bonus (.inr (.inl rfl)) rfl nofun ⟨nofun, nofun⟩

theorem usual_inspiration (h : inspiration limits c kind = .ok ms) : ∀ m ∈ ms, m.Usual kind := by
  intro m hm
  obtain ⟨hk, amount, _, rfl⟩ := eq_of_mem_given h hm
  have hd := RollType.not_isDamage_of_isD20 (Bool.and_eq_true_iff.mp hk).2
  exact Modifier.usual_of_bonus (.inr (.inl rfl)) rfl (fun _ => by rw [hd]; rfl) ⟨nofun, nofun⟩

theorem mem_spells (h : spells limits c kind = .ok ms) (hm : m ∈ ms) :
    (∃ ns, bless limits c kind = .ok ns ∧ m ∈ ns) ∨ (∃ ns, guidance limits c kind = .ok ns ∧ m ∈ ns) ∨
      ∃ ns, inspiration limits c kind = .ok ns ∧ m ∈ ns := by
  obtain ⟨blessed, hb, h⟩ := bind_eq_ok_iff.mp h
  obtain ⟨guided, hg, h⟩ := bind_eq_ok_iff.mp h
  obtain ⟨inspired, hi, h⟩ := bind_eq_ok_iff.mp h
  cases h
  simp only [List.mem_append] at hm
  rcases hm with (hm | hm) | hm
  · exact .inl ⟨_, hb, hm⟩
  · exact .inr (.inl ⟨_, hg, hm⟩)
  · exact .inr (.inr ⟨_, hi, hm⟩)

theorem usual_spells (h : spells limits c kind = .ok ms) : ∀ m ∈ ms, m.Usual kind := by
  intro m hm
  rcases mem_spells h hm with ⟨_, hb, hm⟩ | ⟨_, hg, hm⟩ | ⟨_, hi, hm⟩
  · exact usual_bless hb m hm
  · exact usual_guidance hg m hm
  · exact usual_inspiration hi m hm

theorem usual_sneakAttack (h : sneakAttack limits c kind = .ok ms) : ∀ m ∈ ms, m.Usual kind := by
  intro m hm
  obtain ⟨hk, amount, _, rfl⟩ := eq_of_mem_given h hm
  have hd : kind.isDamage = true := by
    simp only [Bool.and_eq_true] at hk
    exact hk.1.1.2
  exact Modifier.usual_of_bonus (.inr (.inl rfl)) rfl (fun _ => by rw [hd]; rfl) ⟨nofun, nofun⟩

theorem usual_agonizingBlast (h : agonizingBlast c kind = .ok ms) : ∀ m ∈ ms, m.Usual kind := by
  cases h
  intro m hm
  obtain rfl := List.mem_singleton.mp (mem_ite hm)
  exact Modifier.usual_of_bonus (.inl rfl) rfl nofun ⟨nofun, nofun⟩

theorem usual_improvedCritical (h : improvedCritical c kind = .ok ms) :
    ∀ m ∈ ms, m.Usual kind := by
  cases h
  intro m hm
  split at hm
  · obtain rfl := List.mem_singleton.mp (mem_ite hm)
    exact Modifier.usual_of_bonus (.inr (.inr rfl)) rfl nofun ⟨nofun, nofun⟩
  · cases hm

theorem mem_classFeatures (h : classFeatures limits c kind = .ok ms) (hm : m ∈ ms) :
    (∃ ns, sneakAttack limits c kind = .ok ns ∧ m ∈ ns) ∨
      (∃ ns, agonizingBlast c kind = .ok ns ∧ m ∈ ns) ∨
      ∃ ns, improvedCritical c kind = .ok ns ∧ m ∈ ns := by
  obtain ⟨sneak, hs, h⟩ := bind_eq_ok_iff.mp h
  obtain ⟨blast, hb, h⟩ := bind_eq_ok_iff.mp h
  obtain ⟨critical, hc, h⟩ := bind_eq_ok_iff.mp h
  cases h
  simp only [List.mem_append] at hm
  rcases hm with (hm | hm) | hm
  · exact .inl ⟨_, hs, hm⟩
  · exact .inr (.inl ⟨_, hb, hm⟩)
  · exact .inr (.inr ⟨_, hc, hm⟩)

theorem usual_classFeatures (h : classFeatures limits c kind = .ok ms) : ∀ m ∈ ms, m.Usual kind := by
  intro m hm
  rcases mem_classFeatures h hm with ⟨_, hs, hm⟩ | ⟨_, hb, hm⟩ | ⟨_, hc, hm⟩
  · exact usual_sneakAttack hs m hm
  · exact usual_agonizingBlast hb m hm
  · exact usual_improvedCritical hc m hm

theorem usual_equipment (h : equipment c kind = .ok ms) : ∀ m ∈ ms, m.Usual kind := by
  cases h
  intro m hm
  split at hm
  · obtain rfl := List.mem_singleton.mp (mem_ite hm)
    exact Modifier.usual_of_bonus (.inl rfl) rfl nofun ⟨nofun, nofun⟩
  · cases hm

theorem usual_damageTypes (h : damageTypes c kind = .ok ms) : ∀ m ∈ ms, m.Usual kind := by
  cases h
  intro m hm
  split at hm
  · split at hm
    · next hk =>
      have hd : kind.isDamage = true := (Bool.and_eq_true_iff.mp hk).1
      have ha : kind.isAttack = false := by
        cases kind <;> first | rfl | cases hd
      have husual (how name damageType : String) (k : ModifierKind) (n priority : Int)
          (hk : k = .multiplier ∨ k = .divider) :
          (damageModifier how name damageType k n priority).Usual kind := by
        refine ⟨rfl, ?_, ?_, ?_, nofun, fun _ => ⟨?_, ?_⟩, nofun, by simp [ha]⟩
        all_goals rcases hk with rfl | rfl <;> simp [damageModifier, ModifierKind.operation?]
      simp only [List.mem_append] at hm
      rcases hm with (hm | hm) | hm <;> obtain rfl := List.mem_singleton.mp (mem_ite hm)
      · exact husual _ _ _ _ _ _ (.inl rfl)
      · exact husual _ _ _ _ _ _ (.inr rfl)
      · exact husual _ _ _ _ _ _ (.inl rfl)
    · cases hm
  · cases hm

theorem cover?_name {d : Data} {n : Int} {name : String} (h : cover? d = some (n, name)) :
    name ≠ "Hidden" := by
  unfold cover? at h
  split at h <;> cases h <;> decide

theorem usual_situational (h : situational c kind = .ok ms) : ∀ m ∈ ms, m.Usual kind := by
  cases h
  intro m hm
  split at hm
  · next hk =>
    have hd := RollType.not_isDamage_of_isD20 (RollType.isD20_of_isAttack hk)
    rcases List.mem_append.mp hm with hm | hm
    · obtain rfl := List.mem_singleton.mp (mem_ite hm)
      exact Modifier.usual_of_circumstance (.inl rfl) rfl rfl hd rfl
        fun hn => absurd hn (by decide)
    · split at hm
      · next hcover =>
        obtain rfl := List.mem_singleton.mp hm
        exact Modifier.usual_of_circumstance (.inr (.inr rfl)) rfl rfl hd rfl
          fun hn => absurd hn (cover?_name hcover)
      · cases hm
  · cases hm

end Rule

namespace Rulebook

def IsStandard (b : Rulebook) : Prop :=
  ∃ limits homebrew abilities proficiency, b = standard limits homebrew abilities proficiency

variable {b : Rulebook} {c : Context} {kind : RollType} {withCharacter : Bool} {m : Modifier}

theorem usual_of_mem_rules (hb : b.IsStandard) {r : String × Rule} (hr : r ∈ b.rules)
    {ms : List Modifier} (h : r.2 c kind = .ok ms) : ∀ m ∈ ms, m.Usual kind := by
  obtain ⟨limits, homebrew, abilities, proficiency, rfl⟩ := hb
  unfold standard at hr
  simp only [List.mem_append, List.mem_cons, List.not_mem_nil, or_false] at hr
  rcases hr with (hr | hr) | rfl | rfl | rfl | rfl | rfl | rfl
  · obtain rfl := List.mem_singleton.mp (Rule.mem_ite hr)
    exact Rule.usual_ability h
  · obtain rfl := List.mem_singleton.mp (Rule.mem_ite hr)
    exact Rule.usual_proficiency h
  · exact Rule.usual_advantage h
  · exact Rule.usual_spells h
  · exact Rule.usual_classFeatures h
  · exact Rule.usual_equipment h
  · exact Rule.usual_damageTypes h
  · exact Rule.usual_situational h

theorem usual_of_mem_offered (hb : b.IsStandard)
    (hm : m ∈ offered (b.answers c kind withCharacter)) : m.Usual kind := by
  obtain ⟨a, ha, hm⟩ := List.mem_flatMap.mp hm
  obtain ⟨r, hr, rfl⟩ := List.mem_map.mp ha
  split at hm
  · next ms hms => exact usual_of_mem_rules hb (List.mem_filter.mp hr).1 hms m hm
  · cases hm

/-- What the usual rules give to a roll is usual. -/
theorem usual_of_mem_resolve (hb : b.IsStandard) (hm : m ∈ b.resolve c kind [] withCharacter) :
    m.Usual kind := by
  obtain ⟨m₀, hm₀, hm⟩ := List.mem_filterMap.mp (Modifier.mem_of_mem_collapse hm)
  rw [List.append_nil] at hm₀
  split at hm
  · next hj =>
    rw [hm] at hj
    obtain ⟨amount, rfl⟩ := eq_of_judge hj
    exact (usual_of_mem_offered hb hm₀).withAmount amount
  · cases hm

theorem offered_of_nothing_known (hb : b.IsStandard) : offered (b.answers {} kind false) = [] := by
  rw [offered, List.flatMap_eq_nil_iff]
  intro a ha
  obtain ⟨r, hr, rfl⟩ := List.mem_map.mp ha
  obtain ⟨hmem, hcharacter⟩ := List.mem_filter.mp hr
  obtain ⟨limits, homebrew, abilities, proficiency, rfl⟩ := hb
  unfold standard at hmem
  simp only [List.mem_append, List.mem_cons, List.not_mem_nil, or_false] at hmem
  rcases hmem with (hmem | hmem) | rfl | rfl | rfl | rfl | rfl | rfl
  · obtain rfl := List.mem_singleton.mp (Rule.mem_ite hmem)
    exact absurd hcharacter (by decide)
  · obtain rfl := List.mem_singleton.mp (Rule.mem_ite hmem)
    exact absurd hcharacter (by decide)
  · cases kind <;> rfl
  · cases kind <;> rfl
  · cases kind <;> rfl
  · exact absurd hcharacter (by decide)
  · cases kind <;> rfl
  · cases kind <;> rfl

theorem resolve_of_nothing_known (hb : b.IsStandard) : b.resolve {} kind [] false = [] := by
  rw [resolve, offered_of_nothing_known hb]
  simp [applicable, Modifier.collapse, Modifier.best]

theorem judge_of_favours {advantage : Bool} (h : m.Favours advantage) (hs : m.source ≠ .homebrew)
    (hc : m.condition = none) : b.judge c m = .ok (some m) := by
  have hcheck : m.check b.limits = .ok m := by
    unfold Modifier.check
    rw [h.kind]
    cases advantage <;> rfl
  unfold judge validate
  rw [if_neg fun hn => hs hn.1, hcheck]
  simp only [Except.map, hc]

theorem exists_mem_resolve (hb : b.IsStandard) {advantage : Bool}
    (hm : m ∈ offered (b.answers c kind withCharacter)) (h : m.Favours advantage)
    (hs : m.source ≠ .homebrew) (hc : m.condition = none) :
    ∃ n ∈ b.resolve c kind [] withCharacter, n.key = m.key := by
  refine Modifier.exists_mem_collapse ?_ (usual_of_mem_offered hb hm).cumulative
  exact List.mem_filterMap.mpr ⟨m, List.mem_append_left _ hm, by rw [judge_of_favours h hs hc]⟩

theorem mem_offered_of_isD20 (hb : b.IsStandard) (hk : kind.isD20 = true)
    (hm : m ∈ Rule.givenAdvantage c.environment ∨
      kind.isAttack = true ∧ m ∈ Rule.attackAdvantage c) :
    m ∈ offered (b.answers c kind withCharacter) := by
  refine List.mem_flatMap.mpr ⟨("advantage", Rule.advantage c kind), ?_, ?_⟩
  · refine List.mem_map.mpr ⟨("advantage", Rule.advantage), List.mem_filter.mpr ⟨?_, ?_⟩, rfl⟩
    · obtain ⟨limits, homebrew, abilities, proficiency, rfl⟩ := hb
      simp [standard]
    · rw [Bool.or_eq_true]
      exact .inr (by decide)
  · simp only [Rule.advantage, hk, if_true]
    rcases hm with hm | ⟨ha, hm⟩
    · exact List.mem_append_left _ (List.mem_append_left _ hm)
    · rw [if_pos ha]
      exact List.mem_append_left _ (List.mem_append_right _ hm)

theorem exists_favours_of_advantage (hb : b.IsStandard) (hk : kind.isD20 = true)
    (h : c.environment.advantage = true) :
    ∃ m ∈ b.resolve c kind [] withCharacter, m.Favours true := by
  obtain ⟨n, hn, hkey⟩ := exists_mem_resolve hb
    (mem_offered_of_isD20 hb hk (.inl (List.mem_append_left _ (Rule.mem_ite_singleton h))))
    (⟨rfl, rfl, rfl⟩ : Modifier.Favours true _) nofun rfl
  obtain ⟨hs, hname⟩ := Prod.mk.inj hkey
  rcases (usual_of_mem_resolve hb hn).given hs with ⟨_, hf⟩ | ⟨hd, _⟩
  · exact ⟨n, hn, hf⟩
  · exact absurd (hd.symm.trans hname) (by decide)

theorem exists_favours_of_disadvantage (hb : b.IsStandard) (hk : kind.isD20 = true)
    (h : c.environment.disadvantage = true) :
    ∃ m ∈ b.resolve c kind [] withCharacter, m.Favours false := by
  obtain ⟨n, hn, hkey⟩ := exists_mem_resolve hb
    (mem_offered_of_isD20 hb hk (.inl (List.mem_append_right _ (Rule.mem_ite_singleton h))))
    (⟨rfl, rfl, rfl⟩ : Modifier.Favours false _) nofun rfl
  obtain ⟨hs, hname⟩ := Prod.mk.inj hkey
  rcases (usual_of_mem_resolve hb hn).given hs with ⟨ha, _⟩ | ⟨_, hf⟩
  · exact absurd (ha.symm.trans hname) (by decide)
  · exact ⟨n, hn, hf⟩

theorem exists_favours_of_hidden (hb : b.IsStandard) (hk : kind.isAttack = true)
    (h : c.environment.hidden = true) :
    ∃ m ∈ b.resolve c kind [] withCharacter, m.Favours true := by
  obtain ⟨n, hn, hkey⟩ := exists_mem_resolve hb
    (mem_offered_of_isD20 hb (RollType.isD20_of_isAttack hk)
      (.inr ⟨hk, List.mem_append_left _ (Rule.mem_ite_singleton h)⟩))
    (⟨rfl, rfl, rfl⟩ : Modifier.Favours true _) nofun rfl
  obtain ⟨hs, hname⟩ := Prod.mk.inj hkey
  exact ⟨n, hn, (usual_of_mem_resolve hb hn).hidden hk hs hname⟩

end Rulebook

end DiceTower

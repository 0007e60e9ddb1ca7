import DiceTower.Proofs.Rulebook.Standard

/-! Where the notation already counts what the character can do, the usual rules look at nothing that
makes the character better at a roll, damage apart. -/

namespace DiceTower

/-- What makes a roll better: what a character has learned, and what is said of the thing that is
rolled with. -/
structure Aptitude where
  level : Int := 1
  abilityScores : List (Ability × Int) := []
  proficiencyBonus : Option Int := none
  skillProficiencies : List String := []
  savingThrowProficiencies : List Ability := []
  expertise : List String := []
  ability : Option Ability := none
  proficient : Option Bool := none
  magicBonus : Option Data := none

def Character.withAptitude (c : Character) (a : Aptitude) : Character :=
  { c with
    level := a.level
    abilityScores := a.abilityScores
    proficiencyBonus := a.proficiencyBonus
    skillProficiencies := a.skillProficiencies
    savingThrowProficiencies := a.savingThrowProficiencies
    expertise := a.expertise }

def RollSource.withAptitude (s : RollSource) (a : Aptitude) : RollSource :=
  { s with
    ability := a.ability
    proficient := a.proficient
    properties := match a.magicBonus with
      | some d => Keyed.put "magic_bonus" d s.properties
      | none => Keyed.erase "magic_bonus" s.properties }

def Context.withAptitude (c : Context) (a : Aptitude) : Context :=
  { c with character := c.character.withAptitude a, source := c.source.withAptitude a }

/-- A rule that does not look at the aptitude, and gives nothing that could, damage apart. -/
structure Rule.Impartial (rule : Rule) : Prop where
  same : ∀ (c : Context) kind a, kind.isDamage = false → rule (c.withAptitude a) kind = rule c kind
  unconditional : ∀ c kind ms, kind.isDamage = false → rule c kind = .ok ms →
    ∀ m ∈ ms, m.condition = none

namespace Rule

variable {c : Context} {kind : RollType} {limits : Limits} {ms : List Modifier} {m : Modifier}

theorem impartial_advantage : Impartial advantage where
  same _ _ _ _ := rfl
  unconditional := by
    intro c kind ms _ h m hm
    obtain ⟨-, hm | hm | rfl⟩ := mem_advantage h hm
    · rcases List.mem_append.mp hm with hm | hm <;>
        obtain rfl := List.mem_singleton.mp (mem_ite hm)
      · rfl
      · rfl
    · rcases List.mem_append.mp hm with hm | hm
      · obtain rfl := List.mem_singleton.mp (mem_ite hm)
        rfl
      · have hm := mem_ite hm
        split at hm <;> obtain rfl := List.mem_singleton.mp hm
        · rfl
        · rfl
    · rfl

theorem impartial_spells (limits : Limits) : Impartial (spells limits) where
  same _ _ _ _ := rfl
  unconditional := by
    intro c kind ms _ h m hm
    rcases mem_spells h hm with ⟨_, hb, hm⟩ | ⟨_, hg, hm⟩ | ⟨_, hi, hm⟩
    · obtain ⟨-, _, -, rfl⟩ := eq_of_mem_given hb hm
      rfl
    · obtain ⟨-, _, -, rfl⟩ := eq_of_mem_given hg hm
      rfl
    · obtain ⟨-, _, -, rfl⟩ := eq_of_mem_given hi hm
      rfl

theorem classFeatures_of_not_isDamage (h : kind.isDamage = false) :
    classFeatures limits c kind = improvedCritical c kind := by
  have hsneak : sneakAttack limits c kind = .ok [] := if_neg (by simp [h])
  have hblast : agonizingBlast c kind = .ok [] := congrArg Except.ok (if_neg (by simp [h]))
  unfold classFeatures
  rw [hsneak, hblast]
  rfl

theorem impartial_classFeatures (limits : Limits) : Impartial (classFeatures limits) where
  same c kind a h := by
    rw [classFeatures_of_not_isDamage h, classFeatures_of_not_isDamage h]
    rfl
  unconditional := by
    intro c kind ms hd h m hm
    rw [classFeatures_of_not_isDamage hd] at h
    cases h
    split at hm
    · obtain rfl := List.mem_singleton.mp (mem_ite hm)
      rfl
    · cases hm

theorem damageTypes_of_not_isDamage (h : kind.isDamage = false) : damageTypes c kind = .ok [] := by
  unfold damageTypes
  split
  · rw [if_neg (by simp [h])]
  · rfl

theorem impartial_damageTypes : Impartial damageTypes where
  same c kind a h := by rw [damageTypes_of_not_isDamage h, damageTypes_of_not_isDamage h]
  unconditional := by
    intro c kind ms hd h m hm
    rw [damageTypes_of_not_isDamage hd] at h
    cases h
    cases hm

theorem impartial_situational : Impartial situational where
  same _ _ _ _ := rfl
  unconditional := by
    intro c kind ms _ h m hm
    cases h
    rcases List.mem_append.mp (mem_ite hm) with hm | hm
    · obtain rfl := List.mem_singleton.mp (mem_ite hm)
      rfl
    · split at hm
      · obtain rfl := List.mem_singleton.mp hm
        rfl
      · cases hm

end Rule

namespace Rulebook

variable {b : Rulebook} {c : Context} {kind : RollType} {extra : List Modifier} {m : Modifier}

theorem IsStandard.impartial (hb : b.IsStandard) {r : String × Rule} (hr : r ∈ b.rules)
    (hn : characterRules.contains r.1 = false) : r.2.Impartial := by
  obtain ⟨limits, homebrew, abilities, proficiency, rfl⟩ := hb
  unfold standard at hr
  simp only [List.mem_append, List.mem_cons, List.not_mem_nil, or_false] at hr
  rcases hr with (hr | hr) | rfl | rfl | rfl | rfl | rfl | rfl
  · obtain rfl := List.mem_singleton.mp (Rule.mem_ite hr)
    exact absurd hn (by decide)
  · obtain rfl := List.mem_singleton.mp (Rule.mem_ite hr)
    exact absurd hn (by decide)
  · exact Rule.impartial_advantage
  · exact Rule.impartial_spells limits
  · exact Rule.impartial_classFeatures limits
  · exact absurd hn (by decide)
  · exact Rule.impartial_damageTypes
  · exact Rule.impartial_situational

theorem answers_withAptitude (hb : b.IsStandard) (hk : kind.isDamage = false) (a : Aptitude) :
    b.answers (c.withAptitude a) kind false = b.answers c kind false := by
  refine List.map_congr_left fun r hr => ?_
  obtain ⟨hmem, hn⟩ := List.mem_filter.mp hr
  have hsame := (hb.impartial hmem (by simpa using hn)).same c kind a hk
  exact congrArg (r.1, ·) hsame

theorem condition_of_mem_offered (hb : b.IsStandard) (hk : kind.isDamage = false)
    (hm : m ∈ offered (b.answers c kind false)) : m.condition = none := by
  obtain ⟨answer, hanswer, hm⟩ := List.mem_flatMap.mp hm
  obtain ⟨r, hr, rfl⟩ := List.mem_map.mp hanswer
  obtain ⟨hmem, hn⟩ := List.mem_filter.mp hr
  have himpartial := hb.impartial hmem (by simpa using hn)
  split at hm
  · next ms hms => exact himpartial.unconditional c kind ms hk hms m hm
  · cases hm

/-- The modifiers for a roll other than damage, and the records, are those of any other aptitude. -/
theorem resolveNoted_withAptitude (hb : b.IsStandard) (hk : kind.isDamage = false)
    (hm : ∀ m ∈ extra, m.condition = none) (a : Aptitude) :
    b.resolveNoted (c.withAptitude a) kind extra false = b.resolveNoted c kind extra false := by
  refine resolveNoted_congr (answers_withAptitude hb hk a) fun m hmem holds hholds => ?_
  have hnone : m.condition = none := (List.mem_append.mp hmem).elim
    (condition_of_mem_offered hb hk) (hm m)
  rw [hnone] at hholds
  cases hholds

end Rulebook

end DiceTower

import DiceTower.Proofs.Modifier.Checked
import DiceTower.Proofs.Notation.RoundTrip
import DiceTower.Proofs.Rulebook.Standard

/-! Rulebooks whose modifiers keep no roll from being made. The usual rules give such modifiers where
the target takes no damage in a way of its own, and whatever a further rule gives is checked. -/

namespace DiceTower

def Pool.Parsed (p : Pool) : Prop := ∃ limits cs, Pool.parse limits cs = .ok p

/-- A modifier that does not scale the total and adds no dice that are given as such, unless some
parser reads them. The amount need not fit the kind. -/
structure Modifier.Harmless (m : Modifier) : Prop where
  scale : m.kind.scales = false
  dice : ∀ t, m.kind = .dice → m.amount = .dice t → t.pool.Parsed

def Context.Unscaled (c : Context) : Prop :=
  ∀ how ∈ ["vulnerable", "resistant", "immune"], ∀ damageType : String,
    c.targetHas (how ++ "_" ++ damageType) = false

def Rule.Harmless (rule : Rule) : Prop :=
  ∀ c kind ms, rule c kind = .ok ms → ∀ m ∈ ms, m.Harmless

/-- Usual rules, and further ones that are harmless. -/
def Rulebook.Harmless (b : Rulebook) : Prop :=
  ∀ r ∈ b.rules, (∃ b₀ : Rulebook, b₀.IsStandard ∧ r ∈ b₀.rules) ∨ r.2.Harmless

section Modifiers

variable {m m₀ : Modifier} {limits : Limits}

theorem Term.parsed_of_parse {text : String} {t : Term} (h : Term.parse limits text = .ok t) :
    t.pool.Parsed :=
  ⟨limits, _, Pool.parse_of_denotes (Term.parse_eq_ok_iff.mp h).2⟩

theorem Modifier.harmless_of_whole {n : Int} (hk : m.kind.scales = false) (ha : m.amount = .whole n) :
    m.Harmless :=
  ⟨hk, fun t _ ht => by simp [ha] at ht⟩

theorem Modifier.Harmless.check (h : m₀.Harmless) (hc : m₀.check limits = .ok m) : m.Harmless := by
  rcases Modifier.check_cases hc with rfl | ⟨_, t, _, _, hparse, rfl⟩
  · exact h
  · refine ⟨h.scale, fun t' _ ht => ?_⟩
    obtain rfl := Amount.dice.inj ht
    exact Term.parsed_of_parse hparse

end Modifiers

namespace Rule

variable {c : Context} {kind : RollType} {limits : Limits} {ms : List Modifier} {m : Modifier}

theorem harmless_ability (h : ability c kind = .ok ms) : ∀ m ∈ ms, m.Harmless := by
  grind [ability, Modifier.harmless_of_whole, ModifierKind.scales]

theorem harmless_proficiency (h : proficiency c kind = .ok ms) : ∀ m ∈ ms, m.Harmless := by
  grind [proficiency, Modifier.harmless_of_whole, ModifierKind.scales]

theorem harmless_circumstance (id name description : String) {k : ModifierKind}
    (hk : k.scales = false) (priority : Int) :
    (circumstance id name description k priority).Harmless :=
  Modifier.harmless_of_whole hk rfl

theorem harmless_givenAdvantage {e : Environment} (hm : m ∈ givenAdvantage e) : m.Harmless := by
  rcases List.mem_append.mp hm with hm | hm <;>
    obtain rfl := List.mem_singleton.mp (mem_ite hm) <;> exact Modifier.harmless_of_whole rfl rfl

theorem harmless_attackAdvantage (hm : m ∈ attackAdvantage c) : m.Harmless := by
  rcases List.mem_append.mp hm with hm | hm
  · obtain rfl := List.mem_singleton.mp (mem_ite hm)
    exact harmless_circumstance _ _ _ rfl _
  · have hm := mem_ite hm
    split at hm <;> obtain rfl := List.mem_singleton.mp hm
    · exact harmless_circumstance _ _ _ rfl _
    · exact harmless_circumstance _ _ _ rfl _

theorem harmless_advantage (h : advantage c kind = .ok ms) : ∀ m ∈ ms, m.Harmless := by
  intro m hm
  obtain ⟨-, hm | hm | rfl⟩ := mem_advantage h hm
  · exact harmless_givenAdvantage hm
  · exact harmless_attackAdvantage hm
  · exact harmless_circumstance _ _ _ rfl _

theorem harmless_dice {written : String} {amount : Amount} (h : dice limits written = .ok amount)
    (hk : m.kind = .dice) (ha : m.amount = amount) : m.Harmless := by
  refine ⟨by rw [hk]; rfl, fun t _ ht => ?_⟩
  unfold dice at h
  split at h
  · next t' hparse =>
    obtain rfl : t' = t := Amount.dice.inj ((Except.ok.inj h).trans (ha.symm.trans ht))
    exact Term.parsed_of_parse hparse
  · cases h

theorem harmless_spells (h : spells limits c kind = .ok ms) : ∀ m ∈ ms, m.Harmless := by
  intro m hm
  rcases mem_spells h hm with ⟨_, hb, hm⟩ | ⟨_, hg, hm⟩ | ⟨_, hi, hm⟩
  · obtain ⟨_, amount, hx, rfl⟩ := eq_of_mem_given hb hm
    exact harmless_dice hx rfl rfl
  · obtain ⟨_, amount, hx, rfl⟩ := eq_of_mem_given hg hm
    exact harmless_dice hx rfl rfl
  · obtain ⟨_, amount, hx, rfl⟩ := eq_of_mem_given hi hm
    exact harmless_dice hx rfl rfl

theorem harmless_classFeatures (h : classFeatures limits c kind = .ok ms) :
    ∀ m ∈ ms, m.Harmless := by
  intro m hm
  rcases mem_classFeatures h hm with ⟨_, hs, hm⟩ | ⟨_, hb, hm⟩ | ⟨_, hc, hm⟩
  · obtain ⟨_, amount, hx, rfl⟩ := eq_of_mem_given hs hm
    exact harmless_dice hx rfl rfl
  · grind [agonizingBlast, Modifier.harmless_of_whole, ModifierKind.scales]
  · grind [improvedCritical, Modifier.harmless_of_whole, ModifierKind.scales]

theorem harmless_equipment (h : equipment c kind = .ok ms) : ∀ m ∈ ms, m.Harmless := by
  grind [equipment, Modifier.harmless_of_whole, ModifierKind.scales]

theorem damageTypes_eq_nil (hc : c.Unscaled) (h : damageTypes c kind = .ok ms) : ms = [] := by
  rw [← Except.ok.inj h]
  split
  · next target d ht _ =>
    have hnone {how : String} (hhow : how ∈ ["vulnerable", "resistant", "immune"]) :
        ¬ target.hasCondition (how ++ "_" ++ d.asText) = true := by
      have htarget := hc how hhow d.asText
      rw [Context.targetHas, ht] at htarget
      rw [show target.hasCondition _ = false from htarget]
      exact Bool.false_ne_true
    split
    · dsimp only
      rw [if_neg (hnone (by simp)), if_neg (hnone (by simp)), if_neg (hnone (by simp))]
      rfl
    · rfl
  · rfl

theorem harmless_situational (h : situational c kind = .ok ms) : ∀ m ∈ ms, m.Harmless := by
  grind [situational, harmless_circumstance, Modifier.harmless_of_whole, ModifierKind.scales]

end Rule

namespace Rulebook

variable {b : Rulebook} {c : Context} {kind : RollType} {withCharacter : Bool} {m : Modifier}

theorem harmless_of_mem_rules (hb : b.IsStandard) (hc : c.Unscaled) {r : String × Rule}
    (hr : r ∈ b.rules) {ms : List Modifier} (h : r.2 c kind = .ok ms) : ∀ m ∈ ms, m.Harmless := by
  obtain ⟨limits, homebrew, abilities, proficiency, rfl⟩ := hb
  unfold standard at hr
  simp only [List.mem_append, List.mem_cons, List.not_mem_nil, or_false] at hr
  rcases hr with (hr | hr) | rfl | rfl | rfl | rfl | rfl | rfl
  · obtain rfl := List.mem_singleton.mp (Rule.mem_ite hr)
    exact Rule.harmless_ability h
  · obtain rfl := List.mem_singleton.mp (Rule.mem_ite hr)
    exact Rule.harmless_proficiency h
  · exact Rule.harmless_advantage h
  · exact Rule.harmless_spells h
  · exact Rule.harmless_classFeatures h
  · exact Rule.harmless_equipment h
  · rw [Rule.damageTypes_eq_nil hc h]
    simp
  · exact Rule.harmless_situational h

namespace Harmless

theorem of_isStandard (h : b.IsStandard) : b.Harmless := fun _ hr => .inl ⟨b, h, hr⟩

theorem register (h : b.Harmless) (name : String) {rule : Rule} (hr : rule.Harmless) :
    (b.register name rule).Harmless := by
  intro r hmem
  rcases Keyed.mem_put hmem with rfl | hmem
  · exact .inr hr
  · exact h r hmem

theorem of_mem_offered (h : b.Harmless) (hc : c.Unscaled)
    (hm : m ∈ offered (b.answers c kind withCharacter)) : m.Harmless := by
  obtain ⟨a, ha, hm⟩ := List.mem_flatMap.mp hm
  obtain ⟨r, hr, rfl⟩ := List.mem_map.mp ha
  split at hm
  · next ms hms =>
    rcases h r (List.mem_filter.mp hr).1 with ⟨b₀, hb₀, hr₀⟩ | hrule
    · exact harmless_of_mem_rules hb₀ hc hr₀ hms m hm
    · exact hrule c kind ms hms m hm
  · cases hm

theorem of_mem_resolve (h : b.Harmless) (hc : c.Unscaled) {extra : List Modifier}
    (he : ∀ m ∈ extra, m.Harmless) (hm : m ∈ b.resolve c kind extra withCharacter) :
    m.Harmless := by
  obtain ⟨m₀, hm₀, hm⟩ := List.mem_filterMap.mp (Modifier.mem_of_mem_collapse hm)
  have hoffered : m₀.Harmless := by
    rcases List.mem_append.mp hm₀ with hm₀ | hm₀
    · exact h.of_mem_offered hc hm₀
    · exact he m₀ hm₀
  split at hm
  · next hj =>
    rw [hm] at hj
    exact hoffered.check (check_of_judge hj)
  · cases hm

end Harmless

end Rulebook

end DiceTower

import DiceTower.Proofs.Modifier.Collapse
import DiceTower.Proofs.Rulebook.Standard

/-! What inspiration changes of the modifiers for a roll. No rule but the one on spells looks at it;
but spells stand or fall together, so that where its die cannot be read a blessing and guidance are
lost with it. -/

namespace DiceTower

def Context.inspire (c : Context) (inspired : Bool) : Context :=
  { c with environment := { c.environment with inspired } }

def Context.inspirationDie (c : Context) : String :=
  match c.environment.circumstance "inspiration_die" with
  | .text s => s
  | _ => "1d6"

structure Modifier.Uninspired (m : Modifier) : Prop where
  id : m.id ≠ "bardic_inspiration"
  condition : ∀ holds, m.condition = some holds →
    ∀ (c : Context) inspired, holds (c.inspire inspired) = holds c

/-- A modifier that is no spell either. -/
structure Modifier.Unspelled (m : Modifier) : Prop extends m.Uninspired where
  source : m.source ≠ .spell

/-- A rule that does not look at inspiration and gives no spells. -/
structure Rule.Unspelled (rule : Rule) : Prop where
  same : ∀ (c : Context) kind inspired, rule (c.inspire inspired) kind = rule c kind
  given : ∀ c kind ms, rule c kind = .ok ms → ∀ m ∈ ms, m.Unspelled

section Rules

variable {c : Context} {kind : RollType} {ms : List Modifier} {m : Modifier}

theorem Modifier.unspelled_of_condition_none (hid : m.id ≠ "bardic_inspiration")
    (hc : m.condition = none) (hs : m.source ≠ .spell) : m.Unspelled :=
  ⟨⟨hid, by simp [hc]⟩, hs⟩

theorem Modifier.Unspelled.withAmount (h : m.Unspelled) (amount : Amount) :
    Modifier.Unspelled { m with amount } :=
  ⟨⟨h.id, h.condition⟩, h.source⟩

namespace Rule

theorem unspelled_ability : Rule.Unspelled ability where
  same _ _ _ := rfl
  given := by
    intro c kind ms h m hm
    cases h
    dsimp only at hm
    split at hm
    · cases hm
    · next a _ =>
      split at hm
      · cases hm
      · obtain rfl := List.mem_singleton.mp hm
        have hid : "ability_" ++ Text.lowered a.code ≠ "bardic_inspiration" := by cases a <;> decide
        exact Modifier.unspelled_of_condition_none hid rfl nofun

theorem unspelled_proficiency : Rule.Unspelled proficiency where
  same _ _ _ := rfl
  given := by
    intro c kind ms h m hm
    cases h
    dsimp only at hm
    split at hm
    · split at hm <;> obtain rfl := List.mem_singleton.mp hm
      · exact Modifier.unspelled_of_condition_none (by simp) rfl nofun
      · exact Modifier.unspelled_of_condition_none (by simp) rfl nofun
    · cases hm

theorem unspelled_circumstance {id : String} (hid : id ≠ "bardic_inspiration")
    (name description : String) (k : ModifierKind) (priority : Int) :
    (circumstance id name description k priority).Unspelled :=
  Modifier.unspelled_of_condition_none hid rfl nofun

theorem unspelled_advantage : Rule.Unspelled advantage where
  same _ _ _ := rfl
  given := by
    intro c kind ms h m hm
    obtain ⟨-, hm | hm | rfl⟩ := mem_advantage h hm
    · rcases List.mem_append.mp hm with hm | hm <;>
        obtain rfl := List.mem_singleton.mp (mem_ite hm)
      · exact Modifier.unspelled_of_condition_none (by simp) rfl nofun
      · exact Modifier.unspelled_of_condition_none (by simp) rfl nofun
    · rcases List.mem_append.mp hm with hm | hm
      · obtain rfl := List.mem_singleton.mp (mem_ite hm)
        exact unspelled_circumstance (by decide) ..
      · have hm := mem_ite hm
        split at hm <;> obtain rfl := List.mem_singleton.mp hm
        · exact unspelled_circumstance (by decide) ..
        · exact unspelled_circumstance (by decide) ..
    · exact unspelled_circumstance (by decide) ..

theorem unspelled_classFeatures (limits : Limits) : Rule.Unspelled (classFeatures limits) where
  same _ _ _ := rfl
  given := by
    intro c kind ms h m hm
    rcases mem_classFeatures h hm with ⟨_, hs, hm⟩ | ⟨_, hb, hm⟩ | ⟨_, hc, hm⟩
    · obtain ⟨-, amount, -, rfl⟩ := eq_of_mem_given hs hm
      refine ⟨⟨by simp, fun holds hh c inspired => ?_⟩, nofun⟩
      cases hh
      rfl
    · cases hb
      obtain rfl := List.mem_singleton.mp (mem_ite hm)
      refine ⟨⟨by simp, fun holds hh c inspired => ?_⟩, nofun⟩
      cases hh
      rfl
    · cases hc
      split at hm
      · obtain rfl := List.mem_singleton.mp (mem_ite hm)
        exact Modifier.unspelled_of_condition_none (by simp) rfl nofun
      · cases hm

theorem unspelled_equipment : Rule.Unspelled equipment where
  same _ _ _ := rfl
  given := by
    intro c kind ms h m hm
    cases h
    split at hm
    · obtain rfl := List.mem_singleton.mp (mem_ite hm)
      exact Modifier.unspelled_of_condition_none (by simp) rfl nofun
    · cases hm

theorem unspelled_damageTypes : Rule.Unspelled damageTypes where
  same _ _ _ := rfl
  given := by
    intro c kind ms h m hm
    cases h
    split at hm
    · have hm := mem_ite hm
      simp only [List.mem_append] at hm
      rcases hm with (hm | hm) | hm <;> obtain rfl := List.mem_singleton.mp (mem_ite hm)
      · exact Modifier.unspelled_of_condition_none
          (show Text.lowered "Vulnerability" ≠ _ by decide) rfl nofun
      · exact Modifier.unspelled_of_condition_none
          (show Text.lowered "Resistance" ≠ _ by decide) rfl nofun
      · exact Modifier.unspelled_of_condition_none
          (show Text.lowered "Immunity" ≠ _ by decide) rfl nofun
    · cases hm

theorem unspelled_situational : Rule.Unspelled situational where
  same _ _ _ := rfl
  given := by
    intro c kind ms h m hm
    cases h
    rcases List.mem_append.mp (mem_ite hm) with hm | hm
    · obtain rfl := List.mem_singleton.mp (mem_ite hm)
      exact unspelled_circumstance (by decide) ..
    · split at hm
      · obtain rfl := List.mem_singleton.mp hm
        exact Modifier.unspelled_of_condition_none (by simp) rfl nofun
      · cases hm

end Rule

end Rules

section Spells

variable {limits : Limits} {c : Context} {kind : RollType} {ms : List Modifier} {m : Modifier}

structure Modifier.GivesDice (m : Modifier) : Prop where
  source : m.source = .spell
  cumulative : m.cumulative = false
  dice : m.kind = .dice ∧ ∃ t, m.amount = .dice t
  condition : m.condition = none

structure Modifier.Blessing (m : Modifier) : Prop extends m.GivesDice where
  id : m.id ≠ "bardic_inspiration"
  name : m.name ≠ "Bardic Inspiration"

namespace Rule

/-- What a rule gives that may fail. -/
def granted : Except String (List Modifier) → List Modifier
  | .ok ms => ms
  | .error _ => []

def blessings (limits : Limits) : Rule := fun c kind => do
  let blessed ← bless limits c kind
  let guided ← guidance limits c kind
  .ok (blessed ++ guided)

def bardic (amount : Amount) : Modifier where
  id := "bardic_inspiration"
  name := "Bardic Inspiration"
  description := "Add the Bardic Inspiration die to this roll"
  source := .spell
  kind := .dice
  amount
  timing := .oncePerRest
  appliesTo := some RollType.d20Types
  priority := 52

theorem exists_dice_of_eq_ok {written : String} {amount : Amount}
    (h : dice limits written = .ok amount) :
    ∃ t, Term.parse limits written = .ok t ∧ amount = .dice t := by
  unfold dice at h
  split at h
  · next t ht => exact ⟨t, ht, (Except.ok.inj h).symm⟩
  · cases h

theorem spells_eq (limits : Limits) (c : Context) (kind : RollType) :
    spells limits c kind = (do
      let ms ← blessings limits c kind
      let inspired ← inspiration limits c kind
      .ok (ms ++ inspired)) := by
  unfold spells blessings
  cases bless limits c kind with
  | error => rfl
  | ok => cases guidance limits c kind <;> rfl

theorem blessing_of_mem (h : m ∈ granted (blessings limits c kind)) : m.Blessing := by
  cases hb : blessings limits c kind with
  | error fault => simp [hb, granted] at h
  | ok ms =>
    rw [hb, granted] at h
    obtain ⟨blessed, hblessed, hrest⟩ := bind_eq_ok_iff.mp hb
    obtain ⟨guided, hguided, hms⟩ := bind_eq_ok_iff.mp hrest
    cases hms
    rcases List.mem_append.mp h with hm | hm
    · obtain ⟨-, amount, hdice, rfl⟩ := eq_of_mem_given hblessed hm
      obtain ⟨t, -, rfl⟩ := exists_dice_of_eq_ok hdice
      exact ⟨⟨rfl, rfl, ⟨rfl, t, rfl⟩, rfl⟩, by simp, by simp⟩
    · obtain ⟨-, amount, hdice, rfl⟩ := eq_of_mem_given hguided hm
      obtain ⟨t, -, rfl⟩ := exists_dice_of_eq_ok hdice
      exact ⟨⟨rfl, rfl, ⟨rfl, t, rfl⟩, rfl⟩, by simp, by simp⟩

theorem granted_spells_inspire_false (limits : Limits) (c : Context) (kind : RollType) :
    granted (spells limits (c.inspire false) kind) = granted (blessings limits c kind) := by
  rw [spells_eq]
  show granted (blessings limits c kind >>= fun ms => .ok (ms ++ [])) = _
  cases blessings limits c kind with
  | error => rfl
  | ok ms => exact List.append_nil ms

/-- With inspiration its modifier comes after those of the other spells, or all of them are lost. -/
theorem granted_spells_inspire_true (limits : Limits) (c : Context) (kind : RollType) :
    granted (spells limits (c.inspire true) kind) =
      if kind.isD20 then match Term.parse limits c.inspirationDie with
        | .ok t => granted ((blessings limits c kind).map (· ++ [bardic (.dice t)]))
        | .error _ => []
      else granted (blessings limits c kind) := by
  rw [spells_eq]
  show granted (blessings limits c kind >>= fun ms => do
    let inspired ← inspiration limits (c.inspire true) kind
    .ok (ms ++ inspired)) = _
  cases hk : kind.isD20 with
  | false =>
    have hnone : inspiration limits (c.inspire true) kind = .ok [] :=
      if_neg (by simp [hk])
    rw [hnone, if_neg Bool.false_ne_true]
    cases blessings limits c kind with
    | error => rfl
    | ok ms => exact List.append_nil ms
  | true =>
    have hgiven : inspiration limits (c.inspire true) kind =
        (dice limits c.inspirationDie).map fun amount => [bardic amount] :=
      (if_pos (by rw [hk]; rfl)).trans rfl
    rw [hgiven, if_pos rfl, dice]
    cases Term.parse limits c.inspirationDie with
    | error => cases blessings limits c kind <;> rfl
    | ok t => cases blessings limits c kind <;> rfl

end Rule

end Spells

namespace Rulebook

variable {b : Rulebook} {c : Context} {kind : RollType} {withCharacter : Bool} {m : Modifier}
  {ms : List Modifier}

theorem judge_of_givesDice (h : m.GivesDice) : b.judge c m = .ok (some m) := by
  obtain ⟨hk, t, ha⟩ := h.dice
  have hcheck : m.check b.limits = .ok m := by
    unfold Modifier.check
    rw [hk]
    dsimp only
    rw [Modifier.checkDice, ha]
  unfold judge validate
  rw [if_neg fun hn => by simp [h.source] at hn, hcheck]
  simp only [Except.map, h.condition]

theorem applicable_of_givesDice (h : ∀ m ∈ ms, m.GivesDice) : b.applicable c ms = ms := by
  refine Eq.trans (List.filterMap_congr fun m hm => ?_) List.filterMap_some
  rw [judge_of_givesDice (h m hm)]

theorem applicable_of_blessing (h : ∀ m ∈ ms, m.Blessing) : b.applicable c ms = ms :=
  applicable_of_givesDice fun m hm => (h m hm).toGivesDice

theorem applicable_append_bardic (h : ∀ m ∈ ms, m.Blessing) (t : Term) :
    b.applicable c (ms ++ [Rule.bardic (.dice t)]) = ms ++ [Rule.bardic (.dice t)] := by
  refine applicable_of_givesDice fun m hm => ?_
  rcases List.mem_append.mp hm with hm | hm
  · exact (h m hm).toGivesDice
  · rw [List.mem_singleton.mp hm]
    exact ⟨rfl, rfl, ⟨rfl, t, rfl⟩, rfl⟩

theorem judge_inspire (h : m.Uninspired) (inspired : Bool) :
    b.judge (c.inspire inspired) m = b.judge c m :=
  judge_congr fun holds hc => h.condition holds hc c inspired

theorem applicable_inspire (h : ∀ m ∈ ms, m.Uninspired) (inspired : Bool) :
    b.applicable (c.inspire inspired) ms = b.applicable c ms :=
  List.filterMap_congr fun m hm => by rw [judge_inspire (h m hm)]

def offeredBy (rules : List (String × Rule)) (c : Context) (kind : RollType)
    (withCharacter : Bool) : List Modifier :=
  offered ((rules.filter fun r => withCharacter || !characterRules.contains r.1).map fun r =>
    (r.1, r.2 c kind))

theorem offeredBy_append (rules rules' : List (String × Rule)) (c : Context) (kind : RollType)
    (withCharacter : Bool) : offeredBy (rules ++ rules') c kind withCharacter =
      offeredBy rules c kind withCharacter ++ offeredBy rules' c kind withCharacter := by
  simp [offeredBy, offered]

theorem unspelled_of_mem_offeredBy {rules : List (String × Rule)}
    (h : ∀ r ∈ rules, r.2.Unspelled) (hm : m ∈ offeredBy rules c kind withCharacter) :
    m.Unspelled := by
  obtain ⟨a, ha, hm⟩ := List.mem_flatMap.mp hm
  obtain ⟨r, hr, rfl⟩ := List.mem_map.mp ha
  split at hm
  · next ms hms => exact (h r (List.mem_filter.mp hr).1).given c kind ms hms m hm
  · cases hm

theorem offeredBy_inspire {rules : List (String × Rule)} (h : ∀ r ∈ rules, r.2.Unspelled)
    (inspired : Bool) : offeredBy rules (c.inspire inspired) kind withCharacter =
      offeredBy rules c kind withCharacter := by
  unfold offeredBy
  congr 1
  refine List.map_congr_left fun r hr => ?_
  rw [(h r (List.mem_filter.mp hr).1).same]

theorem IsStandard.exists_spells (hb : b.IsStandard) : ∃ before after,
    b.rules = before ++ ("spells", Rule.spells b.limits) :: after ∧
      ∀ r ∈ before ++ after, r.2.Unspelled := by
  obtain ⟨limits, homebrew, abilities, proficiency, rfl⟩ := hb
  refine ⟨(if abilities then [("ability_scores", Rule.ability)] else []) ++
    (if proficiency then [("proficiency", Rule.proficiency)] else []) ++
    [("advantage", Rule.advantage)], [("class_features", Rule.classFeatures limits),
    ("equipment", Rule.equipment), ("damage_types", Rule.damageTypes),
    ("situational", Rule.situational)], by simp [standard], fun r hr => ?_⟩
  simp only [List.mem_append, List.mem_cons, List.not_mem_nil, or_false] at hr
  rcases hr with ((hr | hr) | rfl) | rfl | rfl | rfl | rfl
  · obtain rfl := List.mem_singleton.mp (Rule.mem_ite hr)
    exact Rule.unspelled_ability
  · obtain rfl := List.mem_singleton.mp (Rule.mem_ite hr)
    exact Rule.unspelled_proficiency
  · exact Rule.unspelled_advantage
  · exact Rule.unspelled_classFeatures limits
  · exact Rule.unspelled_equipment
  · exact Rule.unspelled_damageTypes
  · exact Rule.unspelled_situational

theorem unspelled_of_mem_applicable (h : ∀ m ∈ ms, m.Unspelled) (hm : m ∈ b.applicable c ms) :
    m.Unspelled := by
  obtain ⟨m₀, hm₀, hm⟩ := List.mem_filterMap.mp hm
  split at hm
  · next hj =>
    rw [hm] at hj
    obtain ⟨amount, rfl⟩ := eq_of_judge hj
    exact (h m₀ hm₀).withAmount amount
  · cases hm

/-- The modifiers for a roll are those of the spells among others that have nothing to do with
inspiration. -/
theorem IsStandard.exists_resolve_inspire (hb : b.IsStandard) (c : Context) (kind : RollType)
    (withCharacter : Bool) : ∃ before after, (∀ m ∈ before ++ after, m.Unspelled) ∧
      ∀ inspired, b.resolve (c.inspire inspired) kind [] withCharacter =
        Modifier.collapse (before ++ b.applicable (c.inspire inspired)
          (Rule.granted (Rule.spells b.limits (c.inspire inspired) kind)) ++ after) := by
  obtain ⟨before, after, hrules, hunspelled⟩ := hb.exists_spells
  have hbefore : ∀ r ∈ before, r.2.Unspelled := fun r hr => hunspelled r (List.mem_append_left _ hr)
  have hafter : ∀ r ∈ after, r.2.Unspelled := fun r hr => hunspelled r (List.mem_append_right _ hr)
  have hgiven : ∀ m ∈ offeredBy before c kind withCharacter, m.Unspelled := fun m =>
    unspelled_of_mem_offeredBy hbefore
  have hgiven' : ∀ m ∈ offeredBy after c kind withCharacter, m.Unspelled := fun m =>
    unspelled_of_mem_offeredBy hafter
  refine ⟨b.applicable c (offeredBy before c kind withCharacter),
    b.applicable c (offeredBy after c kind withCharacter), fun m hm => ?_, fun inspired => ?_⟩
  · rcases List.mem_append.mp hm with hm | hm
    · exact unspelled_of_mem_applicable hgiven hm
    · exact unspelled_of_mem_applicable hgiven' hm
  · have hspells (c : Context) : offeredBy [("spells", Rule.spells b.limits)] c kind withCharacter =
        Rule.granted (Rule.spells b.limits c kind) := by
      have hwanted : (withCharacter || !characterRules.contains "spells") = true := by
        rw [Bool.or_eq_true]
        exact .inr (by decide)
      simp only [offeredBy, List.filter_cons, hwanted, if_true, List.filter_nil]
      exact List.append_nil _
    have hoffered : offered (b.answers (c.inspire inspired) kind withCharacter) =
        offeredBy before c kind withCharacter ++
          Rule.granted (Rule.spells b.limits (c.inspire inspired) kind) ++
            offeredBy after c kind withCharacter := by
      show offeredBy b.rules (c.inspire inspired) kind withCharacter = _
      rw [hrules, List.append_cons, offeredBy_append, offeredBy_append, offeredBy_inspire hbefore,
        offeredBy_inspire hafter, hspells]
    rw [resolve, hoffered, List.append_nil]
    unfold applicable
    rw [List.filterMap_append, List.filterMap_append]
    show Modifier.collapse (b.applicable (c.inspire inspired) _ ++
      b.applicable (c.inspire inspired) _ ++ b.applicable (c.inspire inspired) _) = _
    rw [applicable_inspire fun m hm => (hgiven m hm).toUninspired,
      applicable_inspire fun m hm => (hgiven' m hm).toUninspired]
    rfl

section Collapsing

variable {before blessings after : List Modifier}

theorem filter_collapse_of_id (h : ∀ m ∈ ms, m.id ≠ "bardic_inspiration") :
    (Modifier.collapse ms).filter (·.id ≠ "bardic_inspiration") = Modifier.collapse ms :=
  List.filter_eq_self.mpr fun m hm => by simpa using h m (Modifier.mem_of_mem_collapse hm)

theorem id_of_mem (h : ∀ m ∈ before ++ after, m.Unspelled) (hs : ∀ m ∈ blessings, m.Blessing) :
    ∀ m ∈ before ++ blessings ++ after, m.id ≠ "bardic_inspiration" := by
  intro m hm
  rcases List.mem_append.mp hm with hm | hm
  · rcases List.mem_append.mp hm with hm | hm
    · exact (h m (List.mem_append_left _ hm)).id
    · exact (hs m hm).id
  · exact (h m (List.mem_append_right _ hm)).id

theorem key_of_mem (h : ∀ m ∈ before ++ after, m.Unspelled) (hs : ∀ m ∈ blessings, m.Blessing) :
    ∀ m ∈ before ++ blessings ++ after, m.key ≠ (.spell, "Bardic Inspiration") := by
  intro m hm hkey
  rcases List.mem_append.mp hm with hm | hm
  · rcases List.mem_append.mp hm with hm | hm
    · exact (h m (List.mem_append_left _ hm)).source (congrArg Prod.fst hkey)
    · exact (hs m hm).name (congrArg Prod.snd hkey)
  · exact (h m (List.mem_append_right _ hm)).source (congrArg Prod.fst hkey)

theorem filter_collapse_bardic (h : ∀ m ∈ before ++ after, m.Unspelled)
    (hs : ∀ m ∈ blessings, m.Blessing) (amount : Amount) :
    (Modifier.collapse (before ++ (blessings ++ [Rule.bardic amount]) ++ after)).filter
      (·.id ≠ "bardic_inspiration") = Modifier.collapse (before ++ blessings ++ after) := by
  have hmoved : before ++ (blessings ++ [Rule.bardic amount]) ++ after =
      (before ++ blessings) ++ Rule.bardic amount :: after := by simp
  rw [hmoved, Modifier.filter_collapse_append_cons (by simp [Rule.bardic]),
    filter_collapse_of_id (id_of_mem h hs)]
  exact .inr (.inr fun n hn _ hkey => absurd hkey (key_of_mem h hs n hn))

theorem collapse_eq_iff (h : ∀ m ∈ before ++ after, m.Unspelled) (hs : ∀ m ∈ blessings, m.Blessing) :
    Modifier.collapse (before ++ after) = Modifier.collapse (before ++ blessings ++ after) ↔
      blessings = [] := by
  refine ⟨fun heq => List.eq_nil_iff_forall_not_mem.mpr fun m hm => ?_, ?_⟩
  · have hmem : m ∈ before ++ blessings ++ after :=
      List.mem_append_left _ (List.mem_append_right _ hm)
    obtain ⟨n, hn, hkey⟩ := Modifier.exists_mem_collapse hmem (hs m hm).cumulative
    rw [← heq] at hn
    have hsource : n.source = .spell := (congrArg Prod.fst hkey).trans (hs m hm).source
    exact (h n (Modifier.mem_of_mem_collapse hn)).source hsource
  · rintro rfl
    rw [List.append_nil]

end Collapsing

/-- Inspiration leaves the other modifiers of a roll as they are exactly if it is no matter for the
roll, its die can be read, or there is no other spell to be lost with it. -/
theorem resolve_inspire_iff (hb : b.IsStandard) (c : Context) (kind : RollType)
    (withCharacter : Bool) :
    (b.resolve (c.inspire true) kind [] withCharacter).filter (·.id ≠ "bardic_inspiration") =
        b.resolve (c.inspire false) kind [] withCharacter ↔
      kind.isD20 = false ∨ (∃ t, Term.parse b.limits c.inspirationDie = .ok t) ∨
        ∀ ms, Rule.spells b.limits (c.inspire false) kind = .ok ms → ms = [] := by
  obtain ⟨before, after, hunspelled, hresolve⟩ := hb.exists_resolve_inspire c kind withCharacter
  have hblessings : ∀ m ∈ Rule.granted (Rule.blessings b.limits c kind), m.Blessing :=
    fun m => Rule.blessing_of_mem
  have hnone : (∀ ms, Rule.spells b.limits (c.inspire false) kind = .ok ms → ms = []) ↔
      Rule.granted (Rule.blessings b.limits c kind) = [] := by
    rw [← Rule.granted_spells_inspire_false]
    cases Rule.spells b.limits (c.inspire false) kind <;> simp [Rule.granted]
  rw [hnone, hresolve, hresolve, Rule.granted_spells_inspire_false, applicable_of_blessing hblessings,
    Rule.granted_spells_inspire_true]
  generalize Rule.blessings b.limits c kind = spells at hblessings
  have hsame := filter_collapse_of_id (id_of_mem hunspelled hblessings)
  cases hk : kind.isD20 with
  | false =>
    rw [if_neg Bool.false_ne_true, applicable_of_blessing hblessings]
    simpa using hsame
  | true =>
    rw [if_pos rfl]
    cases hdie : Term.parse b.limits c.inspirationDie with
    | ok t =>
      refine iff_of_true ?_ (.inr (.inl ⟨t, rfl⟩))
      cases spells with
      | error fault => exact hsame
      | ok ms =>
        have hms : ∀ m ∈ ms, m.Blessing := hblessings
        show (Modifier.collapse (before ++ b.applicable (c.inspire true)
          (ms ++ [Rule.bardic (.dice t)]) ++ after)).filter _ = _
        rw [applicable_append_bardic hms]
        exact filter_collapse_bardic hunspelled hms (.dice t)
    | error fault =>
      have hlost : before ++ b.applicable (c.inspire true) [] ++ after = before ++ after := by
        rw [show b.applicable (c.inspire true) [] = [] from rfl, List.append_nil]
      dsimp only
      rw [hlost, filter_collapse_of_id fun m hm => (hunspelled m hm).id,
        collapse_eq_iff hunspelled hblessings]
      simp

end Rulebook

def Context.blessedWith (die : String) : Context :=
  { environment := { blessed := true, extras := [("inspiration_die", .text die)] } }

namespace Rulebook

open Context

theorem resolve_inspire_blessedWith : (standard {} true true true).IsStandard ∧
    ((standard {} true true true).resolve ((blessedWith "1d8").inspire true) .attack [] true).filter
        (·.id ≠ "bardic_inspiration") =
      (standard {} true true true).resolve ((blessedWith "1d8").inspire false) .attack [] true := by
  have hb : (standard {} true true true).IsStandard := ⟨_, _, _, _, rfl⟩
  have hdie : Term.parse {} "1d8" = .ok ⟨"1d8", 1, 8, 0, []⟩ := eq_ok_of_toOption (by decide +kernel)
  exact ⟨hb, (resolve_inspire_iff hb (blessedWith "1d8") .attack true).mpr (.inr (.inl ⟨_, hdie⟩))⟩

/-- With a die of inspiration that is no notation, the blessing is lost. -/
theorem resolve_inspire_loses_blessing :
    ((standard {} true true true).resolve ((blessedWith "banana").inspire true) .attack [] true).filter
        (·.id ≠ "bardic_inspiration") ≠
      (standard {} true true true).resolve ((blessedWith "banana").inspire false) .attack [] true := by
  intro h
  have hlength := congrArg List.length h
  revert hlength
  decide +kernel

end Rulebook

end DiceTower

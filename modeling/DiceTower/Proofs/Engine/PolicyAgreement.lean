import DiceTower.Proofs.Engine.CriticalCarry
import DiceTower.Proofs.Notation.Reread
import DiceTower.Proofs.Rulebook.Standard

/-! What a critical hit changes: in a roll of some segments, and in their notation, where nothing is
rolled. The notation takes healing for damage; that is all in which the two can differ. -/

namespace DiceTower

open DiceTower.Computation Drawing

def Segment.told (s : Segment) : Option RollType := s.label.bind RollType.ofLabel?

/-- Dice that are rolled for damage where an attack went before: their label tells damage or
nothing. -/
def Segment.harms (s : Segment) : Bool := s.told.all (·.isDamage) && !s.term.pool.isFlat

def Segment.heals (s : Segment) : Bool := s.told == some .healing && !s.term.pool.isFlat

structure Definition.IsBareAttack (d : Definition) : Prop where
  kind : d.kind = .attack
  context : d.context = {}
  modifiers : d.modifiers = []
  withCharacter : d.withCharacter = false

/-- The first segment is labelled as an attack, and no other one is. -/
def OneAttack : List Segment → Prop
  | [] => False
  | s :: segments => s.told = some .attack ∧ ∀ s' ∈ segments, s'.told ≠ some .attack

instance : (segments : List Segment) → Decidable (OneAttack segments)
  | [] => inferInstanceAs (Decidable False)
  | s :: segments => inferInstanceAs (Decidable (s.told = some .attack ∧
      ∀ s' ∈ segments, s'.told ≠ some .attack))

/-- Segments of which a critical hit changes those that it concerns, only the first of them where the
weapon alone is affected; `done` tells that it has passed. -/
def criticalWhere (concerns : Segment → Bool) (rules : CriticalRules) (done : Bool) :
    List Segment → List Segment
  | [] => []
  | s :: segments =>
    (if concerns s && !(done && rules.affected == .weaponOnly) then
      { s with term := s.term.critical rules } else s) ::
      criticalWhere concerns rules (done || concerns s) segments

/-- No healing is taken for damage: there is none, or what comes before it stands for the weapon. -/
def SparesHealing (rules : CriticalRules) (done : Bool) (segments : List Segment) : Prop :=
  ∀ earlier s later, segments = earlier ++ s :: later → s.heals = true →
    rules.affected = .weaponOnly ∧ (done = true ∨ ∃ q ∈ earlier, q.isDamage = true)

section Policy

variable {rules : CriticalRules} {done : Bool} {segments : List Segment} {s : Segment}

theorem RollType.ofLabel?_cases {label : String} {kind : RollType} (h : ofLabel? label = some kind) :
    kind ∈ [attack, damage, healing, save, initiative, skill] := by
  unfold ofLabel? at h
  grind

theorem Segment.told_cases {kind : RollType} (h : s.told = some kind) :
    kind ∈ [.attack, .damage, .healing, .save, .initiative, .skill] := by
  obtain ⟨label, _, hlabel⟩ := Option.bind_eq_some_iff.mp h
  exact RollType.ofLabel?_cases hlabel

theorem Segment.isDamage_eq (s : Segment) : s.isDamage = (s.harms || s.heals) := by
  have htold : s.label.bind RollType.ofLabel? = s.told := rfl
  rw [isDamage, harms, heals, htold]
  cases ht : s.told with
  | none => simp
  | some kind =>
    have hkind := told_cases ht
    simp only [List.mem_cons, List.not_mem_nil, or_false] at hkind
    rcases hkind with rfl | rfl | rfl | rfl | rfl | rfl <;>
      simp [RollType.isD20, RollType.isDamage]

theorem Segment.not_harms_of_heals (h : s.heals = true) : s.harms = false := by
  have ht : s.told = some .healing := by
    rw [heals, Bool.and_eq_true] at h
    exact eq_of_beq h.1
  rw [harms, ht]
  rfl

theorem criticalSegments_eq :
    criticalSegments rules done segments = criticalWhere Segment.isDamage rules done segments := by
  induction segments generalizing done with
  | nil => rfl
  | cons s segments ih =>
    unfold criticalSegments criticalWhere
    split
    · next h =>
      have hs : s.isDamage = true := (Bool.and_eq_true _ _ ▸ h).1
      rw [ih, hs, Bool.or_true]
    · next h =>
      have hdone : (done || s.isDamage) = done := by
        cases hs : s.isDamage with
        | false => exact Bool.or_false done
        | true =>
          rw [hs, Bool.true_and] at h
          simp only [Bool.not_eq_true, Bool.not_eq_false', Bool.and_eq_true] at h
          rw [h.1]
          rfl
      rw [ih, hdone]

theorem sparesHealing_cons : SparesHealing rules done (s :: segments) ↔
    (s.heals = true → rules.affected = .weaponOnly ∧ done = true) ∧
      SparesHealing rules (done || s.isDamage) segments := by
  constructor
  · intro h
    refine ⟨fun hs => ?_, fun earlier q later he hq => ?_⟩
    · obtain ⟨hweapon, hdone | ⟨q, hq, _⟩⟩ := h [] s segments rfl hs
      · exact ⟨hweapon, hdone⟩
      · cases hq
    · obtain ⟨hweapon, hbefore⟩ := h (s :: earlier) q later (by rw [he]; rfl) hq
      refine ⟨hweapon, ?_⟩
      rw [Bool.or_eq_true]
      rcases hbefore with hdone | ⟨p, hp, hdamage⟩
      · exact .inl (.inl hdone)
      · rcases List.mem_cons.mp hp with rfl | hp
        · exact .inl (.inr hdamage)
        · exact .inr ⟨p, hp, hdamage⟩
  · rintro ⟨hs, h⟩ earlier q later he hq
    cases earlier with
    | nil =>
      obtain ⟨rfl, _⟩ := List.cons.inj he
      exact ⟨(hs hq).1, .inl (hs hq).2⟩
    | cons p earlier =>
      obtain ⟨rfl, hrest⟩ := List.cons.inj he
      obtain ⟨hweapon, hbefore⟩ := h earlier q later hrest hq
      refine ⟨hweapon, ?_⟩
      rw [Bool.or_eq_true] at hbefore
      rcases hbefore with (hdone | hdamage) | ⟨q', hq', hdamage⟩
      · exact .inl hdone
      · exact .inr ⟨s, List.mem_cons_self, hdamage⟩
      · exact .inr ⟨q', List.mem_cons_of_mem _ hq', hdamage⟩

end Policy

section Texts

variable {rules : CriticalRules} {done : Bool} {segments : List Segment}

/-- Changing the damage alone makes the same notation as changing all that the notation takes for
damage, exactly where healing is spared. -/
theorem texts_criticalWhere_eq_iff (hr : ∀ s ∈ segments, s.term.pool.Regular) :
    (criticalWhere Segment.harms rules done segments).map (·.term.pool.text) =
        (criticalWhere Segment.isDamage rules done segments).map (·.term.pool.text) ↔
      SparesHealing rules done segments := by
  induction segments generalizing done with
  | nil => exact ⟨fun _ earlier s later he => by simp at he, fun _ => rfl⟩
  | cons s segments ih =>
    obtain ⟨hs, hrest⟩ := List.forall_mem_cons.mp hr
    rw [sparesHealing_cons, criticalWhere, criticalWhere, List.map_cons, List.map_cons,
      List.cons.injEq]
    cases hheals : s.heals with
    | false =>
      have hsame : s.isDamage = s.harms := by rw [s.isDamage_eq, hheals, Bool.or_false]
      rw [hsame]
      simp [ih hrest]
    | true =>
      have hdamage : s.isDamage = true := by rw [s.isDamage_eq, hheals, Bool.or_true]
      have hflat : ¬ s.term.pool.isFlat = true := by
        rw [Segment.heals, Bool.and_eq_true] at hheals
        simpa using hheals.2
      rw [Segment.not_harms_of_heals hheals, hdamage]
      by_cases hpassed : rules.affected = .weaponOnly ∧ done = true
      · obtain ⟨hweapon, rfl⟩ := hpassed
        simp [hweapon, ih hrest]
      · have hne := Term.text_critical_ne hs hflat rules
        have hhit : (true && !(done && rules.affected == .weaponOnly)) = true := by
          cases hd : done with
          | false => rfl
          | true =>
            have hweapon : rules.affected ≠ .weaponOnly := fun h => hpassed ⟨h, hd⟩
            simpa using hweapon
        rw [if_pos hhit]
        simp [hpassed, Ne.symm hne]

end Texts

section Kinds

variable {s : Segment} {segments : List Segment} {last : Option RollType}

def Segment.kindAfterAttack (s : Segment) : RollType := s.told.getD .damage

theorem segmentKinds_cons_of_not_attack (hs : s.told ≠ some .attack) :
    segmentKinds .attack true last (s :: segments) =
      s.kindAfterAttack :: segmentKinds .attack true (some s.kindAfterAttack) segments := by
  have htold : s.label.bind RollType.ofLabel? = s.told := rfl
  rw [segmentKinds, htold, Segment.kindAfterAttack]
  cases ht : s.told with
  | none => simp
  | some told =>
    have hne : told ≠ .attack := fun he => hs (by rw [ht, he])
    simp [hne]

theorem Segment.kindAfterAttack_isAttack (hs : s.told ≠ some .attack) :
    s.kindAfterAttack.isAttack = false := by
  unfold kindAfterAttack
  cases ht : s.told with
  | none => rfl
  | some kind =>
    have hkind := told_cases ht
    rw [ht] at hs
    simp only [List.mem_cons, List.not_mem_nil, or_false] at hkind
    rcases hkind with rfl | rfl | rfl | rfl | rfl | rfl <;> first | rfl | exact absurd rfl hs

theorem isDamageDice_kindAfterAttack (s : Segment) (rolled : Rolled) :
    Passage.isDamageDice ⟨s, s.kindAfterAttack, rolled⟩ = s.harms := by
  unfold Passage.isDamageDice Segment.harms Segment.kindAfterAttack
  cases s.told <;> rfl

end Kinds

section Rolls

variable {σ : Type} [Source σ] {e : Engine} {d : Definition} {deadline : Option Float}
  {source source' : σ}

def expressions (rolled : List Rolled) : List String := rolled.map (·.outcome.metadata.expression)

namespace Engine

theorem Rolls.expression_eq {s : Segment} {kind : RollType} {critical doubled extra : Bool}
    {o : Outcome} (h : e.Rolls d deadline s kind critical doubled extra source o source')
    (hnone : e.rulebook.resolve d.context kind d.modifiers d.withCharacter = []) :
    o.metadata.expression = (if doubled then s.term.critical e.rules else s.term).pool.text := by
  obtain ⟨missed, used, plain, t, hplain, _, _, hexpression, _⟩ := h
  rw [hnone] at hplain
  have hterm : s.term = plain := Except.ok.inj (hplain [])
  rw [hexpression, hterm]

theorem Tells.expressions_eq {before : List Passage} {segments : List Segment} {last : Option RollType}
    {done : Bool} {rolled : List Rolled}
    (h : e.Tells d deadline before source
      (passages (segments.zip (segmentKinds .attack true last segments)) rolled) source')
    (hlength : rolled.length = segments.length)
    (hnone : ∀ kind, e.rulebook.resolve d.context kind d.modifiers d.withCharacter = [])
    (hattacks : ∀ s ∈ segments, s.told ≠ some .attack) (hcritical : afterCritical before = true)
    (hdone : (sinceAttack before).any Passage.isDamageDice = done) :
    expressions rolled =
      (criticalWhere Segment.harms e.rules done segments).map (·.term.pool.text) := by
  induction segments generalizing before last done rolled source with
  | nil =>
    rw [List.length_eq_zero_iff.mp hlength]
    rfl
  | cons s segments ih =>
    -- a segment is judged by two facts about what went before it: the last attack was critical, and
    -- whether dice have harmed since; both are carried over to the rest
    obtain ⟨part, rolled, rfl⟩ := List.exists_cons_of_length_eq_add_one hlength
    obtain ⟨hs, hrest⟩ := List.forall_mem_cons.mp hattacks
    rw [segmentKinds_cons_of_not_attack hs, List.zip_cons_cons, passages_cons] at h
    obtain ⟨source₁, source₂, hrolls, _, h⟩ := h
    have hdice := isDamageDice_kindAfterAttack s part
    have hattack := s.kindAfterAttack_isAttack hs
    have hfirst := hrolls.expression_eq (hnone _)
    rw [CriticalRules.doubles, hcritical, hdone, hdice, Bool.true_and] at hfirst
    have hcritical' : afterCritical (before ++ [⟨s, s.kindAfterAttack, part⟩]) = true := by
      rw [afterCritical_append_singleton, if_neg (by simp [hattack]), hcritical]
    have hdone' : (sinceAttack (before ++ [⟨s, s.kindAfterAttack, part⟩])).any
        Passage.isDamageDice = (done || s.harms) := by
      rw [sinceAttack_append_singleton, if_neg (by simp [hattack]), List.any_cons, hdone, hdice,
        Bool.or_comm]
    have hlater := ih h (Nat.succ.inj hlength) hrest hcritical' hdone'
    rw [expressions, List.map_cons, ← expressions, hlater, hfirst, criticalWhere, List.map_cons,
      Bool.and_comm done]
    split <;> rfl

/-- A critical hit with nothing else to it changes what harms, and nothing but that. -/
theorem expressions_of_execute {f : Formula} (hf : e.formulaOf d = .ok f)
    (hone : OneAttack f.segments) (hb : e.rulebook.IsStandard) (hd : d.IsBareAttack)
    {r : RollResult} {table table' : Table σ} (h : e.execute d table = (.ok r, table'))
    (hcritical : r.rolled.head?.any (·.outcome.criticalSuccess) = true) :
    expressions r.rolled =
      (criticalWhere Segment.harms e.rules false f.segments).map (·.term.pool.text) := by
  have hnone (kind : RollType) :
      e.rulebook.resolve d.context kind d.modifiers d.withCharacter = [] := by
    rw [hd.context, hd.modifiers, hd.withCharacter]
    exact Rulebook.resolve_of_nothing_known hb
  obtain ⟨g, hg, deadline, parts, hparts, hrolled, _⟩ := exists_rollSegments_of_execute h
  obtain rfl := Except.ok.inj (hf.symm.trans hg)
  obtain ⟨hlength, htells⟩ := tells_rollSegments Carry.recalls_start hparts hrolled
  rw [List.length_zip, Formula.kinds, length_segmentKinds, Nat.min_self] at hlength
  rw [Formula.kinds, hd.kind] at htells
  cases hsegments : f.segments with
  | nil =>
    rw [hsegments] at hone
    cases hone
  | cons s segments =>
    rw [hsegments] at hone hlength htells
    obtain ⟨htold, hattacks⟩ := hone
    obtain ⟨part, rolled, hr⟩ := List.exists_cons_of_length_eq_add_one hlength
    rw [hr] at hlength htells hcritical
    have hkinds : segmentKinds .attack false none (s :: segments) =
        .attack :: segmentKinds .attack true (some .attack) segments := by
      unfold Segment.told at htold
      rw [segmentKinds, htold]
      rfl
    rw [hkinds, List.zip_cons_cons, passages_cons] at htells
    obtain ⟨source₁, source₂, hrolls, _, hlater⟩ := htells
    have hfirst := hrolls.expression_eq (hnone _)
    have hafter : afterCritical ([] ++ [⟨s, .attack, part⟩]) = true := by
      rw [afterCritical_append_singleton]
      exact hcritical
    have hrest := hlater.expressions_eq (Nat.succ.inj hlength) hnone hattacks hafter rfl
    have hharms : s.harms = false := by
      rw [Segment.harms, htold]
      rfl
    rw [hr, expressions, List.map_cons, ← expressions, hrest, hfirst, criticalWhere, hharms]
    rfl

/-- A formula is read in which one attack goes first, and it is rolled as a critical hit of which
nothing more is known. The notation that is written down for its segments is the one that a critical
hit makes of the formula, exactly where no healing is taken for damage. -/
theorem expressions_eq_critical_iff {limits : Limits} {text : String} {f : Formula}
    (hparse : Formula.parse limits text = .ok f) (hf : e.formulaOf d = .ok f)
    (hone : OneAttack f.segments) (hb : e.rulebook.IsStandard) (hd : d.IsBareAttack)
    {r : RollResult} {table table' : Table σ} (h : e.execute d table = (.ok r, table'))
    (hcritical : r.rolled.head?.any (·.outcome.criticalSuccess) = true) :
    expressions r.rolled = (criticalSegments e.rules false f.segments).map (·.term.pool.text) ↔
      SparesHealing e.rules false f.segments := by
  have hregular : ∀ s ∈ f.segments, s.term.pool.Regular := by
    intro s hs
    obtain ⟨cs, hdenotes⟩ := ((Formula.readable_of_parse hparse).2 s hs).pool
    exact hdenotes.regular
  rw [expressions_of_execute hf hone hb hd h hcritical, criticalSegments_eq]
  exact texts_criticalWhere_eq_iff hregular

def siphon : Definition where
  id := "siphon"
  kind := .attack
  wording := .text "attack:1d20,damage:2d6,heal:1d8"
  withCharacter := false

theorem expressions_eq_critical_siphon : ∃ f r table',
    Formula.parse {} "attack:1d20,damage:2d6,heal:1d8" = .ok f ∧
    Engine.formulaOf {} siphon = .ok f ∧ OneAttack f.segments ∧
    Rulebook.IsStandard (rulebook {}) ∧ siphon.IsBareAttack ∧
    execute {} siphon (Table.opening [20, 1, 2, 3, 4, 5]) = (.ok r, table') ∧
    r.rolled.head?.any (·.outcome.criticalSuccess) = true ∧
    (expressions r.rolled = (criticalSegments {} false f.segments).map (·.term.pool.text) ↔
      SparesHealing {} false f.segments) := by
  obtain ⟨f, hf, hone⟩ := exists_eq_ok_of_any (p := fun f : Formula => decide (OneAttack f.segments))
    (show (Formula.parse {} "attack:1d20,damage:2d6,heal:1d8").toOption.any _ = true by
      decide +kernel)
  obtain ⟨r, hr, hcritical⟩ := exists_eq_ok_of_any
    (p := fun r : RollResult => r.rolled.head?.any (·.outcome.criticalSuccess))
    (show (execute {} siphon (Table.opening [20, 1, 2, 3, 4, 5])).1.toOption.any _ = true by
      decide +kernel)
  have hread : Engine.formulaOf {} siphon = .ok f := hf
  have hb : Rulebook.IsStandard (rulebook {}) := ⟨_, _, _, _, rfl⟩
  have hd : siphon.IsBareAttack := ⟨rfl, rfl, rfl, rfl⟩
  exact ⟨f, r, _, hf, hread, of_decide_eq_true hone, hb, hd, Prod.ext hr rfl, hcritical,
    expressions_eq_critical_iff hf hread (of_decide_eq_true hone) hb hd (Prod.ext hr rfl) hcritical⟩

def mendingBlow : Definition where
  id := "mending"
  kind := .attack
  wording := .text "attack:1d20,heal:1d8"
  withCharacter := false

/-- The notation of a critical hit doubles the healing, which the roll leaves as it is. -/
theorem critical_doubles_mendingBlow : ∃ f r table', Engine.formulaOf {} mendingBlow = .ok f ∧
    OneAttack f.segments ∧ Rulebook.IsStandard (rulebook {}) ∧ mendingBlow.IsBareAttack ∧
    execute {} mendingBlow (Table.opening [20, 5]) = (.ok r, table') ∧
    r.rolled.head?.any (·.outcome.criticalSuccess) = true ∧
    expressions r.rolled = ["1d20", "1d8"] ∧
    (criticalSegments {} false f.segments).map (·.term.pool.text) = ["1d20", "2d8"] := by
  obtain ⟨f, hf, hformula⟩ := exists_eq_ok_of_any
    (p := fun f : Formula => decide (OneAttack f.segments ∧
      (criticalSegments {} false f.segments).map (·.term.pool.text) = ["1d20", "2d8"]))
    (show (Engine.formulaOf {} mendingBlow).toOption.any _ = true by decide +kernel)
  obtain ⟨r, hr, hroll⟩ := exists_eq_ok_of_any
    (p := fun r : RollResult => decide (r.rolled.head?.any (·.outcome.criticalSuccess) = true ∧
      expressions r.rolled = ["1d20", "1d8"]))
    (show (execute {} mendingBlow (Table.opening [20, 5])).1.toOption.any _ = true by
      decide +kernel)
  obtain ⟨hone, hcritical⟩ := of_decide_eq_true hformula
  obtain ⟨hhit, hexpressions⟩ := of_decide_eq_true hroll
  exact ⟨f, r, _, hf, hone, ⟨_, _, _, _, rfl⟩, ⟨rfl, rfl, rfl, rfl⟩, Prod.ext hr rfl, hhit,
    hexpressions, hcritical⟩

end Engine

end Rolls

end DiceTower

import DiceTower.Proofs.Engine.Advantage
import DiceTower.Proofs.Session.WeaponNotation

/-! Advantage and disadvantage of an attack with a weapon. Its notation tells them from what is given
and from hiding alone, the engine from all modifiers that are active: where the two differ, dice are
dropped although advantage and disadvantage cancel out. -/

namespace DiceTower

open DiceTower.Computation Drawing

section Lines

theorem not_isOwnDie_scaleLines {ms : List Modifier} {total : Int} {lines : List Item}
    (h : scaleLines total ms = .ok lines) : ∀ i ∈ lines, i.isOwnDie = false := by
  induction ms generalizing total lines with
  | nil =>
    cases h
    exact List.forall_mem_nil _
  | cons m ms ih =>
    obtain ⟨scaled, _, h⟩ := bind_eq_ok_iff.mp h
    split at h
    · exact ih h
    · obtain ⟨rest, hrest, h⟩ := bind_eq_ok_iff.mp h
      cases h
      exact List.forall_mem_cons.mpr ⟨rfl, ih hrest⟩

theorem filter_isOwnDie_eq_nil {items : List Item} (h : ∀ i ∈ items, i.isOwnDie = false) :
    items.filter Item.isOwnDie = [] :=
  List.filter_eq_nil_iff.mpr fun i hi => by simp [h i hi]

def Outcome.ownDice (o : Outcome) : List Item := o.items.filter Item.isOwnDie

variable {σ : Type} [Source σ] {e : Engine} {deadline : Option Float} {label : Option String}
  {kind : RollType} {ms : List Modifier} {remarks : List Item} {t : Term} {critical : Bool}

theorem Engine.gives_not_isOwnDie_modifierItems (m : Modifier) :
    Gives (e.modifierItems deadline critical m : Drawing σ (List Item)) fun items =>
      ∀ i ∈ items, i.isOwnDie = false := by
  unfold modifierItems
  split
  · refine (Gives.trivial _).bind fun n _ => .of_pure fun i hi => ?_
    obtain rfl := List.mem_singleton.mp hi
    rfl
  · exact (Gives.trivial _).bind fun r _ => .of_pure (r.not_isOwnDie_of_origin m.name)
  · exact .of_pure (List.forall_mem_nil _)

theorem Engine.gives_ownDice_tally {P : Roll → Prop}
    (hroll : Gives (t.roll deadline e.cap label : Drawing σ Roll) P)
    (hface : ∀ m ∈ ms, m.kind ≠ .replaceDie) (hremarks : ∀ i ∈ remarks, i.isOwnDie = false) :
    Gives (e.tally deadline label kind ms remarks t critical false : Drawing σ Tally) fun tally =>
      ∃ r, P r ∧ tally.items.filter Item.isOwnDie = (r.items none).filter Item.isOwnDie := by
  unfold tally
  refine hroll.bind fun r hr => ?_
  refine (Gives.of_lift fun n hn => Roll.natural_eq hface hn).bind fun natural hnatural => ?_
  refine (Gives.mapM fun m _ => gives_not_isOwnDie_modifierItems m).bind fun bonuses hbonuses => ?_
  rw [extraItems_of_not_due, pure_bind]
  refine (Gives.of_lift fun lines h => not_isOwnDie_scaleLines h).bind fun scaling hscaling => ?_
  refine (Gives.trivial _).bind fun faces _ => (Gives.trivial _).bind fun id _ =>
    .of_pure ⟨r, hr, ?_⟩
  have hflatten : ∀ i ∈ bonuses.flatten, i.isOwnDie = false := by
    intro i hi
    obtain ⟨items, hitems, hi⟩ := List.mem_flatten.mp hi
    obtain ⟨_, _, h⟩ := exists_mem_of_forall₂ hbonuses items hitems
    exact h i hi
  simp only [List.filter_append, hnatural.1, hnatural.2, filter_isOwnDie_eq_nil hremarks,
    filter_isOwnDie_eq_nil hflatten, filter_isOwnDie_eq_nil hscaling, List.append_nil]

theorem Engine.ownDice_of_rollSegment {d : Definition} {s : Segment} {rolled : Rolled} {after : Carry}
    {source source' : σ} (hk : kind.isDamage = false)
    (hms : ∀ m ∈ (e.activeIn d kind {}).1, m.kind.operation? = none ∧ m.kind ≠ .replaceDie)
    (h : Comes (e.rollSegment d deadline s kind {}) source (rolled, after) source')
    {P : Roll → Prop}
    (hroll : Gives ((s.term.withAdvantage kind (e.activeIn d kind {}).1).term.roll deadline e.cap
      s.label : Drawing σ Roll) P) :
    ∃ r, P r ∧ rolled.outcome.ownDice = (r.items none).filter Item.isOwnDie := by
  obtain ⟨st, n, used, source₁, hst, -, -, hmain, -⟩ := strike_copies_of_rollSegment h
  obtain ⟨plain, tally, hplain, htally, rfl⟩ := struck_of_strike hst
  rw [hmain]
  have hpure := hplain []
  rw [Term.withOperations_eq_pure fun m hm => (hms m hm).1] at hpure
  obtain rfl := Except.ok.inj hpure
  rw [e.extraDue_of_not_isDamage hk, e.rolledTerm_of_not_isDamage hk] at htally
  exact htally.of_gives (gives_ownDice_tally hroll (fun m hm => (hms m hm).2)
    (Term.not_isOwnDie_remarks _ _ _))

end Lines

namespace Outcome

def RollsOne (o : Outcome) : Prop :=
  ∃ i, o.ownDice = [i] ∧ i.sides = some 20 ∧ i.dropped = false

/-- Two twenty-sided dice are rolled, of which the better or the worse counts. -/
def RollsTwo (better : Bool) (o : Outcome) : Prop :=
  ∃ i j, o.ownDice = [i, j] ∧ i.sides = some 20 ∧ j.sides = some 20 ∧
    (i.Prevails better j ∨ j.Prevails better i)

/-- The dice are those that advantage and disadvantage want: one where they cancel out or are both
missing, else two of which the better or the worse counts. -/
structure Honours (advantage disadvantage : Prop) (o : Outcome) : Prop where
  even : (advantage ↔ disadvantage) → o.RollsOne
  better : advantage → ¬ disadvantage → o.RollsTwo true
  worse : disadvantage → ¬ advantage → o.RollsTwo false

theorem RollsTwo.not_rollsOne {o : Outcome} {better : Bool} (h : o.RollsTwo better) :
    ¬ o.RollsOne := by
  obtain ⟨i, j, hdice, _⟩ := h
  rintro ⟨k, hone, _⟩
  rw [hone] at hdice
  cases hdice

theorem rollsOne_of_roll {o : Outcome} {r : Roll} (hflat : r.term.pool.isFlat = false)
    (h : ∃ d, r.dice = [d] ∧ d.sides = 20 ∧ d.dropped = false)
    (ho : o.ownDice = (r.items none).filter Item.isOwnDie) : o.RollsOne := by
  obtain ⟨d, hdice, hsides, hcounts⟩ := h
  obtain ⟨i, hi, hs, _, hdropped⟩ := d.exists_own_line
  refine ⟨i, ?_, by rw [hs, hsides], by rw [hdropped, hcounts]⟩
  rw [ho, Roll.filter_items hflat, hdice, List.flatMap_singleton, hi]

theorem rollsTwo_of_roll {o : Outcome} {r : Roll} (hflat : r.term.pool.isFlat = false)
    {better : Bool} (h : Die.Paired better r.dice)
    (ho : o.ownDice = (r.items none).filter Item.isOwnDie) : o.RollsTwo better := by
  obtain ⟨d, d', hdice, hsides, hsides', hprevails⟩ := h
  obtain ⟨i, hi, hs, hline⟩ := d.exists_own_line
  obtain ⟨i', hi', hs', hline'⟩ := d'.exists_own_line
  refine ⟨i, i', ?_, by rw [hs, hsides], by rw [hs', hsides'], ?_⟩
  · rw [ho, Roll.filter_items hflat, hdice, List.flatMap_cons, List.flatMap_singleton, hi, hi']
    rfl
  · exact hprevails.imp (·.lines hline hline') (·.lines hline' hline)

end Outcome

namespace Weapon

theorem withWeapon_contextOf (w : Weapon) (c : Context) :
    (w.contextOf c).withWeapon w.name = w.contextOf c := if_pos ⟨rfl, rfl⟩

end Weapon

namespace Session

variable {σ : Type} [Source σ] {s : Session} {w : Weapon} {c : Context} {gate : Option Bool}
  {x : Exchange} {table table' : Table σ}

def attackModifiers (s : Session) (w : Weapon) (c : Context) : List Modifier :=
  (activate .attack false false []
    (s.engine.rulebook.resolve (w.contextOf c) .attack [] false)).1

theorem activeIn_attackRequest (text : String) (wording : Wording) (id : String) :
    (s.engine.activeIn ((attackRequest w.name text (w.contextOf c)).definition wording id) .attack
      {}).1 = s.attackModifiers w c := by
  show (activate .attack false false [] (s.engine.rulebook.resolve
    ((w.contextOf c).withWeapon w.name) .attack [] false)).1 = _
  rw [w.withWeapon_contextOf c]
  rfl

theorem usual_attackModifiers (hb : s.engine.rulebook.IsStandard) :
    ∀ m ∈ s.attackModifiers w c, m.Usual .attack :=
  fun _ hm => Rulebook.usual_of_mem_resolve hb (mem_of_mem_activate hm)

theorem ownDice_of_useWeapon (hb : s.engine.rulebook.IsStandard)
    (h : s.useWeapon w c gate table = (.ok x, table')) : ∃ t : Term,
      t.pool = Weapon.attackPool c.environment (w.attackBonus + w.magicBonus) ∧
      ∀ P : Roll → Prop,
        (∀ deadline, Gives ((t.withAdvantage .attack (s.attackModifiers w c)).term.roll deadline
          s.engine.cap none : Drawing σ Roll) P) →
        ∃ r, P r ∧ x.attack.outcome.ownDice = (r.items none).filter Item.isOwnDie := by
  obtain ⟨_, table₁, _, hattack, _⟩ := attackRoll_of_attackThenDamage h
  obtain ⟨id, hx⟩ := execute_of_attackRoll hattack
  rw [Weapon.attack_written] at hx
  obtain ⟨f, hf, _⟩ := Engine.exists_rollSegments_of_execute hx
  obtain ⟨t, hs, ht⟩ := Formula.segments_of_parse_text (Weapon.legible_attackPool ..).toRegular hf
  obtain ⟨_, deadline, rolled, after, hroll, hrolled⟩ :=
    Engine.exists_rollSegment_of_execute hx hf hs
  refine ⟨t, ht, fun P hP => ?_⟩
  obtain ⟨elapsed, ho⟩ := hrolled.1
  have hms := usual_attackModifiers (w := w) (c := c) hb
  rw [← activeIn_attackRequest _ (.text _) id] at hms hP
  obtain ⟨r, hr, hdice⟩ := Engine.ownDice_of_rollSegment rfl
    (fun m hm => ⟨(hms m hm).operation, (hms m hm).face⟩) hroll (hP deadline)
  exact ⟨r, hr, (congrArg (fun o : Outcome => o.ownDice) ho).trans hdice⟩

theorem among_of_favours {advantage : Bool}
    (h : ∃ m ∈ s.engine.rulebook.resolve (w.contextOf c) .attack [] false, m.Favours advantage) :
    Modifier.Among (if advantage then .advantage else .disadvantage) (s.attackModifiers w c) := by
  obtain ⟨m, hm, hf⟩ := h
  exact hf.among hm

theorem among_of_given (hb : s.engine.rulebook.IsStandard)
    (h : (c.environment.advantage || c.environment.hidden) = true) :
    Modifier.Among .advantage (s.attackModifiers w c) := by
  rw [Bool.or_eq_true] at h
  rcases h with h | h
  · exact among_of_favours (Rulebook.exists_favours_of_advantage hb rfl h)
  · exact among_of_favours (Rulebook.exists_favours_of_hidden hb rfl h)

theorem among_of_disadvantage (hb : s.engine.rulebook.IsStandard)
    (h : c.environment.disadvantage = true) :
    Modifier.Among .disadvantage (s.attackModifiers w c) :=
  among_of_favours (Rulebook.exists_favours_of_disadvantage hb rfl h)

/-- Where the notation has one die, the active modifiers make the right dice of it. -/
theorem honours_of_one (hb : s.engine.rulebook.IsStandard)
    (h : s.useWeapon w c gate table = (.ok x, table'))
    (heven : (c.environment.advantage || c.environment.hidden) = c.environment.disadvantage) :
    x.attack.outcome.Honours (Modifier.Among .advantage (s.attackModifiers w c))
      (Modifier.Among .disadvantage (s.attackModifiers w c)) := by
  obtain ⟨t, ht, hdice⟩ := ownDice_of_useWeapon hb h
  rw [Weapon.attackPool, if_pos heven] at ht
  have htwo {better : Bool} (hpool : (t.withAdvantage .attack (s.attackModifiers w c)).term.pool =
      ⟨2, 20, w.attackBonus + w.magicBonus, [.keepOne better]⟩) :
      x.attack.outcome.RollsTwo better := by
    obtain ⟨r, ⟨hterm, hpair⟩, ho⟩ := hdice _ fun deadline => Term.gives_roll_two hpool
    exact Outcome.rollsTwo_of_roll (by rw [hterm, hpool]; rfl) hpair ho
  refine ⟨fun hAD => ?_, fun hA hD => ?_, fun hD hA => ?_⟩
  · rw [Term.term_withAdvantage_of_iff hAD] at hdice
    obtain ⟨r, ⟨hterm, hone⟩, ho⟩ := hdice _ fun deadline => Term.gives_roll_one ht
    exact Outcome.rollsOne_of_roll (by rw [hterm, ht]; rfl) hone ho
  · exact htwo (Term.pool_withAdvantage_one true rfl ht hA hD)
  · exact htwo (Term.pool_withAdvantage_one false rfl ht hD hA)

/-- Where the notation has two dice, they are rolled whatever modifiers are active. -/
theorem rollsTwo_of_two (hb : s.engine.rulebook.IsStandard)
    (h : s.useWeapon w c gate table = (.ok x, table'))
    (hodd : (c.environment.advantage || c.environment.hidden) ≠ c.environment.disadvantage) :
    x.attack.outcome.RollsTwo (c.environment.advantage || c.environment.hidden) := by
  obtain ⟨t, ht, hdice⟩ := ownDice_of_useWeapon hb h
  rw [Weapon.attackPool, if_neg hodd] at ht
  rw [Term.term_withAdvantage_two ht] at hdice
  obtain ⟨r, ⟨hterm, hpair⟩, ho⟩ := hdice _ fun deadline => Term.gives_roll_two ht
  exact Outcome.rollsTwo_of_roll (by rw [hterm, ht]; rfl) hpair ho

/-- An attack with a weapon honours advantage and disadvantage, but for one case: both are among the
active modifiers, while of what is given and hiding only one side is there. Two dice are rolled then,
as the notation has it, although advantage and disadvantage cancel out. -/
theorem honours_useWeapon_iff (hb : s.engine.rulebook.IsStandard)
    (h : s.useWeapon w c gate table = (.ok x, table')) :
    let advantage := Modifier.Among .advantage (s.attackModifiers w c)
    let disadvantage := Modifier.Among .disadvantage (s.attackModifiers w c)
    let given := c.environment.advantage || c.environment.hidden
    (x.attack.outcome.Honours advantage disadvantage ↔
      ¬ (advantage ∧ disadvantage ∧ given ≠ c.environment.disadvantage)) ∧
    (advantage ∧ disadvantage ∧ given ≠ c.environment.disadvantage →
      x.attack.outcome.RollsTwo given) := by
  intro advantage disadvantage given
  refine ⟨⟨?_, fun hexcept => ?_⟩, fun hexcept => rollsTwo_of_two hb h hexcept.2.2⟩
  · rintro hhonours ⟨hA, hD, hodd⟩
    exact (rollsTwo_of_two hb h hodd).not_rollsOne (hhonours.even (iff_of_true hA hD))
  by_cases hodd : given = c.environment.disadvantage
  · exact honours_of_one hb h hodd
  have htwo := rollsTwo_of_two hb h hodd
  cases hgiven : given with
  | true =>
    have hA : advantage := among_of_given hb hgiven
    have hD : ¬ disadvantage := fun hD => hexcept ⟨hA, hD, hodd⟩
    rw [show (c.environment.advantage || c.environment.hidden) = true from hgiven] at htwo
    exact ⟨fun hAD => absurd (hAD.mp hA) hD, fun _ _ => htwo, fun h => absurd h hD⟩
  | false =>
    have hdis : c.environment.disadvantage = true := by
      rw [hgiven] at hodd
      simpa using hodd
    have hD : disadvantage := among_of_disadvantage hb hdis
    have hA : ¬ advantage := fun hA => hexcept ⟨hA, hD, hodd⟩
    rw [show (c.environment.advantage || c.environment.hidden) = false from hgiven] at htwo
    exact ⟨fun hAD => absurd (hAD.mpr hD) hA, fun h => absurd h hA, fun _ _ => htwo⟩

def club : Weapon where
  name := "Club"

def unhurried : Session := { engine := { patience := 0.0 } }

def poisoned : Context := { environment := { advantage := true, conditions := ["poisoned"] } }

def flanking : Context := { environment := { conditions := ["flanking"] } }

def spotted : Context := { environment := { hidden := true, disadvantage := true } }

theorem kinds_poisoned :
    (unhurried.attackModifiers club poisoned).map (·.kind) = [.advantage, .disadvantage] := by
  have hoffered : unhurried.engine.rulebook.applicable (club.contextOf poisoned)
      (Rulebook.offered (unhurried.engine.rulebook.answers (club.contextOf poisoned) .attack false) ++
        []) = Rule.givenAdvantage poisoned.environment ++ [Rule.circumstance "poisoned" "Poisoned"
          "Disadvantage on attack rolls and ability checks" .disadvantage 32] := rfl
  unfold attackModifiers Rulebook.resolve
  rw [hoffered, Modifier.collapse_eq_self rfl (by decide)]
  rfl

theorem kinds_flanking :
    (unhurried.attackModifiers club flanking).map (·.kind) = [.advantage] := by
  decide +kernel

theorem among_iff_mem_kinds {kind : ModifierKind} {ms : List Modifier} :
    Modifier.Among kind ms ↔ kind ∈ ms.map (·.kind) := List.mem_map.symm

def clubFormula : Formula := ⟨"1d6", [⟨none, ⟨"1d6", ⟨1, 6, 0, []⟩⟩⟩]⟩

theorem damage_written_club (e : Environment) : (club.written e).damage = "1d6" := by
  show Text.withoutSpaces "1d6" ++ Weapon.bonus 0 = "1d6"
  decide +kernel

theorem exists_useWeapon_club {c : Context} (hc : c.Unscaled)
    (hf : (Formula.parse {} (club.written c.environment).attack).toOption.any (fun _ => true) = true)
    (table : Table StdGen) :
    ∃ x table', unhurried.useWeapon club c none table = (.ok x, table') := by
  obtain ⟨f, hf, -⟩ := exists_eq_ok_of_any hf
  have hg : Formula.parse {} (club.written c.environment).damage = .ok clubFormula := by
    rw [damage_written_club]
    exact eq_ok_of_toOption (by decide +kernel)
  obtain ⟨h, hh, -⟩ := exists_eq_ok_of_any (p := fun _ => true)
    (x := Formula.parse {} (clubFormula.critical {}).written) (by decide +kernel)
  have hrules : unhurried.engine.rulebook.Harmless := .of_isStandard ⟨{}, true, true, true, rfl⟩
  have hunscaled : (club.contextOf c).Unscaled := hc
  exact exists_attackThenDamage_of_fair (s := unhurried) nofun (by decide +kernel) hrules hunscaled
    fair_stdGen (club.withWeapon_contextOf c) hf hg hh none table

theorem honours_useWeapon_club : Rulebook.IsStandard unhurried.engine.rulebook ∧
    let start : Table StdGen := { tray := { source := seeded 7 }, history := { limit := 50 } }
    let honours (c : Context) (o : Outcome) := o.Honours
      (Modifier.Among .advantage (unhurried.attackModifiers club c))
      (Modifier.Among .disadvantage (unhurried.attackModifiers club c))
    (∃ x table, unhurried.useWeapon club poisoned none start = (.ok x, table) ∧
      x.attack.outcome.RollsTwo true ∧ ¬ honours poisoned x.attack.outcome) ∧
    (∃ x table, unhurried.useWeapon club flanking none start = (.ok x, table) ∧
      x.attack.outcome.RollsTwo true ∧ honours flanking x.attack.outcome) ∧
    ∃ x table, unhurried.useWeapon club spotted none start = (.ok x, table) ∧
      x.attack.outcome.RollsOne ∧ honours spotted x.attack.outcome := by
  have hb : Rulebook.IsStandard unhurried.engine.rulebook := ⟨_, _, _, _, rfl⟩
  refine ⟨hb, ?_⟩
  intro start honours
  refine ⟨?poisoned, ?flanking, ?spotted⟩
  case poisoned =>
    obtain ⟨x, table, hx⟩ := exists_useWeapon_club (c := poisoned) (fun _ _ _ => rfl)
      (by decide +kernel) start
    obtain ⟨hiff, htwo⟩ := honours_useWeapon_iff hb hx
    have hexcept : Modifier.Among .advantage (unhurried.attackModifiers club poisoned) ∧
        Modifier.Among .disadvantage (unhurried.attackModifiers club poisoned) ∧
        (true || false) ≠ false := by
      rw [among_iff_mem_kinds, among_iff_mem_kinds, kinds_poisoned]
      decide
    exact ⟨x, table, hx, htwo hexcept, fun hhonours => hiff.mp hhonours hexcept⟩
  case flanking =>
    obtain ⟨x, table, hx⟩ := exists_useWeapon_club (c := flanking) (fun _ _ _ => rfl)
      (by decide +kernel) start
    have hhonours := (honours_useWeapon_iff hb hx).1.mpr fun h => h.2.2 rfl
    refine ⟨x, table, hx, hhonours.better ?_ ?_, hhonours⟩ <;>
      rw [among_iff_mem_kinds, kinds_flanking] <;> decide
  case spotted =>
    obtain ⟨x, table, hx⟩ := exists_useWeapon_club (c := spotted) (fun _ _ _ => rfl)
      (by decide +kernel) start
    have hhonours := (honours_useWeapon_iff hb hx).1.mpr fun h => h.2.2 rfl
    refine ⟨x, table, hx, hhonours.even (iff_of_true ?_ ?_), hhonours⟩
    · exact among_of_given hb rfl
    · exact among_of_disadvantage hb rfl

end Session

end DiceTower

import DiceTower.Proofs.Engine.Agreement
import DiceTower.Proofs.Session.Flow

/-! An attack with its damage rolled as one, and the damage rolled after the attack. One roll carries a
critical hit from its first segment to its second; two rolls write the damage anew and read it once
more. Both come to the same. -/

namespace DiceTower

open DiceTower.Computation Drawing

theorem Formula.segments_of_parse_critical {limits : Limits} {rules : CriticalRules} {t : Term}
    (ht : t.pool.Regular) {text : String} {f : Formula}
    (h : Formula.parse limits ((Formula.mk text [⟨none, t⟩]).critical rules).written = .ok f) :
    ∃ t' : Term, f.segments = [⟨none, t'⟩] ∧ t'.pool = (t.critical rules).pool := by
  have hwritten : ((Formula.mk text [⟨none, t⟩]).critical rules).written =
      (t.critical rules).pool.text := by
    unfold Formula.critical criticalSegments
    split
    · rfl
    · next hd =>
      have hflat : t.pool.isFlat = true := by
        simpa [Segment.isDamage] using hd
      rw [Term.critical_of_isFlat hflat]
      rfl
  rw [hwritten] at h
  exact Formula.segments_of_parse_text (Term.regular_critical ht rules) h

namespace Session

variable {σ : Type} [Source σ] {s : Session} {weapon attack damage : String} {c : Context}
  {t t' : Term} {table table' : Table σ}

theorem exists_rollSegment_of_damageAfter (ht : Term.parse s.engine.limits damage = .ok t)
    {o : Outcome} {x : RollResult}
    (h : s.damageAfter weapon damage c o table = (.ok x, table')) :
    ∃ text id deadline t' rolled after,
      t'.pool = (if o.criticalSuccess then t.critical s.engine.rules else t).pool ∧
      Comes (s.engine.rollSegment
        ((damageRequest weapon text c o.criticalSuccess).definition (.text text) id) deadline
        ⟨none, t'⟩ .damage {}) table.tray.source (rolled, after) table'.tray.source ∧
      rolled.Timed ⟨x.outcome, x.extras⟩ := by
  have hf := Formula.parse_of_term ht
  by_cases hc : o.criticalSuccess = true
  · rw [damageAfter_of_criticalSuccess s weapon damage c hf hc, note_bind_apply] at h
    obtain ⟨id, hx⟩ := execute_of_damageRoll h
    obtain ⟨f, hf', -⟩ := Engine.exists_rollSegments_of_execute hx
    have hregular := ((Term.parse_eq_ok_iff.mp ht).2).regular
    obtain ⟨t', hs, ht'⟩ := Formula.segments_of_parse_critical hregular hf'
    obtain ⟨-, deadline, rolled, after, hroll, hrolled⟩ :=
      Engine.exists_rollSegment_of_execute hx hf' hs
    exact ⟨_, id, deadline, t', rolled, after, by rw [if_pos hc, ht'], hroll, hrolled⟩
  · rw [damageAfter_of_not_criticalSuccess s weapon damage c hc] at h
    obtain ⟨id, hx⟩ := execute_of_damageRoll h
    obtain ⟨-, deadline, rolled, after, hroll, hrolled⟩ :=
      Engine.exists_rollSegment_of_execute hx hf rfl
    exact ⟨_, id, deadline, t, rolled, after, by rw [if_neg hc], hroll, hrolled⟩

section Alike

variable {e : Engine} {id id' text : String} {w w' : Wording}

theorem alike_attack (t : Term) :
    e.Alike .attack ((pairRequest weapon attack damage c).definition w id)
      ((attackRequest weapon attack c).definition w' id') {} {} t t :=
  ⟨rfl, rfl, rfl, rfl, rfl, rfl⟩

theorem activate_damage_of_attack (hb : e.rulebook.IsStandard) {d : Definition}
    (hd : d.modifiers = []) (c : Context) (critical withCharacter : Bool) :
    (activate .damage critical false (e.activeIn d .attack {}).2
      (e.rulebook.resolve c .damage [] withCharacter)).1 =
    (activate .damage critical false [] (e.rulebook.resolve c .damage [] withCharacter)).1 := by
  refine activate_congr fun m hm ho => iff_of_false (fun hused => ?_) List.not_mem_nil
  rcases mem_used_activate hused with h | ⟨n, hn, hon, he⟩
  · cases h
  · rw [hd] at hn
    rw [(Rulebook.usual_of_mem_resolve hb hm).once ho,
      (Rulebook.usual_of_mem_resolve hb hn).once hon] at he
    exact absurd he (by decide)

/-- Damage that follows its attack in one roll is like the damage rolled after it: what the carry says
of the attack, the other roll has in its words and in its request. -/
theorem alike_damage (hb : e.rulebook.IsStandard) {critical : Bool} {t' : Term}
    (ht : t'.pool = (if critical then t.critical e.rules else t).pool) :
    e.Alike .damage ((pairRequest weapon attack damage c).definition w id)
      ((damageRequest weapon text (c.withWeapon weapon) critical).definition w' id')
      { used := (e.activeIn ((pairRequest weapon attack damage c).definition w id) .attack {}).2
        critical } {} t t' := by
  have hd : ((pairRequest weapon attack damage c).definition w id).modifiers = [] := rfl
  have hcritical : Carry.criticalDamage
      ((damageRequest weapon text (c.withWeapon weapon) critical).definition w' id') .damage {} =
        critical := Bool.or_false critical
  constructor
  · rfl
  · unfold Engine.activeIn
    rw [hcritical]
    exact activate_damage_of_attack hb hd (c.withWeapon weapon) critical false
  · exact hcritical.symm
  · unfold Engine.extraDue
    rw [hcritical]
    rfl
  · rw [Engine.withAdvantage_damage hb hd, Engine.withAdvantage_damage hb hd]
  · rw [Engine.withAdvantage_damage hb hd, Engine.withAdvantage_damage hb hd,
      Engine.rolledTerm_of_isDamage rfl rfl,
      Engine.rolledTerm_of_isDamage rfl rfl]
    exact ht.symm

end Alike

/-- An attack with its damage in one roll, and the damage rolled after the attack, agree in both under
the usual rules: where both are made from the same dice, and the attack does not miss, the two
segments of the one are the attack and the damage of the other. -/
theorem attackWithDamage_agrees_attackThenDamage {gate : Option Bool} {x : RollResult} {y : Exchange}
    {after after' : Table σ} (hb : s.engine.rulebook.IsStandard)
    (ht : Term.parse s.engine.limits attack = .ok t)
    (ht' : Term.parse s.engine.limits damage = .ok t')
    (hsource : table.tray.source = table'.tray.source)
    (hx : s.attackWithDamage weapon attack damage c table = (.ok x, after))
    (hy : s.attackThenDamage weapon attack damage c gate table' = (.ok y, after'))
    (hhit : y.attack.outcome.success ≠ some false) :
    ∃ a b hit, x.parts = [a, b] ∧ y.damage = some hit ∧
      a.Agrees ⟨y.attack.outcome, y.attack.extras⟩ ∧ b.Agrees ⟨hit.outcome, hit.extras⟩ := by
  obtain ⟨id, table₁, table₂, hsource₁, hx⟩ := execute_of_attackWithDamage hx
  obtain ⟨f, hf, hs⟩ := Formula.segments_of_attackAndDamage ht ht'
  have hkinds : f.kinds .attack = [.attack, .damage] := by
    rw [Formula.kinds, hs]
    rfl
  obtain ⟨deadline, first, carry, source, second, last, a, b, hfirst, hsecond, hparts, ha, hb'⟩ :=
    Engine.exists_rollSegment_pair_of_execute hx hf hs hkinds
  obtain ⟨_, table₃, _, hattack, hrest⟩ := attackRoll_of_attackThenDamage hy
  obtain ⟨hit, hdamage, hafter⟩ := hrest (by simpa [spares] using fun _ => hhit)
  obtain ⟨id₁, hattack⟩ := execute_of_attackRoll hattack
  obtain ⟨-, deadline₁, rolled, after₁, hroll, hrolled⟩ := Engine.exists_rollSegment_of_execute
    hattack (Formula.parse_of_term ht) rfl
  obtain ⟨text, id₂, deadline₂, t₂, rolled', after₂, ht₂, hroll', hrolled'⟩ :=
    exists_rollSegment_of_damageAfter ht' hafter
  rw [hsource₁, hsource] at hfirst
  obtain ⟨hfirst', rfl⟩ := (alike_attack t).agrees_of_rollSegment hb rfl rfl hfirst hroll
  have hagrees := hfirst'.outcome.trans hrolled.1.agrees
  have hmissed : (first.outcome.success == some false) = false := by
    rw [hagrees.success]
    simpa using hhit
  obtain rfl := Engine.carry_of_attack rfl hb rfl hfirst
  rw [hmissed] at hsecond
  rw [← hagrees.criticalSuccess] at ht₂ hroll'
  obtain ⟨hsecond', -⟩ := (alike_damage hb ht₂).agrees_of_rollSegment hb rfl rfl hsecond hroll'
  exact ⟨a, b, hit, hparts, hdamage, hfirst'.timed ha hrolled, hsecond'.timed hb' hrolled'⟩

/-- A sword hits critically, and both ways its damage is doubled. -/
theorem attackWithDamage_agrees_sword : Rulebook.IsStandard (Session.engine {}).rulebook ∧
    ∃ x y after after', attackWithDamage {} "Sword" "1d20" "1d8" {} (Table.opening [20, 3, 4]) =
        (.ok x, after) ∧
      attackThenDamage {} "Sword" "1d20" "1d8" {} none (Table.opening [20, 3, 4]) = (.ok y, after') ∧
      y.attack.outcome.criticalSuccess = true ∧ y.attack.outcome.success ≠ some false ∧
      ∃ a b hit, x.parts = [a, b] ∧ y.damage = some hit ∧
        a.Agrees ⟨y.attack.outcome, y.attack.extras⟩ ∧ b.Agrees ⟨hit.outcome, hit.extras⟩ := by
  have hb : Rulebook.IsStandard (Session.engine {}).rulebook := ⟨_, _, _, _, rfl⟩
  obtain ⟨t, ht, -⟩ := exists_eq_ok_of_any (p := fun _ => true)
    (show (Term.parse {} "1d20").toOption.any _ = true by decide +kernel)
  obtain ⟨t', ht', -⟩ := exists_eq_ok_of_any (p := fun _ => true)
    (show (Term.parse {} "1d8").toOption.any _ = true by decide +kernel)
  obtain ⟨x, hx, -⟩ := exists_eq_ok_of_any (p := fun _ => true)
    (show (attackWithDamage {} "Sword" "1d20" "1d8" {} (Table.opening [20, 3, 4])).1.toOption.any _ =
      true by decide +kernel)
  obtain ⟨y, hy, hhit⟩ := exists_eq_ok_of_any
    (p := fun y => y.attack.outcome.criticalSuccess && y.attack.outcome.success != some false)
    (show (attackThenDamage {} "Sword" "1d20" "1d8" {} none
      (Table.opening [20, 3, 4])).1.toOption.any _ = true by decide +kernel)
  obtain ⟨hcritical, hhit⟩ := Bool.and_eq_true_iff.mp hhit
  have hhit : y.attack.outcome.success ≠ some false := by simpa using hhit
  exact ⟨hb, x, y, _, _, Prod.ext hx rfl, Prod.ext hy rfl, hcritical, hhit,
    attackWithDamage_agrees_attackThenDamage hb ht ht' rfl (Prod.ext hx rfl) (Prod.ext hy rfl) hhit⟩

end Session

end DiceTower

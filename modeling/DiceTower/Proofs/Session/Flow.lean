import DiceTower.Proofs.Engine.Parts
import DiceTower.Proofs.Engine.Unfailing
import DiceTower.Proofs.Notation.Joined
import DiceTower.Proofs.Session.Exchange

/-! What the rolls of a session ask of the engine, and from where the source stands for each of them. -/

namespace DiceTower

open DiceTower.Computation Drawing

theorem Formula.segments_of_attackAndDamage {limits : Limits} {attack damage : String} {t t' : Term}
    (ht : Term.parse limits attack = .ok t) (ht' : Term.parse limits damage = .ok t') :
    ∃ f, Formula.parse limits (attackAndDamage attack damage) = .ok f ∧
      f.segments = [⟨some "attack", t⟩, ⟨some "damage", t'⟩] := by
  have htext : (attackAndDamage attack damage).toList =
      ("attack".toList ++ ':' :: attack.toList) ++
        ',' :: ("damage".toList ++ ':' :: damage.toList) := by
    simp [attackAndDamage]
  have hcomma {label : List Char} {text : String} {t : Term} (hl : ',' ∉ label)
      (ht : Term.parse limits text = .ok t) : ',' ∉ label ++ ':' :: text.toList := by
    simp only [List.mem_append, List.mem_cons, not_or]
    exact ⟨hl, by decide, fun hc => Term.not_parts_of_parse ht hc (.inl rfl)⟩
  refine ⟨⟨_, [⟨some "attack", t⟩, ⟨some "damage", t'⟩]⟩,
    Formula.parse_eq_ok_iff.mpr ⟨rfl, ?_⟩, rfl⟩
  rw [htext, splitCommas_append (hcomma (by decide) ht),
    splitCommas_eq_singleton (hcomma (by decide) ht')]
  refine .cons ?_ (.cons ?_ .nil)
  · exact Segment.parse_labelled (isLabel_of_all (by decide) (by decide)) _ ht
  · exact Segment.parse_labelled (isLabel_of_all (by decide) (by decide)) _ ht'

namespace Session

variable {σ : Type} [Source σ] {s : Session} {weapon attack damage : String} {c : Context}
  {table table' : Table σ}

def pairRequest (weapon attack damage : String) (c : Context) : Request where
  kind := .attack
  context := c.withWeapon weapon
  wording := some (.text (attackAndDamage attack damage))
  name := some (weapon ++ " Attack & Damage")
  withCharacter := false

theorem execute_of_attackRoll {x : RollResult}
    (h : s.attackRoll weapon attack c table = (.ok x, table')) :
    ∃ id, s.engine.execute ((attackRequest weapon attack c).definition (.text attack) id)
      table.named = (.ok x, table') := by
  obtain ⟨id, he⟩ := s.exists_attackRoll_eq weapon attack c table
  exact ⟨id, he.symm.trans h⟩

theorem execute_of_damageRoll {text : String} {o : Outcome} {x : RollResult}
    (h : s.damageRoll weapon c text o table = (.ok x, table')) :
    ∃ id, s.engine.execute
      ((damageRequest weapon text c o.criticalSuccess).definition (.text text) id) table.named =
        (.ok x, table') := by
  obtain ⟨id, he⟩ := s.exists_damageRoll_eq weapon c text o table
  exact ⟨id, he.symm.trans h⟩

theorem execute_of_direct {d : Definition} {x : RollResult}
    (h : s.direct d table = (.ok x, table')) : ∃ table₁ table₂,
      table₁.tray.source = table.tray.source ∧ s.engine.execute d table₁ = (.ok x, table₂) := by
  obtain ⟨preview, table₁, hpreview, h⟩ := bind_apply_eq_ok_iff.mp h
  obtain ⟨_, table₂, hset, h⟩ := bind_apply_eq_ok_iff.mp h
  obtain ⟨result, table₃, hresult, h⟩ := bind_apply_eq_ok_iff.mp h
  obtain ⟨_, table₄, hunset, h⟩ := bind_apply_eq_ok_iff.mp h
  cases h
  refine ⟨table₂, table₃, ?_, hresult⟩
  obtain ⟨_, rfl⟩ := Prod.mk.inj hpreview
  obtain ⟨_, rfl⟩ := Prod.mk.inj hset
  rfl

theorem execute_of_attackWithDamage {x : RollResult}
    (h : s.attackWithDamage weapon attack damage c table = (.ok x, table')) : ∃ id table₁ table₂,
      table₁.tray.source = table.tray.source ∧ s.engine.execute
        ((pairRequest weapon attack damage c).definition (.text (attackAndDamage attack damage)) id)
        table₁ = (.ok x, table₂) := by
  obtain ⟨id, hd⟩ := Request.exists_define (r := pairRequest weapon attack damage c) rfl table
  have h : (do let d ← (pairRequest weapon attack damage c).define.inPlay; s.direct d :
      Play σ RollResult) table = (.ok x, table') := h
  rw [bind_apply, hd] at h
  obtain ⟨table₁, table₂, hsource, hx⟩ := execute_of_direct h
  exact ⟨id, table₁, table₂, hsource, hx⟩

theorem attackRoll_of_attackThenDamage {gate : Option Bool} {x : Exchange}
    (h : s.attackThenDamage weapon attack damage c gate table = (.ok x, table')) :
    ∃ f table₁, Formula.parse s.engine.limits damage = .ok f ∧
      s.attackRoll weapon attack c table = (.ok x.attack, table₁) ∧
      (s.spares gate x.attack = false → ∃ hit, x.damage = some hit ∧
        s.damageAfter weapon damage (c.withWeapon weapon) x.attack.outcome table₁ =
          (.ok hit, table')) := by
  cases hf : Formula.parse s.engine.limits damage with
  | error fault =>
    rw [attackThenDamage_of_refused s weapon attack damage c hf] at h
    cases h
  | ok f =>
    rw [attackThenDamage_eq s weapon attack damage c hf] at h
    obtain ⟨r, table₁, hr, h⟩ := bind_apply_eq_ok_iff.mp h
    unfold afterAttack at h
    split at h
    · next hs =>
      obtain ⟨_, table₂, _, h⟩ := bind_apply_eq_ok_iff.mp h
      cases h
      exact ⟨f, table₁, rfl, hr, fun hn => absurd hs (by simp [hn])⟩
    · obtain ⟨hit, table₂, hhit, h⟩ := bind_apply_eq_ok_iff.mp h
      cases h
      exact ⟨f, table₁, rfl, hr, fun _ => ⟨hit, rfl, hhit⟩⟩

section Made

variable (hx : ∀ t ∈ s.engine.extraDice, t.Rollable) (ht : (s.engine.patience == 0.0) = true)
  (hb : s.engine.rulebook.Harmless) (hc : c.Unscaled) (hs : Source.Fair σ)

include hx ht hb hc hs

theorem exists_damageRoll_of_fair {text : String} {f : Formula}
    (hf : Formula.parse s.engine.limits text = .ok f) (o : Outcome) (table : Table σ) :
    ∃ x table', s.damageRoll weapon c text o table = (.ok x, table') := by
  obtain ⟨id, he⟩ := s.exists_damageRoll_eq weapon c text o table
  have hread : s.engine.formulaOf
      ((damageRequest weapon text c o.criticalSuccess).definition (.text text) id) = .ok f := hf
  rw [he]
  exact Engine.exists_execute_of_fair hx ht hb hc (List.forall_mem_nil _) hread hf hs _

theorem exists_damageAfter_of_fair {f g : Formula} (hf : Formula.parse s.engine.limits damage = .ok f)
    (hg : Formula.parse s.engine.limits (f.critical s.engine.rules).written = .ok g) (o : Outcome)
    (table : Table σ) : ∃ x table', s.damageAfter weapon damage c o table = (.ok x, table') := by
  by_cases hcritical : o.criticalSuccess = true
  · rw [damageAfter_of_criticalSuccess s weapon damage c hf hcritical, note_bind_apply]
    exact exists_damageRoll_of_fair hx ht hb hc hs hg o _
  · rw [damageAfter_of_not_criticalSuccess s weapon damage c hcritical]
    exact exists_damageRoll_of_fair hx ht hb hc hs hf o table

/-- Where attack and damage are read, the damage also as a critical hit changes it, nothing is in the
way of an exchange with a fair source. -/
theorem exists_attackThenDamage_of_fair (hw : c.withWeapon weapon = c) {f g h : Formula}
    (hf : Formula.parse s.engine.limits attack = .ok f)
    (hg : Formula.parse s.engine.limits damage = .ok g)
    (hh : Formula.parse s.engine.limits (g.critical s.engine.rules).written = .ok h)
    (gate : Option Bool) (table : Table σ) :
    ∃ x table', s.attackThenDamage weapon attack damage c gate table = (.ok x, table') := by
  obtain ⟨id, he⟩ := s.exists_attackRoll_eq weapon attack c table
  have hread : s.engine.formulaOf ((attackRequest weapon attack c).definition (.text attack) id) =
      .ok f := hf
  have hunscaled : (c.withWeapon weapon).Unscaled := by rwa [hw]
  obtain ⟨r, table₁, hr⟩ := Engine.exists_execute_of_fair hx ht hb hunscaled
    (List.forall_mem_nil _) hread hf hs table.named
  rw [attackThenDamage_eq s weapon attack damage c hg, bind_apply, he, hr]
  show ∃ x table', s.afterAttack weapon damage c gate r table₁ = (.ok x, table')
  unfold afterAttack
  split
  · exact ⟨_, _, rfl⟩
  · obtain ⟨hit, table₂, hhit⟩ :=
      exists_damageAfter_of_fair hx ht hb hc hs hg hh r.outcome table₁
    rw [hw, bind_apply, hhit]
    exact ⟨_, _, rfl⟩

end Made

end Session

end DiceTower

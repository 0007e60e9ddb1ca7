import DiceTower.Proofs.Dice.Pairs
import DiceTower.Proofs.Notation.Bonus
import DiceTower.Proofs.Notation.Legible
import DiceTower.Proofs.Session.Flow

/-! The notation of a weapon is read as the dice of the attack and of the damage with the bonuses
added, unless a bonus comes behind damage that is a number. -/

namespace DiceTower

/-- The notation is read as an attack with one pool and damage with another, each for itself and both
as one formula. -/
def WeaponNotation.Means (limits : Limits) (n : WeaponNotation) (attack damage : Pool) : Prop :=
  ∃ t t' f, Term.parse limits n.attack = .ok t ∧ t.pool = attack ∧
    Term.parse limits n.damage = .ok t' ∧ t'.pool = damage ∧
    Formula.parse limits (attackAndDamage n.attack n.damage) = .ok f ∧
    f.segments = [⟨some "attack", t⟩, ⟨some "damage", t'⟩]

namespace Weapon

def attackPool (e : Environment) (n : Int) : Pool :=
  if (e.advantage || e.hidden) = e.disadvantage then ⟨1, 20, n, []⟩
  else ⟨2, 20, n, [.keepOne (e.advantage || e.hidden)]⟩

/-- The notation of dice with a number added is that of the dice and then that of the number. -/
theorem text_withModifier {p : Pool} (hp : p.isFlat = false) (h : p.modifier = 0) (n : Int) :
    Pool.text { p with modifier := n } = p.text ++ bonus n := by
  have hn : Pool.isFlat { p with modifier := n } = false := hp
  have hzero : Number.asBonus 0 = [] := rfl
  refine String.toList_injective ?_
  simp only [Pool.text, Pool.written, hp, hn, h, hzero, bonus, String.toList_append,
    String.toList_ofList, Bool.false_eq_true, if_false, List.append_nil]

theorem attack_written (w : Weapon) (e : Environment) :
    (w.written e).attack = (attackPool e (w.attackBonus + w.magicBonus)).text := by
  have hone (n : Int) : Pool.text ⟨1, 20, n, []⟩ = "1d20" ++ bonus n := by
    have hplain : Pool.text ⟨1, 20, 0, []⟩ = "1d20" := by decide +kernel
    rw [← hplain, ← text_withModifier rfl rfl]
  have htwo (better : Bool) (n : Int) : Pool.text ⟨2, 20, n, [.keepOne better]⟩ =
      (if better then "2d20kh1" else "2d20kl1") ++ bonus n := by
    have hplain : Pool.text ⟨2, 20, 0, [.keepOne better]⟩ =
        if better then "2d20kh1" else "2d20kl1" := by
      cases better <;> decide +kernel
    rw [← hplain, ← text_withModifier rfl rfl]
  simp only [written, attackDice, attackPool]
  cases e.advantage || e.hidden <;> cases e.disadvantage <;> simp [hone, htwo]

theorem legible_attackPool (e : Environment) (n : Int) : (attackPool e n).Legible := by
  have hone : Pool.Legible ⟨1, 20, n, []⟩ :=
    ⟨⟨(by decide : (1 : Int) ≤ 1), (by decide : (1 : Int) ≤ 20), nofun⟩, nofun, compatible_nil⟩
  unfold attackPool
  split
  · exact hone
  · exact hone.doubledFor _

section Reading

variable {limits : Limits} {n : Int}

theorem operations_attackPool (e : Environment) (n : Int) :
    ∀ op ∈ (attackPool e n).operations, ∃ better, op = .keepOne better := by
  intro op hop
  unfold attackPool at hop
  split at hop
  · cases hop
  · exact ⟨_, List.mem_singleton.mp hop⟩

theorem count_attackPool_le (e : Environment) (n : Int) : (attackPool e n).count ≤ 2 := by
  unfold attackPool
  split
  · exact (by decide : (1 : Int) ≤ 2)
  · exact Int.le_refl 2

theorem sides_attackPool (e : Environment) (n : Int) : (attackPool e n).sides = 20 := by
  unfold attackPool
  split <;> rfl

theorem modifier_attackPool (e : Environment) (n : Int) : (attackPool e n).modifier = n := by
  unfold attackPool
  split <;> rfl

theorem allowed_attackPool_iff (e : Environment) (hm : (n.natAbs : Int) ≤ limits.modifier) :
    (attackPool e n).Allowed limits ↔ (attackPool e n).count ≤ limits.dice ∧ 20 ≤ limits.sides := by
  have hlegible := legible_attackPool e n
  have hsides := sides_attackPool e n
  refine ⟨fun h => ⟨h.count.2, hsides ▸ h.sides.2⟩, fun ⟨hcount, hroom⟩ => ?_⟩
  refine ⟨⟨hlegible.count, hcount⟩, ⟨hlegible.sides, by rwa [hsides]⟩,
    by rwa [modifier_attackPool], fun op hop => ?_, hlegible.compatible⟩
  obtain ⟨better, rfl⟩ := operations_attackPool e n op hop
  refine ⟨⟨1, rfl, le_refl _, ?_⟩, nofun⟩
  rw [hsides]
  cases better <;> decide

theorem exists_parse_attack_iff (e : Environment) (hn : n.natAbs ≤ 999999999)
    (hm : (n.natAbs : Int) ≤ limits.modifier) :
    (∃ t, Term.parse limits (attackPool e n).text = .ok t ∧ t.pool = attackPool e n) ↔
      (attackPool e n).count ≤ limits.dice ∧ 20 ≤ limits.sides := by
  have hsides := sides_attackPool e n
  have hdice : ¬ (attackPool e n).isFlat = true := fun hflat => by
    rw [Pool.isFlat_iff.mp hflat] at hsides
    cases hsides
  rw [← allowed_attackPool_iff e hm]
  constructor
  · rintro ⟨t, ht, hpool⟩
    have hd := (Term.parse_eq_ok_iff.mp ht).2
    rw [hpool] at hd
    exact hd.isFlat_or_allowed.resolve_left fun h => hdice h.1
  · intro hallowed
    have hdenotes := hallowed.denotes_written_of_not_isFlat hdice
      ((count_attackPool_le e n).trans (by decide)) (by rw [hsides]; decide)
      (by rwa [modifier_attackPool])
    exact ⟨_, hdenotes.parse_text, rfl⟩

end Reading

section Meaning

variable {limits : Limits} {w : Weapon} {t : Term}

/-- The notation of a weapon means its dice with the bonuses added, exactly where the limits have room
for the dice of the attack and no bonus comes behind damage that is a number. -/
theorem written_means_iff (e : Environment) (ht : Term.parse limits w.damageDice = .ok t)
    (ha : (w.attackBonus + w.magicBonus).natAbs ≤ 999999999)
    (ha' : ((w.attackBonus + w.magicBonus).natAbs : Int) ≤ limits.modifier)
    (hb : (w.damageBonus + w.magicBonus).natAbs ≤ 999999999)
    (hb' : ((t.pool.modifier + (w.damageBonus + w.magicBonus)).natAbs : Int) ≤ limits.modifier) :
    (w.written e).Means limits (attackPool e (w.attackBonus + w.magicBonus))
        { t.pool with modifier := t.pool.modifier + (w.damageBonus + w.magicBonus) } ↔
      ((attackPool e (w.attackBonus + w.magicBonus)).count ≤ limits.dice ∧ 20 ≤ limits.sides) ∧
        (w.damageBonus + w.magicBonus = 0 ∨ ¬ ReadsNumber w.damageDice) := by
  rw [← exists_parse_attack_iff e ha ha', ← readsNumber_withoutSpaces, ← attack_written,
    ← Term.exists_parse_append_asBonus_iff (Term.parse_withoutSpaces ht) hb hb']
  constructor
  · rintro ⟨t₁, t₂, _, hattack, hpool, hdamage, hpool', _, _⟩
    exact ⟨⟨t₁, hattack, hpool⟩, t₂, hdamage, hpool'⟩
  · rintro ⟨⟨t₁, hattack, hpool⟩, t₂, hdamage, hpool'⟩
    obtain ⟨f, hf, hsegments⟩ := Formula.segments_of_attackAndDamage hattack hdamage
    exact ⟨t₁, t₂, f, hattack, hpool, hdamage, hpool', hf, hsegments⟩

def flameTongue : Weapon where
  name := "Flame Tongue"
  damageDice := "2d6 r1 + 1"
  attackBonus := 5
  damageBonus := 3
  magicBonus := 1

theorem written_means_flameTongue :
    (∃ t, Term.parse {} flameTongue.damageDice = .ok t) ∧
      (flameTongue.written { hidden := true }).Means {} ⟨2, 20, 6, [.keepOne true]⟩
        ⟨2, 6, 5, [⟨.reroll, .one 1, false⟩]⟩ := by
  obtain ⟨t, ht, hpool⟩ := exists_eq_ok_of_any
    (p := fun t : Term => t.pool = ⟨2, 6, 1, [⟨.reroll, .one 1, false⟩]⟩)
    (show (Term.parse {} flameTongue.damageDice).toOption.any _ = true by decide +kernel)
  have hpool : t.pool = ⟨2, 6, 1, [⟨.reroll, .one 1, false⟩]⟩ := by simpa using hpool
  have hmeans := (written_means_iff { hidden := true } ht (by decide) (by decide) (by decide)
    (by rw [hpool]; decide)).mpr ⟨by decide, .inr (by decide +kernel)⟩
  rw [hpool] at hmeans
  exact ⟨⟨t, ht⟩, hmeans⟩

def blowgun : Weapon where
  name := "Blowgun"
  damageDice := "1"
  damageBonus := 3

/-- Its damage is read, and refused with the bonus. -/
theorem not_written_means_blowgun :
    (∃ t, Term.parse {} blowgun.damageDice = .ok t ∧ t.pool = ⟨1, 1, 0, []⟩) ∧
      (blowgun.written {}).damage = "1+3" ∧
      ∀ attack damage, ¬ (blowgun.written {}).Means {} attack damage := by
  obtain ⟨t, ht, hpool⟩ := exists_eq_ok_of_any (p := fun t : Term => t.pool = ⟨1, 1, 0, []⟩)
    (show (Term.parse {} blowgun.damageDice).toOption.any _ = true by decide +kernel)
  refine ⟨⟨t, ht, by simpa using hpool⟩, by decide +kernel, fun attack damage hmeans => ?_⟩
  obtain ⟨_, t, _, _, _, ht, _⟩ := hmeans
  have hrefused : (Term.parse {} (blowgun.written {}).damage).isOk = false := by decide +kernel
  rw [ht] at hrefused
  cases hrefused

end Meaning

end Weapon

end DiceTower

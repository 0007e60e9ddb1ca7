import DiceTower.Proofs.Engine.Execution
import DiceTower.Proofs.Notation.RoundTrip
import DiceTower.Session.Basic

/-! An attack and then its damage. Notation that is refused may leave a lone attack behind: damage
is read before the attack is rolled, but a critical hit changes it and it is read once more. -/

namespace DiceTower

open DiceTower.Computation Drawing

def Refused (limits : Limits) (text : String) : Prop :=
  ∃ cited flaw, Formula.parse limits text = .error (.badDice cited flaw)

def RefusesNotation {S α : Type} (x : Computation S α) (s : S) : Prop :=
  ∃ cited flaw, (x s).1 = .error (.badDice cited flaw)

theorem Formula.exists_head_of_parse {limits : Limits} {text : String} {f : Formula}
    (h : Formula.parse limits text = .ok f) : ∃ s ∈ f.segments.head?, 1 ≤ s.term.pool.count := by
  obtain ⟨hn, hr⟩ := readable_of_parse h
  obtain ⟨s, rest, he⟩ := List.exists_cons_of_ne_nil hn
  obtain ⟨cs, hd⟩ := (hr s (by simp [he])).pool
  refine ⟨s, by simp [he], ?_⟩
  generalize s.term.pool = p at hd
  cases hd with
  | number => exact Int.le_refl 1
  | dice _ _ _ h1 => exact h1

theorem refusesNotation_iff_of_eq {S S' α : Type} {x : Computation S α} {y : Computation S' α}
    {s : S} {s' : S'} (h : (x s).1 = (y s').1) : RefusesNotation x s ↔ RefusesNotation y s' := by
  unfold RefusesNotation
  rw [h]

/-- A roll is refused exactly when its notation is. -/
theorem Engine.refusesNotation_execute_iff {σ : Type} [Source σ] {e : Engine} {d : Definition}
    {text : String} (hd : e.formulaOf d = Formula.parse e.limits text) (table : Table σ) :
    RefusesNotation (e.execute d) table ↔ Refused e.limits text := by
  cases hf : Formula.parse e.limits text with
  | ok f =>
    have hs := (steady_execute (σ := σ) (hd.trans hf)).fault table
    constructor
    · exact fun ⟨cited, flaw, h⟩ => absurd h (hs cited flaw)
    · rintro ⟨cited, flaw, h⟩
      rw [hf] at h
      cases h
  | error fault =>
    obtain ⟨table', hx, _⟩ := execute_of_refused (hd.trans hf) table
    unfold RefusesNotation Refused
    rw [hx, hf]
    exact exists_congr fun _ => exists_congr fun _ => by simp

theorem Engine.unrolled_of_refusesNotation {σ : Type} [Source σ] {e : Engine} {d : Definition}
    {table : Table σ} (h : RefusesNotation (e.execute d) table) :
    table.Unrolled (e.execute d table).2 := by
  cases hf : e.formulaOf d with
  | ok f =>
    obtain ⟨cited, flaw, h⟩ := h
    exact absurd h ((steady_execute hf).fault table cited flaw)
  | error fault =>
    obtain ⟨table', hx, hu⟩ := execute_of_refused hf table
    rwa [hx]

theorem note_bind_apply {σ α : Type} (r : Record) (x : Play σ α) (table : Table σ) :
    ((note r).inPlay >>= fun _ => x) table =
      x { table with tray := { table.tray with records := r :: table.tray.records } } := rfl

def Table.named {σ : Type} (table : Table σ) : Table σ :=
  { table with tray := { table.tray with serial := table.tray.serial + 1 } }

def Request.definition (r : Request) (w : Wording) (id : String) : Definition where
  id
  kind := r.kind
  name := (r.name.filter (· ≠ "")).getD (r.kind.usualName r.context.source.name)
  wording := w
  context := r.context
  modifiers := r.modifiers
  withCharacter := r.withCharacter
  criticalHit := r.criticalHit

theorem Request.exists_define {σ : Type} {r : Request} {w : Wording} (h : r.wording = some w)
    (table : Table σ) :
    ∃ id, (r.define).inPlay table = (.ok (r.definition w id), table.named) := by
  unfold define
  rw [h]
  exact ⟨_, rfl⟩

namespace Session

def attackRequest (weapon attack : String) (c : Context) : Request where
  kind := .attack
  context := c.withWeapon weapon
  wording := some (.text attack)
  name := some (weapon ++ " Attack")
  withCharacter := false

def damageRequest (weapon text : String) (c : Context) (critical : Bool) : Request where
  kind := .damage
  context := c
  wording := some (.text text)
  name := some (weapon ++ " Damage")
  withCharacter := false
  criticalHit := critical

variable {σ : Type} [Source σ] (s : Session) (weapon attack damage : String) (c : Context)

def attackRoll : Play σ RollResult := do
  let d ← (Request.define {
    kind := .attack
    context := c.withWeapon weapon
    wording := some (.text attack)
    name := some (weapon ++ " Attack")
    withCharacter := false }).inPlay
  s.engine.execute d

/-- Whether the damage of an exchange is spared. -/
def spares (gate : Option Bool) (r : RollResult) : Bool :=
  gate.getD s.gate && r.outcome.success == some false

def afterAttack (gate : Option Bool) (r : RollResult) : Play σ Exchange :=
  if s.spares gate r then do
    (note (missRecord weapon r.outcome)).inPlay
    pure { attack := r }
  else do
    let hit ← s.damageAfter weapon damage (c.withWeapon weapon) r.outcome
    pure { attack := r, damage := some hit }

theorem attackThenDamage_of_refused {fault : Fault}
    (h : Formula.parse s.engine.limits damage = .error fault) (gate : Option Bool)
    (table : Table σ) :
    s.attackThenDamage weapon attack damage c gate table = (.error fault, table) := by
  unfold attackThenDamage
  rw [h]
  rfl

theorem attackThenDamage_eq {f : Formula} (h : Formula.parse s.engine.limits damage = .ok f)
    (gate : Option Bool) : (s.attackThenDamage weapon attack damage c gate : Play σ Exchange) =
      s.attackRoll weapon attack c >>= s.afterAttack weapon damage c gate := by
  unfold attackThenDamage attackRoll afterAttack
  rw [h, bind_assoc]
  rfl

theorem exists_attackRoll_eq (table : Table σ) : ∃ id, s.attackRoll weapon attack c table =
    s.engine.execute ((attackRequest weapon attack c).definition (.text attack) id) table.named := by
  obtain ⟨id, hd⟩ := Request.exists_define (r := attackRequest weapon attack c) rfl table
  refine ⟨id, ?_⟩
  show ((attackRequest weapon attack c).define.inPlay >>= s.engine.execute) table = _
  rw [bind_apply, hd]

theorem unrolled_of_attackRoll {table : Table σ}
    (h : RefusesNotation (s.attackRoll weapon attack c) table) :
    table.Unrolled (s.attackRoll weapon attack c table).2 := by
  obtain ⟨id, he⟩ := s.exists_attackRoll_eq weapon attack c table
  rw [refusesNotation_iff_of_eq (congrArg Prod.fst he)] at h
  obtain ⟨hh, hs, hd⟩ := Engine.unrolled_of_refusesNotation h
  rw [he]
  exact ⟨hh, hs, hd⟩

theorem rolled_of_attackRoll {r : RollResult} {table table' : Table σ}
    (h : s.attackRoll weapon attack c table = (.ok r, table')) :
    table.tray.drawn.length < table'.tray.drawn.length ∧
      ∃ id, table'.history = table.history.append ⟨id, table.time, r⟩ := by
  obtain ⟨name, he⟩ := s.exists_attackRoll_eq weapon attack c table
  rw [he] at h
  obtain ⟨_, _, id, _, _, hid⟩ := Engine.roll_of_execute h
  refine ⟨?_, id, hid⟩
  have hd : s.engine.formulaOf ((attackRequest weapon attack c).definition (.text attack) name) =
      Formula.parse s.engine.limits attack := rfl
  cases hg : Formula.parse s.engine.limits attack with
  | error fault =>
    obtain ⟨_, h', _⟩ := Engine.execute_of_refused (hd.trans hg) table.named
    rw [h] at h'
    cases h'
  | ok g =>
    have hdrawn := Engine.drawn_of_execute (hd.trans hg) (Formula.exists_head_of_parse hg) h
    exact hdrawn

def damageRoll (text : String) (o : Outcome) : Play σ RollResult := do
  let d ← (Request.define {
    kind := .damage
    context := c
    wording := some (.text text)
    name := some (weapon ++ " Damage")
    withCharacter := false
    criticalHit := o.criticalSuccess }).inPlay
  s.engine.execute d

theorem exists_damageRoll_eq (text : String) (o : Outcome) (table : Table σ) :
    ∃ id, s.damageRoll weapon c text o table = s.engine.execute
      ((damageRequest weapon text c o.criticalSuccess).definition (.text text) id) table.named := by
  let request := damageRequest weapon text c o.criticalSuccess
  obtain ⟨id, hd⟩ := Request.exists_define (r := request) rfl table
  refine ⟨id, ?_⟩
  show (request.define.inPlay >>= s.engine.execute) table = _
  rw [bind_apply, hd]

theorem refusesNotation_damageRoll_iff (text : String) (o : Outcome) (table : Table σ) :
    RefusesNotation (s.damageRoll weapon c text o) table ↔ Refused s.engine.limits text := by
  obtain ⟨id, he⟩ := s.exists_damageRoll_eq weapon c text o table
  rw [refusesNotation_iff_of_eq (congrArg Prod.fst he)]
  exact Engine.refusesNotation_execute_iff rfl _

theorem unrolled_of_damageRoll {text : String} {o : Outcome} {table : Table σ}
    (h : RefusesNotation (s.damageRoll weapon c text o) table) :
    table.Unrolled (s.damageRoll weapon c text o table).2 := by
  obtain ⟨id, he⟩ := s.exists_damageRoll_eq weapon c text o table
  rw [refusesNotation_iff_of_eq (congrArg Prod.fst he)] at h
  obtain ⟨hh, hs, hd⟩ := Engine.unrolled_of_refusesNotation h
  rw [he]
  exact ⟨hh, hs, hd⟩

theorem damageAfter_of_criticalSuccess {f : Formula}
    (h : Formula.parse s.engine.limits damage = .ok f) {o : Outcome}
    (hc : o.criticalSuccess = true) :
    (s.damageAfter weapon damage c o : Play σ RollResult) =
      (note (criticalRecord weapon damage (f.critical s.engine.rules).written)).inPlay >>= fun _ =>
        s.damageRoll weapon c (f.critical s.engine.rules).written o := by
  have hchanged : s.engine.criticalDamage damage = .ok (f.critical s.engine.rules).written := by
    rw [Engine.criticalDamage, criticalText, h]
    rfl
  unfold damageAfter damageRoll
  simp only [if_pos hc, hchanged, lift_ok_bind, pure_bind]

theorem damageAfter_of_not_criticalSuccess {o : Outcome} (hc : ¬ o.criticalSuccess = true) :
    (s.damageAfter weapon damage c o : Play σ RollResult) = s.damageRoll weapon c damage o := by
  unfold damageAfter damageRoll
  simp only [if_neg hc, pure_bind]

/-- Damage after an attack is refused only where a critical hit has changed it. -/
theorem refusesNotation_damageAfter_iff {f : Formula}
    (h : Formula.parse s.engine.limits damage = .ok f) (o : Outcome) (table : Table σ) :
    RefusesNotation (s.damageAfter weapon damage c o) table ↔
      o.criticalSuccess = true ∧ Refused s.engine.limits (f.critical s.engine.rules).written := by
  by_cases hc : o.criticalSuccess = true
  · rw [damageAfter_of_criticalSuccess s weapon damage c h hc,
      refusesNotation_iff_of_eq (congrArg Prod.fst (note_bind_apply ..)),
      refusesNotation_damageRoll_iff]
    exact ⟨fun hr => ⟨hc, hr⟩, fun hr => hr.2⟩
  · rw [damageAfter_of_not_criticalSuccess s weapon damage c hc, refusesNotation_damageRoll_iff]
    constructor
    · rintro ⟨cited, flaw, hr⟩
      rw [h] at hr
      cases hr
    · exact fun hr => absurd hr.1 hc

theorem unrolled_of_damageAfter {f : Formula} (h : Formula.parse s.engine.limits damage = .ok f)
    {o : Outcome} {table : Table σ} (hr : RefusesNotation (s.damageAfter weapon damage c o) table) :
    table.Unrolled (s.damageAfter weapon damage c o table).2 := by
  have hc := ((refusesNotation_damageAfter_iff s weapon damage c h o table).mp hr).1
  rw [damageAfter_of_criticalSuccess s weapon damage c h hc] at hr ⊢
  rw [refusesNotation_iff_of_eq (congrArg Prod.fst (note_bind_apply ..))] at hr
  obtain ⟨hh, hs, hd⟩ := unrolled_of_damageRoll s weapon c hr
  rw [note_bind_apply]
  exact ⟨hh, hs, hd⟩

theorem afterAttack_of_refusesNotation {gate : Option Bool} {r : RollResult} {table : Table σ}
    (hs : s.spares gate r = false)
    (h : RefusesNotation (s.damageAfter weapon damage (c.withWeapon weapon) r.outcome) table) :
    RefusesNotation (s.afterAttack weapon damage c gate r) table ∧
      (s.afterAttack weapon damage c gate r table).2 =
        (s.damageAfter weapon damage (c.withWeapon weapon) r.outcome table).2 := by
  obtain ⟨cited, flaw, h⟩ := h
  unfold afterAttack RefusesNotation
  rw [if_neg (by simp [hs]), bind_apply]
  rcases hx : s.damageAfter weapon damage (c.withWeapon weapon) r.outcome table with ⟨fault | hit, t⟩
  · rw [hx] at h
    exact ⟨⟨cited, flaw, congrArg _ (Except.error.inj h)⟩, rfl⟩
  · rw [hx] at h
    cases h

theorem refusesNotation_of_afterAttack {gate : Option Bool} {r : RollResult} {table : Table σ}
    (h : RefusesNotation (s.afterAttack weapon damage c gate r) table) : s.spares gate r = false ∧
      RefusesNotation (s.damageAfter weapon damage (c.withWeapon weapon) r.outcome) table := by
  obtain ⟨cited, flaw, h⟩ := h
  unfold afterAttack at h
  by_cases hs : s.spares gate r = true
  · rw [if_pos hs] at h
    cases h
  · rw [if_neg hs, bind_apply] at h
    refine ⟨by simpa using hs, cited, flaw, ?_⟩
    rcases hx : s.damageAfter weapon damage (c.withWeapon weapon) r.outcome table with ⟨fault | hit, t⟩
    · rw [hx] at h
      exact congrArg _ (Except.error.inj h)
    · rw [hx] at h
      cases h

theorem attackThenDamage_of_attackRoll {f : Formula}
    (hf : Formula.parse s.engine.limits damage = .ok f) {gate : Option Bool} {r : RollResult}
    {table table' : Table σ} (hx : s.attackRoll weapon attack c table = (.ok r, table'))
    (hs : s.spares gate r = false)
    (hr : RefusesNotation (s.damageAfter weapon damage (c.withWeapon weapon) r.outcome) table') :
    RefusesNotation (s.attackThenDamage weapon attack damage c gate) table ∧
      table'.Unrolled (s.attackThenDamage weapon attack damage c gate table).2 := by
  have hrun : s.attackThenDamage weapon attack damage c gate table =
      s.afterAttack weapon damage c gate r table' := by
    rw [attackThenDamage_eq s weapon attack damage c hf, bind_apply, hx]
  obtain ⟨hrefused, hafter⟩ := afterAttack_of_refusesNotation s weapon damage c hs hr
  rw [refusesNotation_iff_of_eq (congrArg Prod.fst hrun), hrun, hafter]
  exact ⟨hrefused, unrolled_of_damageAfter s weapon damage _ hf hr⟩

theorem exists_attackRoll_of_refusesNotation {gate : Option Bool} {table : Table σ}
    (hr : RefusesNotation (s.attackThenDamage weapon attack damage c gate) table)
    (hu : ¬ table.Unrolled (s.attackThenDamage weapon attack damage c gate table).2) :
    ∃ f r table', Formula.parse s.engine.limits damage = .ok f ∧
      s.attackRoll weapon attack c table = (.ok r, table') ∧ s.spares gate r = false ∧
      RefusesNotation (s.damageAfter weapon damage (c.withWeapon weapon) r.outcome) table' := by
  obtain ⟨cited, flaw, hfault⟩ := hr
  cases hf : Formula.parse s.engine.limits damage with
  | error fault =>
    rw [attackThenDamage_of_refused s weapon attack damage c hf] at hu
    exact absurd ⟨rfl, rfl, rfl⟩ hu
  | ok f =>
    rw [attackThenDamage_eq s weapon attack damage c hf, bind_apply] at hfault hu
    have hattack := @unrolled_of_attackRoll _ _ s weapon attack c table
    rcases hx : s.attackRoll weapon attack c table with ⟨fault | r, table'⟩ <;>
      rw [hx] at hfault hu
    · rw [hx] at hattack
      refine absurd (hattack ⟨cited, flaw, ?_⟩) hu
      rw [hx]
      exact congrArg _ (Except.error.inj hfault)
    · obtain ⟨hs, hr⟩ := refusesNotation_of_afterAttack s weapon damage c ⟨cited, flaw, hfault⟩
      exact ⟨f, r, table', rfl, rfl, hs, hr⟩

/-- An exchange that is refused rolls nothing, but for the case that both of its texts are read, its
attack is a critical hit whose damage is rolled, and the damage as the hit changes it is refused.
Then the attack is left alone in the history. -/
theorem attackThenDamage_leaves_attack_iff (gate : Option Bool) (table : Table σ) :
    (RefusesNotation (s.attackThenDamage weapon attack damage c gate) table ∧
      ¬ table.Unrolled (s.attackThenDamage weapon attack damage c gate table).2) ↔
    ∃ f r table', Formula.parse s.engine.limits damage = .ok f ∧
      s.attackRoll weapon attack c table = (.ok r, table') ∧ s.spares gate r = false ∧
      r.outcome.criticalSuccess = true ∧
      Refused s.engine.limits (f.critical s.engine.rules).written ∧
      ∃ id, (s.attackThenDamage weapon attack damage c gate table).2.history =
        table.history.append ⟨id, table.time, r⟩ := by
  constructor
  · rintro ⟨hrefused, hrolled⟩
    obtain ⟨f, r, table', hf, hx, hs, hr⟩ :=
      exists_attackRoll_of_refusesNotation s weapon attack damage c hrefused hrolled
    obtain ⟨hc, hchanged⟩ := (refusesNotation_damageAfter_iff s weapon damage _ hf _ _).mp hr
    obtain ⟨_, hu⟩ := attackThenDamage_of_attackRoll s weapon attack damage c hf hx hs hr
    obtain ⟨_, id, hid⟩ := rolled_of_attackRoll s weapon attack c hx
    exact ⟨f, r, table', hf, hx, hs, hc, hchanged, id, hu.history.trans hid⟩
  · rintro ⟨f, r, table', hf, hx, hs, hc, hchanged, -⟩
    have hr := (refusesNotation_damageAfter_iff s weapon damage (c.withWeapon weapon) hf r.outcome
      table').mpr ⟨hc, hchanged⟩
    obtain ⟨hrefused, hu⟩ := attackThenDamage_of_attackRoll s weapon attack damage c hf hx hs hr
    refine ⟨hrefused, fun hunrolled => ?_⟩
    have hlt := (rolled_of_attackRoll s weapon attack c hx).1
    rw [← hu.drawn, hunrolled.drawn] at hlt
    exact absurd hlt (Nat.lt_irrefl _)

/-- A hundred dice are within the usual limits, and the two hundred of a critical hit are not: the
attack was rolled for nothing. -/
theorem attackThenDamage_doubles_past_limit :
    RefusesNotation (attackThenDamage {} "Sword" "1d20" "100d6" {} none) (Table.opening [20]) ∧
      ¬ (Table.opening [20]).Unrolled
        (attackThenDamage {} "Sword" "1d20" "100d6" {} none (Table.opening [20])).2 := by
  constructor
  · have h : (match (attackThenDamage {} "Sword" "1d20" "100d6" {} none (Table.opening [20])).1 with
        | .error fault => fault.code?
        | .ok _ => none) = some "DICE_PARSE_ERROR" := by decide +kernel
    split at h
    · next fault he =>
      obtain ⟨cited, flaw, rfl⟩ := Fault.code?_eq_badDice_iff.mp h
      exact ⟨cited, flaw, he⟩
    · cases h
  · intro h
    have hdrawn : (attackThenDamage {} "Sword" "1d20" "100d6" {} none
        (Table.opening [20])).2.tray.drawn = [20] := by decide +kernel
    rw [h.drawn] at hdrawn
    cases hdrawn

end Session

end DiceTower

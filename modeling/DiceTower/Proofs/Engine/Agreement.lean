import DiceTower.Proofs.Engine.Advantage
import DiceTower.Proofs.Engine.Parts

/-! Copies of segments in different rolls that are rolled alike: with the same modifiers and the same
dice from the same source they come to the same, whatever they are called. -/

namespace DiceTower

open DiceTower.Computation Drawing

/-- Outcomes that say the same of the dice, of the target and of the modifiers. They may differ in
names, notes and times. -/
structure Outcome.Agrees (o o' : Outcome) : Prop where
  total : o.total = o'.total
  items : o.items = o'.items
  criticalSuccess : o.criticalSuccess = o'.criticalSuccess
  criticalFailure : o.criticalFailure = o'.criticalFailure
  success : o.success = o'.success
  target : o.target = o'.target
  natural : o.natural = o'.natural
  expression : o.metadata.expression = o'.metadata.expression
  modifiersApplied : o.metadata.modifiersApplied = o'.metadata.modifiersApplied

structure Rolled.Agrees (r r' : Rolled) : Prop where
  outcome : r.outcome.Agrees r'.outcome
  extras : List.Forall₂ Outcome.Agrees r.extras r'.extras

namespace Outcome

variable {o o' p : Outcome}

theorem Agrees.symm (h : o.Agrees o') : o'.Agrees o :=
  ⟨h.total.symm, h.items.symm, h.criticalSuccess.symm, h.criticalFailure.symm, h.success.symm,
    h.target.symm, h.natural.symm, h.expression.symm, h.modifiersApplied.symm⟩

theorem Agrees.trans (h : o.Agrees o') (h' : o'.Agrees p) : o.Agrees p :=
  ⟨h.total.trans h'.total, h.items.trans h'.items, h.criticalSuccess.trans h'.criticalSuccess,
    h.criticalFailure.trans h'.criticalFailure, h.success.trans h'.success,
    h.target.trans h'.target, h.natural.trans h'.natural, h.expression.trans h'.expression,
    h.modifiersApplied.trans h'.modifiersApplied⟩

theorem Timed.agrees (h : o.Timed o') : o.Agrees o' := by
  obtain ⟨elapsed, rfl⟩ := h
  exact ⟨rfl, rfl, rfl, rfl, rfl, rfl, rfl, rfl, rfl⟩

end Outcome

theorem Rolled.Agrees.timed {r r' p p' : Rolled} (h : r.Agrees r') (hp : r.Timed p)
    (hp' : r'.Timed p') : p.Agrees p' := by
  refine ⟨hp.1.agrees.symm.trans (h.outcome.trans hp'.1.agrees), ?_⟩
  rw [← hp.2, ← hp'.2]
  exact h.extras

theorem Drawing.Comes.of_inStep {σ α β : Type} {x : Drawing σ α} {y : Drawing σ β}
    {P : α → β → Prop} {source source₁ source₂ : σ} {a : α} {b : β}
    (h : InStep False (Tray.Mirrors False) P x y) (hx : Comes x source a source₁)
    (hy : Comes y source b source₂) : P a b ∧ source₁ = source₂ := by
  obtain ⟨tray, tray₁, rfl, hx, rfl⟩ := hx
  obtain ⟨tray', tray₂, hs, hy, rfl⟩ := hy
  obtain ⟨hp, hr⟩ := h.of_ok (Tray.Mirrors.of_source id hs.symm) hx hy
  exact ⟨hp, hr.source⟩

namespace Engine

variable {σ : Type} [Source σ] {e : Engine} {d d' : Definition} {s s' : Segment} {kind : RollType}
  {carry carry' : Carry} {deadline deadline' : Option Float} {source source₁ source₂ : σ}

/-- A copy in one roll and one in another that have the same modifiers, the same dice and the same
target. -/
structure Alike (e : Engine) (kind : RollType) (d d' : Definition) (carry carry' : Carry)
    (t t' : Term) : Prop where
  context : d.context = d'.context
  active : (e.activeIn d kind carry).1 = (e.activeIn d' kind carry').1
  critical : carry.criticalDamage d kind = carry'.criticalDamage d' kind
  due : e.extraDue d kind carry = e.extraDue d' kind carry'
  remarks : (t.withAdvantage kind (e.activeIn d kind carry).1).remarks =
    (t'.withAdvantage kind (e.activeIn d kind carry).1).remarks
  pool : (e.rolledTerm kind carry (t.withAdvantage kind (e.activeIn d kind carry).1).term).pool =
    (e.rolledTerm kind carry' (t'.withAdvantage kind (e.activeIn d kind carry).1).term).pool

/-- Copies that are alike agree, if their active modifiers have no operations. -/
theorem Alike.agrees_of_strike {st st' : Strike}
    (ha : e.Alike kind d d' carry carry' s.term s'.term)
    (hplain : ∀ m ∈ (e.activeIn d kind carry).1, m.kind.operation? = none)
    (h : Comes (e.strike d deadline s kind carry) source st source₁)
    (h' : Comes (e.strike d' deadline' s' kind carry') source st' source₂) :
    st.outcome.Agrees st'.outcome ∧ source₁ = source₂ := by
  have hsettled : InStep False (Tray.Mirrors False)
      (fun plain plain' =>
        plain = (s.term.withAdvantage kind (e.activeIn d kind carry).1).term ∧
        plain' = (s'.term.withAdvantage kind (e.activeIn d kind carry).1).term)
      (((s.term.withAdvantage kind (e.activeIn d kind carry).1).term.withOperations
        (e.activeIn d kind carry).1).inDrawing : Drawing σ Term)
      ((s'.term.withAdvantage kind (e.activeIn d kind carry).1).term.withOperations
        (e.activeIn d kind carry).1).inDrawing := by
    rw [Term.withOperations_eq_pure hplain, Term.withOperations_eq_pure hplain]
    exact Noted.inStep_inDrawing (fun _ => rfl) (fun _ => rfl) (.of_pure ⟨rfl, rfl⟩)
  obtain ⟨⟨_, _, t, _, ⟨rfl, rfl⟩, ⟨id, rfl, _⟩, rfl, rfl⟩, hsource⟩ :=
    Comes.of_inStep (inStep_strike d d' nofun ha.active ha.critical ha.due
      (by rw [← ha.active]; exact ha.remarks) (by rw [← ha.active]; exact hsettled)
      (by rintro _ _ ⟨rfl, rfl⟩; exact ha.pool)) h h'
  refine ⟨⟨rfl, rfl, rfl, rfl, ?_, ?_, rfl, congrArg Pool.text ha.pool,
    congrArg (List.map Modifier.name) ha.active⟩, hsource⟩
  · simp only [struck, ha.context]
  · simp only [struck, ha.context]

theorem strike_of_rollSegment {rolled : Rolled} {after : Carry}
    (hcopies : ∀ m ∈ (e.activeIn d kind carry).1, m.kind ≠ .extraAttack)
    (h : Comes (e.rollSegment d deadline s kind carry) source (rolled, after) source₁) :
    ∃ st, Comes (e.strike d deadline s kind carry) source st source₁ ∧
      rolled = ⟨st.outcome, []⟩ ∧ after = st.carry := by
  obtain ⟨st, n, used, source₂, hst, hcount, hcopied, ho, rfl⟩ := strike_copies_of_rollSegment h
  have hmodifiers : st.modifiers = (e.activeIn d kind carry).1 := by
    obtain ⟨_, _, _, _, rfl⟩ := struck_of_strike hst
    rfl
  have hzero : n = 0 := by
    have hnone : ofKind .extraAttack st.modifiers = [] := by
      rw [hmodifiers]
      exact List.filter_eq_nil_iff.mpr fun m hm => by simpa using hcopies m hm
    unfold extraCount at hcount
    rw [hnone] at hcount
    split at hcount <;> cases hcount <;> rfl
  subst hzero
  obtain ⟨he, rfl⟩ := comes_pure_iff.mp hcopied
  obtain ⟨hextras, rfl⟩ := Prod.mk.inj he
  refine ⟨st, hst, ?_, rfl⟩
  rw [← ho, ← hextras]

theorem usual_of_mem_activeIn (hb : e.rulebook.IsStandard) (hd : d.modifiers = []) :
    ∀ m ∈ (e.activeIn d kind carry).1, m.Usual kind := by
  intro m hm
  have hm := mem_of_mem_activate hm
  rw [hd] at hm
  exact Rulebook.usual_of_mem_resolve hb hm

theorem withAdvantage_damage (hb : e.rulebook.IsStandard) (hd : d.modifiers = []) (carry : Carry)
    (t : Term) : t.withAdvantage .damage (e.activeIn d .damage carry).1 = { term := t } :=
  Term.withAdvantage_of_fair (fun m hm => (usual_of_mem_activeIn hb hd m hm).fair rfl) t

theorem Alike.agrees_of_rollSegment {rolled rolled' : Rolled} {after after' : Carry}
    (ha : e.Alike kind d d' carry carry' s.term s'.term) (hb : e.rulebook.IsStandard)
    (hd : d.modifiers = []) (hd' : d'.modifiers = [])
    (h : Comes (e.rollSegment d deadline s kind carry) source (rolled, after) source₁)
    (h' : Comes (e.rollSegment d' deadline' s' kind carry') source (rolled', after') source₂) :
    rolled.Agrees rolled' ∧ source₁ = source₂ := by
  obtain ⟨st, hst, rfl, -⟩ := strike_of_rollSegment
    (fun m hm => (usual_of_mem_activeIn hb hd m hm).copies) h
  obtain ⟨st', hst', rfl, -⟩ := strike_of_rollSegment
    (fun m hm => (usual_of_mem_activeIn hb hd' m hm).copies) h'
  obtain ⟨hagrees, hsource⟩ := ha.agrees_of_strike
    (fun m hm => (usual_of_mem_activeIn hb hd m hm).operation) hst hst'
  exact ⟨⟨hagrees, .nil⟩, hsource⟩

theorem carry_of_attack {rolled : Rolled} {after : Carry} (hk : kind.isAttack = true)
    (hb : e.rulebook.IsStandard) (hd : d.modifiers = [])
    (h : Comes (e.rollSegment d deadline s kind {}) source (rolled, after) source₁) :
    after = {
      used := (e.activeIn d kind {}).2
      critical := rolled.outcome.criticalSuccess
      missed := rolled.outcome.success == some false } := by
  obtain ⟨st, hst, rfl, rfl⟩ := strike_of_rollSegment
    (fun m hm => (usual_of_mem_activeIn hb hd m hm).copies) h
  obtain ⟨plain, t, -, -, rfl⟩ := struck_of_strike hst
  have hdue := e.extraDue_of_not_isDamage (RollType.not_isDamage_of_isAttack hk) d {}
  simp only [struck, carryAfter, if_pos hk, hdue, Bool.or_false]

theorem rolledTerm_of_isDamage (hk : kind.isDamage = true) (hs : carry.spent = false) (t : Term) :
    e.rolledTerm kind carry t = if carry.critical then t.critical e.rules else t := by
  rw [rolledTerm, transforms, hk, hs]
  cases carry.critical with
  | false => rfl
  | true =>
    cases hf : t.pool.isFlat with
    | false => rfl
    | true => exact (Term.critical_of_isFlat hf).symm

end Engine

end DiceTower

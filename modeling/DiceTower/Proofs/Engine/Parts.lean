import DiceTower.Proofs.Engine.Preview
import DiceTower.Proofs.Engine.Tally

/-! The parts of a roll that was made, and what each of them was rolled with. Runs are followed by
where their source stands. -/

namespace DiceTower

open DiceTower.Computation Drawing

namespace Drawing

variable {σ α β : Type} {x : Drawing σ α} {f : α → Drawing σ β} {source source' : σ} {a : α} {b : β}

/-- From where the source stands the computation can come to a value, and leaves the source
elsewhere. The rest of the tray is left open. -/
def Comes (x : Drawing σ α) (source : σ) (a : α) (source' : σ) : Prop :=
  ∃ tray tray' : Tray σ, tray.source = source ∧ x tray = (.ok a, tray') ∧ tray'.source = source'

theorem comes_of_eq {tray tray' : Tray σ} (h : x tray = (.ok a, tray')) :
    Comes x tray.source a tray'.source := ⟨tray, tray', rfl, h, rfl⟩

theorem comes_pure_iff {a' : α} :
    Comes (pure a : Drawing σ α) source a' source' ↔ a' = a ∧ source' = source := by
  constructor
  · rintro ⟨tray, _, rfl, h, rfl⟩
    cases h
    exact ⟨rfl, rfl⟩
  · rintro ⟨rfl, rfl⟩
    exact ⟨{ source := source' }, _, rfl, rfl, rfl⟩

theorem Comes.of_bind (h : Comes (x >>= f) source b source') :
    ∃ a source₁, Comes x source a source₁ ∧ Comes (f a) source₁ b source' := by
  obtain ⟨tray, tray', rfl, h, rfl⟩ := h
  obtain ⟨a, tray₁, ha, hb⟩ := bind_apply_eq_ok_iff.mp h
  exact ⟨a, _, comes_of_eq ha, comes_of_eq hb⟩

theorem Comes.of_lift {y : Except Fault α} (h : Comes (liftM y : Drawing σ α) source a source') :
    y = .ok a ∧ source' = source := by
  obtain ⟨tray, tray', rfl, h, rfl⟩ := h
  obtain ⟨hy, rfl⟩ := Prod.mk.inj h
  exact ⟨hy, rfl⟩

theorem Comes.of_inDrawing {y : Noted α}
    (h : Comes (y.inDrawing : Drawing σ α) source a source') :
    (∃ records records', y records = (.ok a, records')) ∧ source' = source := by
  obtain ⟨tray, tray', rfl, h, rfl⟩ := h
  obtain ⟨hy, rfl⟩ := Prod.mk.inj h
  exact ⟨⟨_, _, Prod.ext hy rfl⟩, rfl⟩

theorem Comes.of_now {time : Float} (h : Comes (now : Drawing σ Float) source time source') :
    source' = source := by
  obtain ⟨tray, tray', rfl, h, rfl⟩ := h
  cases h
  rfl

theorem Comes.of_whenLate {record : Record} (h : Comes (x.whenLate record) source a source') :
    Comes x source a source' := by
  obtain ⟨tray, tray', rfl, h, rfl⟩ := h
  unfold whenLate at h
  split at h
  · cases h
  · exact comes_of_eq h

theorem Comes.of_gives {P : α → Prop} (h : Comes x source a source') (hx : Gives x P) : P a := by
  obtain ⟨tray, tray', _, h, _⟩ := h
  exact hx _ _ _ h

end Drawing

def RollResult.rolled (r : RollResult) : List Rolled :=
  if r.parts.isEmpty then [⟨r.outcome, r.extras⟩] else r.parts

namespace RollResult

variable {r : RollResult}

theorem rolled_of_parts_eq_nil (h : r.parts = []) : r.rolled = [⟨r.outcome, r.extras⟩] := by
  rw [rolled, h]
  rfl

theorem rolled_of_parts_ne_nil (h : r.parts ≠ []) : r.rolled = r.parts := by
  rw [rolled, if_neg (by simpa using h)]

end RollResult

def Rolled.Timed (r r' : Rolled) : Prop := r.outcome.Timed r'.outcome ∧ r.extras = r'.extras

theorem Rolled.timed_refl (r : Rolled) : r.Timed r := ⟨r.outcome.timed_refl, rfl⟩

theorem forall₂_rolled_timed_refl (parts : List Rolled) : List.Forall₂ Rolled.Timed parts parts := by
  induction parts with
  | nil => exact .nil
  | cons r parts ih => exact .cons r.timed_refl ih

namespace Engine

variable {σ : Type} {e : Engine} {d : Definition} {f : Formula} {source source' : σ}

theorem rolled_of_assemble {parts : List Rolled} {elapsed : Float} {r : RollResult}
    (h : Comes (e.assemble d f parts) source r source') :
    List.Forall₂ Rolled.Timed parts (r.timed elapsed).rolled ∧
      ((r.timed elapsed).parts = [] ↔ parts.length = 1) ∧ source' = source := by
  obtain ⟨tray, tray', rfl, h, rfl⟩ := h
  unfold assemble at h
  split at h
  · cases h
  · cases h
    exact ⟨.cons ⟨⟨_, rfl⟩, rfl⟩ .nil, by simp [RollResult.timed], rfl⟩
  · next first rest hrest =>
    obtain ⟨id, tray₁, hid, h⟩ := bind_apply_eq_ok_iff.mp h
    cases hid
    cases h
    refine ⟨forall₂_rolled_timed_refl _, ⟨nofun, fun hlength => ?_⟩, rfl⟩
    exact absurd (List.length_eq_zero_iff.mp (Nat.succ.inj hlength)) hrest

variable [Source σ]

/-- A roll that is made reads a formula, rolls its segments one after another, and reports them. -/
theorem exists_rollSegments_of_roll {r : RollResult}
    (h : Comes (e.roll d : Drawing σ (Formula × RollResult)) source (f, r) source') :
    e.formulaOf d = .ok f ∧ ∃ deadline parts,
      Comes (e.rollSegments d deadline {} (f.segments.zip (f.kinds d.kind))) source parts source' ∧
      List.Forall₂ Rolled.Timed parts r.rolled ∧ (r.parts = [] ↔ parts.length = 1) := by
  unfold roll at h
  obtain ⟨started, source₀, hstarted, h⟩ := h.of_bind
  obtain ⟨g, source₁, hg, h⟩ := h.of_bind
  obtain ⟨parts, source₂, hparts, h⟩ := h.of_bind
  obtain ⟨result, source₃, hresult, h⟩ := h.of_bind
  obtain ⟨ended, source₄, hended, h⟩ := h.of_bind
  obtain ⟨he, rfl⟩ := comes_pure_iff.mp h
  obtain ⟨rfl, rfl⟩ := Prod.mk.inj he
  obtain rfl := hstarted.of_now
  obtain ⟨hread, rfl⟩ := hg.of_lift
  obtain ⟨hrolled, hone, rfl⟩ := rolled_of_assemble hresult
  obtain rfl := hended.of_now
  exact ⟨hread, _, parts, hparts.of_whenLate, hrolled, hone⟩

theorem comes_roll_of_execute {r : RollResult} {table table' : Table σ}
    (h : e.execute d table = (.ok r, table')) :
    ∃ f, Comes (e.roll d) table.tray.source (f, r) table'.tray.source := by
  obtain ⟨⟨f, result⟩, table₁, h₁, h⟩ := bind_apply_eq_ok_iff.mp h
  obtain ⟨id, table₂, h₂, h⟩ := bind_apply_eq_ok_iff.mp h
  obtain ⟨_, table₃, h₃, h⟩ := bind_apply_eq_ok_iff.mp h
  obtain ⟨_, table₄, h₄, h⟩ := bind_apply_eq_ok_iff.mp h
  cases h
  cases h₄
  cases h₃
  obtain ⟨_, rfl⟩ := Prod.mk.inj h₂
  obtain ⟨hr, rfl⟩ := Prod.mk.inj h₁
  exact ⟨f, table.tray, _, rfl, Prod.ext hr rfl, rfl⟩

theorem exists_rollSegments_of_execute {r : RollResult} {table table' : Table σ}
    (h : e.execute d table = (.ok r, table')) :
    ∃ f, e.formulaOf d = .ok f ∧ ∃ deadline parts,
      Comes (e.rollSegments d deadline {} (f.segments.zip (f.kinds d.kind))) table.tray.source parts
        table'.tray.source ∧
      List.Forall₂ Rolled.Timed parts r.rolled ∧ (r.parts = [] ↔ parts.length = 1) := by
  obtain ⟨f, h⟩ := comes_roll_of_execute h
  exact ⟨f, exists_rollSegments_of_roll h⟩

theorem exists_only_rollSegment_of_execute {r : RollResult} {table table' : Table σ} {s : Segment}
    {kind : RollType} (h : e.execute d table = (.ok r, table')) (hf : e.formulaOf d = .ok f)
    (hs : f.segments = [s]) (hk : f.kinds d.kind = [kind]) :
    r.parts = [] ∧ ∃ deadline rolled after,
      Comes (e.rollSegment d deadline s kind {}) table.tray.source (rolled, after)
        table'.tray.source ∧
      rolled.Timed ⟨r.outcome, r.extras⟩ := by
  obtain ⟨g, hg, deadline, parts, hparts, hrolled, hone⟩ := exists_rollSegments_of_execute h
  obtain rfl := Except.ok.inj (hf.symm.trans hg)
  rw [hk, hs] at hparts
  obtain ⟨⟨rolled, after⟩, source₁, hroll, hparts⟩ := Comes.of_bind hparts
  obtain ⟨rest, source₂, hrest, hparts⟩ := hparts.of_bind
  obtain ⟨rfl, hsource⟩ := comes_pure_iff.mp hparts
  obtain ⟨rfl, rfl⟩ := comes_pure_iff.mp hrest
  have hnil := hone.mpr rfl
  rw [RollResult.rolled_of_parts_eq_nil hnil] at hrolled
  rw [hsource]
  exact ⟨hnil, deadline, rolled, after, hroll, (List.forall₂_cons.mp hrolled).1⟩

theorem exists_rollSegment_of_execute {r : RollResult} {table table' : Table σ} {t : Term}
    (h : e.execute d table = (.ok r, table')) (hf : e.formulaOf d = .ok f)
    (hs : f.segments = [⟨none, t⟩]) :
    r.parts = [] ∧ ∃ deadline rolled after,
      Comes (e.rollSegment d deadline ⟨none, t⟩ d.kind {}) table.tray.source (rolled, after)
        table'.tray.source ∧
      rolled.Timed ⟨r.outcome, r.extras⟩ := by
  have hk : f.kinds d.kind = [d.kind] := by
    rw [Formula.kinds, hs]
    rfl
  exact exists_only_rollSegment_of_execute h hf hs hk

theorem exists_rollSegment_pair_of_execute {r : RollResult} {table table' : Table σ}
    {s s' : Segment} {kind kind' : RollType} (h : e.execute d table = (.ok r, table'))
    (hf : e.formulaOf d = .ok f) (hs : f.segments = [s, s'])
    (hk : f.kinds d.kind = [kind, kind']) :
    ∃ deadline rolled carry source₁ rolled' after a b,
      Comes (e.rollSegment d deadline s kind {}) table.tray.source (rolled, carry) source₁ ∧
      Comes (e.rollSegment d deadline s' kind' carry) source₁ (rolled', after)
        table'.tray.source ∧
      r.parts = [a, b] ∧ rolled.Timed a ∧ rolled'.Timed b := by
  obtain ⟨g, hg, deadline, parts, hparts, hrolled, hone⟩ := exists_rollSegments_of_execute h
  obtain rfl := Except.ok.inj (hf.symm.trans hg)
  rw [hk, hs] at hparts
  obtain ⟨⟨rolled, carry⟩, source₁, hroll, hparts⟩ := Comes.of_bind hparts
  obtain ⟨rest, source₂, hrest, hparts⟩ := hparts.of_bind
  obtain ⟨rfl, hsource⟩ := comes_pure_iff.mp hparts
  obtain ⟨⟨rolled', after⟩, source₃, hroll', hrest⟩ := Comes.of_bind hrest
  obtain ⟨rest', source₄, hrest', hrest⟩ := hrest.of_bind
  obtain ⟨rfl, hsource'⟩ := comes_pure_iff.mp hrest
  obtain ⟨rfl, rfl⟩ := comes_pure_iff.mp hrest'
  have hparts' : r.parts ≠ [] := fun hnil => absurd (hone.mp hnil) (by simp)
  rw [RollResult.rolled_of_parts_ne_nil hparts'] at hrolled
  obtain ⟨a, _, ha, hsecond, he⟩ := List.forall₂_cons_left_iff.mp hrolled
  obtain ⟨b, _, hb, hnone, rfl⟩ := List.forall₂_cons_left_iff.mp hsecond
  obtain rfl := List.forall₂_nil_left_iff.mp hnone
  rw [hsource, hsource']
  exact ⟨deadline, rolled, carry, source₁, rolled', after, a, b, hroll, hroll', he, ha, hb⟩

variable {deadline : Option Float} {s : Segment} {kind : RollType} {carry : Carry}

theorem strike_copies_of_rollSegment {rolled : Rolled} {after : Carry}
    (h : Comes (e.rollSegment d deadline s kind carry) source (rolled, after) source') :
    ∃ st n used source₁, Comes (e.strike d deadline s kind carry) source st source₁ ∧
      (if kind.isAttack then extraCount st.modifiers else .ok 0) = .ok n ∧
      Comes (e.copies d deadline s kind st.carry n) source₁ (rolled.extras, used) source' ∧
      rolled.outcome = st.outcome ∧ after = { st.carry with used } := by
  obtain ⟨st, source₁, hst, h⟩ := Comes.of_bind h
  obtain ⟨n, source₂, hn, h⟩ := h.of_bind
  obtain ⟨⟨extras, used⟩, source₃, hextras, h⟩ := h.of_bind
  obtain ⟨outcome, source₄, hcheck, h⟩ := h.of_bind
  obtain ⟨he, rfl⟩ := comes_pure_iff.mp h
  obtain ⟨hcount, rfl⟩ := hn.of_lift
  obtain ⟨hchecked, rfl⟩ := hcheck.of_lift
  obtain ⟨rfl, _⟩ := Outcome.check_eq_ok_iff.mp hchecked
  cases he
  exact ⟨st, n, used, _, hst, hcount, hextras, rfl, rfl⟩

/-- A copy of a segment is what its modifiers, its dice and its tally make of it. -/
theorem struck_of_strike {st : Strike}
    (h : Comes (e.strike d deadline s kind carry) source st source') :
    ∃ plain t,
      (∀ records, (((s.term.withAdvantage kind (e.activeIn d kind carry).1).term.withOperations
        (e.activeIn d kind carry).1) records).1 = .ok plain) ∧
      Comes (e.tally deadline s.label kind (e.activeIn d kind carry).1
        (s.term.withAdvantage kind (e.activeIn d kind carry).1).remarks
        (e.rolledTerm kind carry plain) (carry.criticalDamage d kind) (e.extraDue d kind carry))
        source t source' ∧
      st = e.struck d s kind carry (e.activeIn d kind carry) plain t := by
  rw [strike_eq] at h
  obtain ⟨active, source₀, hactive, h⟩ := h.of_bind
  obtain ⟨plain, source₁, hplain, h⟩ := h.of_bind
  obtain ⟨t, source₂, ht, h⟩ := h.of_bind
  obtain ⟨rfl, rfl⟩ := comes_pure_iff.mp h
  obtain ⟨⟨_, _, ha⟩, rfl⟩ := hactive.of_inDrawing
  obtain ⟨⟨_, _, hp⟩, rfl⟩ := hplain.of_inDrawing
  obtain rfl := e.gives_activeNoted d _ _ _ _ _ _ _ ha
  exact ⟨plain, t, (Term.settled_withOperations _ _).eq_ok hp, ht, rfl⟩

end Engine

end DiceTower

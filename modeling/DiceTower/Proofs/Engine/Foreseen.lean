import DiceTower.Proofs.Engine.Ranges
import DiceTower.Proofs.Engine.Settled

/-! What a roll leaves of its segments where no attack is a critical hit or a miss: each has the
modifiers and the dice of the preview, and a total within the range that these have. -/

namespace DiceTower

open DiceTower.Computation Number

/-- A modifier that a preview can follow: no face is replaced, its dice are those of a parser, and
it scales by a whole number. -/
structure Modifier.Foreseeable (m : Modifier) : Prop where
  kind : m.kind ≠ .replaceDie
  dice : ∀ t, m.kind = .dice → m.amount = .dice t → t.pool.Foreseeable
  scale : m.WholeScale

def Outcome.Calm (o : Outcome) : Prop :=
  o.metadata.kind.isAttack = true → o.criticalSuccess = false ∧ o.success ≠ some false

def Carry.Calm (c : Carry) : Prop := c.critical = false ∧ c.missed = false

/-- The totals before the last `n` lines and after each of them are exact in double precision. -/
def Outcome.Exact (o : Outcome) (n : Nat) : Prop :=
  ∀ j ≤ n, (Item.counted (o.items.take (o.items.length - j))).natAbs < 2 ^ 53

namespace Engine

/-- The modifiers that are active in a segment, and those that are used up after it, where damage is
never critical and no attack missed. -/
def active (e : Engine) (d : Definition) (kind : RollType) (used : List String) :
    List Modifier × List String :=
  activate kind false false used (e.rulebook.resolve d.context kind d.modifiers d.withCharacter)

def actives (e : Engine) (d : Definition) (used : List String) :
    List RollType → List (List Modifier)
  | [] => []
  | kind :: kinds => (e.active d kind used).1 :: e.actives d (e.active d kind used).2 kinds

def ForeseesExactly (e : Engine) (s : Segment) (kind : RollType) (ms : List Modifier) : Prop :=
  ∀ plain,
    (∀ records, ((s.term.withAdvantage kind ms).term.withOperations ms records).1 = .ok plain) →
    plain.ForeseenExactly e.cap ms

def ForeseesAllExactly (e : Engine) (d : Definition) (used : List String) :
    List (Segment × RollType) → Prop
  | [] => True
  | (s, kind) :: segments => e.ForeseesExactly s kind (e.active d kind used).1 ∧
    e.ForeseesAllExactly d (e.active d kind used).2 segments

/-- The preview follows an outcome: it finds the same dice, and a range that contains the total. -/
structure Follows (e : Engine) (s : Segment) (kind : RollType) (ms : List Modifier) (o : Outcome) :
    Prop where
  faces : kind.isAttack = true → ∃ faces, criticalRange e.rules ms = .ok faces
  range : ∃ plain,
    (∀ records, ((s.term.withAdvantage kind ms).term.withOperations ms records).1 = .ok plain) ∧
    (o.Exact (ms.countP (·.kind.scales)) →
      Foretells (Fault.OfSize (plain.Crowded e.cap ms) ¬ plain.ForeseenExactly e.cap ms)
        (fun r : Range ℚ => r.Contains o.total) (segmentRange e.cap plain ms))

end Engine

section Parts

theorem RollType.not_isDamage_of_isAttack {kind : RollType} (h : kind.isAttack = true) :
    kind.isDamage = false := by
  cases kind <;> first | rfl | cases h

theorem RollType.not_isD20_of_isDamage {kind : RollType} (h : kind.isDamage = true) :
    kind.isD20 = false := by
  cases kind <;> first | rfl | cases h

theorem run_forM_note (rs records : List Record) :
    ∃ records', rs.forM Noted.note records = (.ok (), records') := by
  induction rs generalizing records with
  | nil => exact ⟨records, rfl⟩
  | cons r rs ih => exact ih (r :: records)

theorem Engine.answer_activeNoted (e : Engine) (d : Definition) (kind : RollType)
    (critical missed : Bool) (used : List String) (records : List Record) :
    (e.activeNoted d kind critical missed used records).1 =
      .ok (activate kind critical missed used
        (e.rulebook.resolve d.context kind d.modifiers d.withCharacter)) := by
  obtain ⟨records', h⟩ := run_forM_note
    (e.rulebook.records d.context kind d.modifiers d.withCharacter) records
  unfold activeNoted Rulebook.resolveNoted
  rw [bind_assoc, bind_apply, h]
  rfl

theorem Engine.gives_activeNoted (e : Engine) (d : Definition) (kind : RollType)
    (critical missed : Bool) (used : List String) :
    Gives (e.activeNoted d kind critical missed used) fun a =>
      a = activate kind critical missed used
        (e.rulebook.resolve d.context kind d.modifiers d.withCharacter) := by
  intro records a records' h
  have he := e.answer_activeNoted d kind critical missed used records
  rw [h] at he
  exact Except.ok.inj he

theorem Roll.natural_eq {kind : RollType} {ms : List Modifier} (h : ∀ m ∈ ms, m.kind ≠ .replaceDie)
    {r : Roll} {n : Natural} (hn : r.natural kind ms = .ok n) : n.roll = r ∧ n.remarks = [] := by
  have hfind : ms.find? (·.kind = .replaceDie) = none := by
    simpa [List.find?_eq_none] using h
  unfold natural at hn
  rw [hfind] at hn
  split at hn <;> cases hn <;> exact ⟨rfl, rfl⟩

theorem Term.counted_remarks_favoured (kind : RollType) (advantage : Bool) (label : String)
    (t : Term) : Item.counted (t.favoured kind advantage label).remarks = 0 := by
  unfold favoured
  split
  · rfl
  · split
    · split <;> rfl
    · split <;> rfl

theorem Term.counted_remarks_withAdvantage (kind : RollType) (ms : List Modifier) (t : Term) :
    Item.counted (t.withAdvantage kind ms).remarks = 0 := by
  unfold withAdvantage
  dsimp only
  split
  · rfl
  · exact counted_remarks_favoured ..
  · exact counted_remarks_favoured ..
  · rfl

theorem Engine.extraItems_of_not_due {σ : Type} [Source σ] (e : Engine) (deadline : Option Float) :
    (e.extraItems deadline false : Drawing σ (List Item)) = pure [] := rfl

theorem exactFrom_of_exact {o : Outcome} {lines scaling : List Item}
    (h : o.items = lines ++ scaling) (he : o.Exact scaling.length) :
    ExactFrom (Item.counted lines) scaling := by
  intro j hj
  have := he (scaling.length - j) (Nat.sub_le ..)
  rw [h, List.length_append, List.take_append, List.take_of_length_le (by omega),
    Item.counted_append] at this
  have hrest : lines.length + scaling.length - (scaling.length - j) - lines.length = j := by omega
  rwa [hrest] at this

end Parts

section Strikes

variable {σ : Type} [Source σ] {e : Engine} {d : Definition} {deadline : Option Float}
  {s : Segment} {kind : RollType} {carry : Carry}

namespace Engine

theorem used_carryAfter (kind : RollType) (hit : Bool) (success : Option Bool) (carry : Carry) :
    (carryAfter kind hit success carry).used = carry.used := by
  unfold carryAfter
  split <;> rfl

theorem calm_carryAfter {hit : Bool} {success : Option Bool}
    (h : kind.isAttack = true → hit = false ∧ success ≠ some false) (hc : carry.Calm) :
    (carryAfter kind hit success carry).Calm := by
  unfold carryAfter
  split
  · next hk =>
    obtain ⟨hh, hs⟩ := h hk
    exact ⟨hh, by simpa using hs⟩
  · exact hc

theorem gives_used_strike : Gives (e.strike d deadline s kind carry : Drawing σ Strike) fun st =>
    st.carry.used = (activate kind (kind.isDamage && (d.criticalHit || carry.critical)) carry.missed
      carry.used (e.rulebook.resolve d.context kind d.modifiers d.withCharacter)).2 := by
  unfold strike
  refine (Noted.gives_inDrawing (e.gives_activeNoted d _ _ _ _)).bind ?_
  rintro _ rfl
  refine (Gives.trivial _).bind fun plain _ => (Gives.trivial _).bind fun rolled _ => ?_
  refine (Gives.trivial _).bind fun natural _ => (Gives.trivial _).bind fun bonuses _ => ?_
  refine (Gives.trivial _).bind fun extra _ => (Gives.trivial _).bind fun scaling _ => ?_
  refine (Gives.trivial _).bind fun faces _ => (Gives.trivial _).bind fun id _ => .of_pure ?_
  exact used_carryAfter ..

theorem gives_strike (hd : d.criticalHit = false) (hc : carry.Calm) (hp : s.term.pool.Sound)
    (hm : ∀ m ∈ (e.active d kind carry.used).1, m.Foreseeable) :
    Gives (e.strike d deadline s kind carry : Drawing σ Strike) fun st =>
      st.carry.used = (e.active d kind carry.used).2 ∧
      (st.outcome.Calm → st.carry.Calm) ∧
      e.Follows s kind (e.active d kind carry.used).1 st.outcome := by
  have hcritical : (kind.isDamage && (d.criticalHit || carry.critical)) = false := by
    rw [hd, hc.1, Bool.or_self, Bool.and_false]
  have hfits : ∀ m ∈ (e.active d kind carry.used).1, m.Fits := fun m hmem =>
    Rulebook.fits_of_mem_resolve (mem_of_mem_activate hmem)
  unfold strike
  simp only [hcritical, Bool.false_and]
  refine (Noted.gives_inDrawing (e.gives_activeNoted d _ _ _ _)).bind ?_
  rintro a ha
  rw [hc.2] at ha
  change a = e.active d kind carry.used at ha
  rw [← ha] at hm hfits ⊢
  have hfav := Term.sound_withAdvantage hp kind a.1
  refine (Noted.gives_inDrawing (fun records plain records' h =>
    And.intro (Term.gives_sound_withOperations hfits hfav records plain records' h)
      ((Term.settled_withOperations a.1 _).eq_ok h))).bind fun plain hplain => ?_
  have hplainly : e.transforms kind carry plain = false := by
    rw [transforms, hc.1, Bool.and_false, Bool.false_and, Bool.false_and]
  simp only [hplainly, Bool.false_eq_true, if_false]
  refine (plain.gives_total_within_estimate hplain.1 s.label).bind fun rolled hrolled => ?_
  refine (Gives.of_lift fun n hn => Roll.natural_eq (fun m hmem => (hm m hmem).kind) hn).bind
    fun natural hnatural => ?_
  refine (Gives.mapM fun m hmem => e.gives_modifierItems deadline (hfits m hmem) fun t hk ht =>
    ((hm m hmem).dice t hk ht).sound).bind fun bonuses hbonuses => ?_
  rw [extraItems_of_not_due, pure_bind]
  refine (Gives.of_lift fun lines h => h).bind fun scaling hscaling => ?_
  refine (Gives.of_lift fun faces h => h).bind fun faces hfaces => ?_
  refine (Gives.trivial _).bind fun id _ => .of_pure ?_
  obtain ⟨hroll, hremarks⟩ := hnatural
  have hscales : ∀ m ∈ a.1, m.Fits ∧ m.WholeScale := fun m hmem => ⟨hfits m hmem, (hm m hmem).scale⟩
  have hlines : Item.counted (natural.roll.items none ++ (s.term.withAdvantage kind a.1).remarks ++
      natural.remarks ++ bonuses.flatten ++ []) = rolled.total + Item.counted bonuses.flatten := by
    simp only [Item.counted_append, Term.counted_remarks_withAdvantage, hremarks, hroll,
      Roll.counted_items, counted_nil, Int.add_zero]
  refine ⟨used_carryAfter .., fun h => calm_carryAfter h hc, ⟨fun hk => ⟨faces, ?_⟩, plain,
    hplain.2, fun hexact => ?_⟩⟩
  · rwa [if_pos hk] at hfaces
  · rw [hlines] at hscaling
    rw [← length_scaleLines hscales hscaling] at hexact
    have he := exactFrom_of_exact rfl hexact
    rw [hlines] at he
    dsimp only
    rw [Item.counted_append, hlines]
    exact foretells_segmentRange hscales hrolled.2 hbonuses hscaling he

end Engine

end Strikes

end DiceTower

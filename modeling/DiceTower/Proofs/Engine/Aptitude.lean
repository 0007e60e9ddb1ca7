import DiceTower.Proofs.Engine.Execution
import DiceTower.Proofs.Rulebook.Aptitude

/-! A roll of notation that already counts what the character can do. A situation enters a roll by the
modifiers that it brings and by its target alone; so nothing of the aptitude is counted again. -/

namespace DiceTower

def Definition.withAptitude (d : Definition) (a : Aptitude) : Definition :=
  { d with context := d.context.withAptitude a }

namespace Engine

variable {σ : Type} [Source σ] {e : Engine} {d : Definition} {c : Context}
  {deadline : Option Float} {s : Segment} {kind : RollType} {segments : List (Segment × RollType)}

/-- A situation that does to a type of roll what that of a definition does. -/
structure Replaces (e : Engine) (d : Definition) (c : Context) (kind : RollType) : Prop where
  modifiers : e.rulebook.resolveNoted c kind d.modifiers d.withCharacter =
    e.rulebook.resolveNoted d.context kind d.modifiers d.withCharacter
  target : c.target = d.context.target

theorem strike_of_replaces (h : e.Replaces d c kind) (carry : Carry) :
    (e.strike { d with context := c } deadline s kind carry : Drawing σ Strike) =
      e.strike d deadline s kind carry := by
  have htarget : c.targetNumber kind = d.context.targetNumber kind := by
    unfold Context.targetNumber
    rw [h.target]
  unfold strike activeNoted
  rw [h.modifiers, htarget]

theorem copies_of_replaces (h : e.Replaces d c kind) (carry : Carry) (n : Nat) :
    (e.copies { d with context := c } deadline s kind carry n :
        Drawing σ (List Outcome × List String)) =
      e.copies d deadline s kind carry n := by
  induction n generalizing carry with
  | zero => rfl
  | succ n ih =>
    unfold copies
    rw [strike_of_replaces h]
    simp only [ih]

theorem rollSegment_of_replaces (h : e.Replaces d c kind) (carry : Carry) :
    (e.rollSegment { d with context := c } deadline s kind carry : Drawing σ (Rolled × Carry)) =
      e.rollSegment d deadline s kind carry := by
  unfold rollSegment
  rw [strike_of_replaces h]
  simp only [copies_of_replaces h]

theorem rollSegments_of_replaces (h : ∀ p ∈ segments, e.Replaces d c p.2) (carry : Carry) :
    (e.rollSegments { d with context := c } deadline carry segments : Drawing σ (List Rolled)) =
      e.rollSegments d deadline carry segments := by
  induction segments generalizing carry with
  | nil => rfl
  | cons p segments ih =>
    obtain ⟨hp, hsegments⟩ := List.forall_mem_cons.mp h
    unfold rollSegments
    rw [rollSegment_of_replaces hp]
    simp only [ih hsegments]

omit [Source σ] in
theorem assemble_withContext (e : Engine) (d : Definition) (c : Context) (f : Formula)
    (parts : List Rolled) :
    (e.assemble { d with context := c } f parts : Drawing σ RollResult) = e.assemble d f parts := by
  unfold assemble
  split <;> rfl

theorem roll_of_replaces
    (h : ∀ f, e.formulaOf d = .ok f → ∀ kind ∈ f.kinds d.kind, e.Replaces d c kind) :
    (e.roll { d with context := c } : Drawing σ (Formula × RollResult)) = e.roll d := by
  have hformula : e.formulaOf { d with context := c } = e.formulaOf d := rfl
  unfold roll
  rw [hformula]
  refine bind_congr fun started => ?_
  cases hf : e.formulaOf d with
  | error fault => rw [Computation.lift_error_bind, Computation.lift_error_bind]
  | ok f =>
    have hsegments : ∀ p ∈ f.segments.zip (f.kinds d.kind), e.Replaces d c p.2 := fun p hp =>
      h f hf p.2 (List.of_mem_zip hp).2
    rw [Computation.lift_ok_bind, Computation.lift_ok_bind]
    dsimp only
    rw [rollSegments_of_replaces hsegments]
    simp only [assemble_withContext, lateRecord]

theorem execute_of_replaces
    (h : ∀ f, e.formulaOf d = .ok f → ∀ kind ∈ f.kinds d.kind, e.Replaces d c kind) :
    (e.execute { d with context := c } : Play σ RollResult) = e.execute d := by
  unfold execute
  rw [roll_of_replaces h]
  simp only [doneRecord, Definition.title]

/-- Of a roll without damage whose notation counts what the character can do, nothing depends on the
aptitude: neither the result with all its parts nor what is drawn and noted on the way. -/
theorem execute_withAptitude (hb : e.rulebook.IsStandard) (hc : d.withCharacter = false)
    (hm : ∀ m ∈ d.modifiers, m.condition = none)
    (hd : ∀ f, e.formulaOf d = .ok f → .damage ∉ f.kinds d.kind) (a : Aptitude) :
    (e.execute (d.withAptitude a) : Play σ RollResult) = e.execute d := by
  refine execute_of_replaces fun f hf kind hkind => ⟨?_, rfl⟩
  have hk : kind.isDamage = false := by
    cases kind <;> first | rfl | exact absurd hkind (hd f hf)
  rw [hc]
  exact Rulebook.resolveNoted_withAptitude hb hk hm a

def ambush : Definition where
  id := "ambush"
  kind := .attack
  wording := .text "1d20+7"
  context := {
    source := { kind := .weapon, name := "Longsword", properties := [("magic_bonus", .int 1)] }
    target := some { ac := some 15 }
    environment := { hidden := true, blessed := true } }
  modifiers := [{
    id := "height"
    name := "High Ground"
    source := .condition
    kind := .flat
    amount := .whole 2 }]
  withCharacter := false

def mastery : Aptitude where
  level := 17
  abilityScores := [(.strength, 20)]
  ability := some .strength
  proficient := some true
  magicBonus := some (.int 3)

/-- The attack goes as it does for a beginner. -/
theorem execute_withAptitude_ambush :
    ({} : Engine).rulebook.IsStandard ∧ ambush.withCharacter = false ∧
    (∀ m ∈ ambush.modifiers, m.condition = none) ∧
    (∀ f, Engine.formulaOf {} ambush = .ok f → .damage ∉ f.kinds ambush.kind) ∧
    (execute {} (ambush.withAptitude mastery) : Play Script RollResult) = execute {} ambush := by
  have hb : ({} : Engine).rulebook.IsStandard := ⟨{}, true, true, true, rfl⟩
  have hm : ∀ m ∈ ambush.modifiers, m.condition = none := by simp [ambush]
  have hd : ∀ f, Engine.formulaOf {} ambush = .ok f → .damage ∉ f.kinds ambush.kind := by
    have hread : Engine.formulaOf {} ambush =
        .ok ⟨"1d20+7", [⟨none, "1d20+7", ⟨1, 20, 7, []⟩⟩]⟩ :=
      eq_ok_of_toOption (by decide +kernel)
    intro f hf
    rw [hread] at hf
    cases hf
    decide +kernel
  exact ⟨hb, rfl, hm, hd, execute_withAptitude hb rfl hm hd mastery⟩

end Engine

end DiceTower

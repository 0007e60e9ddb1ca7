import DiceTower.Proofs.Engine.OnceOnly
import DiceTower.Proofs.Notation.Legible

/-! The notation that a result keeps is that of the dice that were rolled for it. Advantage, the
operations of modifiers and a critical hit change the dice one after another, and none of them makes
dice that cannot be read from their notation. -/

namespace DiceTower

open DiceTower.Computation Drawing

theorem Term.gives_legible_withOperations {ms : List Modifier} (hm : ∀ m ∈ ms, m.Fits) {t : Term}
    (ht : t.pool.Legible) : Gives (t.withOperations ms) fun t' => t'.pool.Legible := by
  refine (gives_addable_withOperations hm ht.single ht.compatible.bounds).mono ?_
  rintro t' ⟨added, ha, he⟩
  rw [he]
  refine ⟨⟨ht.count, ht.sides, fun op hop => ?_⟩, fun op hop hs n hn => ?_,
    ha.compatible ht.compatible⟩
  · rcases List.mem_append.mp hop with hop | hop
    · exact ht.operations op hop
    · obtain ⟨n, hn, h1, _⟩ := (ha.faces op hop).value
      have honce := (ha.faces op hop).once
      exact ⟨⟨n, hn, h1⟩, fun hr => by simp [honce] at hr⟩
  · rcases List.mem_append.mp hop with hop | hop
    · exact ht.faces op hop hs n hn
    · obtain ⟨m, hm, _, hle⟩ := (ha.faces op hop).value
      rw [hm, Operand.values, List.mem_singleton] at hn
      rwa [hn]

structure Throw extends Copy where
  pool : Pool

variable {σ : Type} [Source σ]

namespace Engine

/-- A copy rolled from where the source stands. Advantage changes the dice of the segment, modifiers
add their operations to them, and a critical hit doubles them; they are rolled and counted, and that
makes the outcome. -/
def Throws (e : Engine) (d : Definition) (deadline : Option Float) (carry : Carry) (source : σ)
    (t : Throw) (after : Carry) (source' : σ) : Prop :=
  ∃ (plain : Term) (tally : Tally),
    let active := e.activeIn d t.kind carry
    let favoured := t.segment.term.withAdvantage t.kind active.1
    let rolled := e.rolledTerm t.kind carry plain
    let st := e.struck d t.segment t.kind carry active plain tally
    (∀ records, (favoured.term.withOperations active.1 records).1 = .ok plain) ∧
    t.pool = rolled.pool ∧
    Comes (e.tally deadline t.segment.label t.kind active.1 favoured.remarks rolled
      (carry.criticalDamage d t.kind) (e.extraDue d t.kind carry)) source tally source' ∧
    st.outcome.Timed t.outcome ∧ after = carry.past t.further st.carry

def ThrowsAll (e : Engine) (d : Definition) (deadline : Option Float) :
    Carry → σ → List Throw → Carry → σ → Prop
  | carry, source, [], carry', source' => carry' = carry ∧ source' = source
  | carry, source, t :: throws, carry', source' => ∃ after source₁,
      e.Throws d deadline carry source t after source₁ ∧
      e.ThrowsAll d deadline after source₁ throws carry' source'

variable {e : Engine} {d : Definition} {deadline : Option Float} {carry carry' : Carry}
  {source source' : σ}

theorem throwsAll_of_takes {turns : List Turn}
    (h : e.Takes d deadline carry source turns carry' source') :
    ∃ throws : List Throw, throws.map (·.toCopy) = turns.map (·.toCopy) ∧
      e.ThrowsAll d deadline carry source throws carry' source' := by
  induction turns generalizing carry source with
  | nil => exact ⟨[], rfl, h⟩
  | cons t turns ih =>
    obtain ⟨st, source₁, hst, _, ho, h⟩ := h
    obtain ⟨plain, tally, hplain, htally, rfl⟩ := struck_of_strike hst
    obtain ⟨throws, hthrows, hrest⟩ := ih h
    refine ⟨⟨t.toCopy, (e.rolledTerm t.kind carry plain).pool⟩ :: throws, ?_, ?_⟩
    · rw [List.map_cons, List.map_cons, hthrows]
    · exact ⟨_, source₁, ⟨plain, tally, hplain, rfl, htally, ho, rfl⟩, hrest⟩

theorem Throws.readFrom {t : Throw} {after : Carry}
    (h : e.Throws d deadline carry source t after source') (hp : t.segment.term.pool.Legible) :
    t.pool.ReadFrom t.outcome.metadata.expression := by
  obtain ⟨plain, tally, hplain, hpool, _, ⟨elapsed, ho⟩, _⟩ := h
  have hfavoured := Term.legible_withAdvantage hp t.kind (e.activeIn d t.kind carry).1
  have hlegible : plain.pool.Legible :=
    Term.gives_legible_withOperations (fun _ => fits_of_mem_activeIn) hfavoured [] plain _
      (Prod.ext (hplain []) rfl)
  have hrolled : (e.rolledTerm t.kind carry plain).pool.Legible := by
    unfold rolledTerm
    split
    · exact Term.legible_critical hlegible e.rules
    · exact hlegible
  have htext : t.outcome.metadata.expression = (e.rolledTerm t.kind carry plain).pool.text := by
    rw [ho]
    rfl
  rw [htext, hpool]
  exact hrolled.readFrom_text

theorem ThrowsAll.readFrom {throws : List Throw}
    (h : e.ThrowsAll d deadline carry source throws carry' source')
    (hp : ∀ t ∈ throws, t.segment.term.pool.Legible) :
    ∀ t ∈ throws, t.pool.ReadFrom t.outcome.metadata.expression := by
  induction throws generalizing carry source with
  | nil => exact List.forall_mem_nil _
  | cons t throws ih =>
    obtain ⟨after, source₁, ht, h⟩ := h
    obtain ⟨hfirst, hrest⟩ := List.forall_mem_cons.mp hp
    exact List.forall_mem_cons.mpr ⟨ht.readFrom hfirst, ih h hrest⟩

end Engine

section Copies

variable {segments : List (Segment × RollType)} {rolled : List Rolled}

theorem segment_mem_of_mem_copies {c : Copy}
    (h : c ∈ (passages segments rolled).flatMap Passage.copies) :
    (c.segment, c.kind) ∈ segments := by
  obtain ⟨p, hp, hc⟩ := List.mem_flatMap.mp h
  have hmem := mem_of_mem_passages hp
  rcases List.mem_cons.mp hc with rfl | hc
  · exact hmem
  · obtain ⟨o, _, rfl⟩ := List.mem_map.mp hc
    exact hmem

end Copies

namespace Engine

variable {e : Engine} {d : Definition} {f : Formula}

/-- In a roll that is made of a formula that is read from a text, the notation of every segment and
of every further copy of an attack is that of the dice that were rolled for it. -/
theorem readFrom_of_execute {limits : Limits} {text : String}
    (hparse : Formula.parse limits text = .ok f) (hf : e.formulaOf d = .ok f) {r : RollResult}
    {table table' : Table σ} (h : e.execute d table = (.ok r, table')) :
    ∃ deadline throws carry, r.rolled.length = f.segments.length ∧
      throws.map (·.toCopy) =
        (passages (f.segments.zip (f.kinds d.kind)) r.rolled).flatMap Passage.copies ∧
      e.ThrowsAll d deadline {} table.tray.source throws carry table'.tray.source ∧
      ∀ t ∈ throws, t.pool.ReadFrom t.outcome.metadata.expression := by
  obtain ⟨g, hg, deadline, parts, hparts, hrolled, _⟩ := exists_rollSegments_of_execute h
  obtain rfl := Except.ok.inj (hf.symm.trans hg)
  obtain ⟨hlength, turns, carry, hturns, htakes⟩ := takes_rollSegments hparts hrolled
  obtain ⟨throws, hthrows, hall⟩ := throwsAll_of_takes htakes
  rw [hturns] at hthrows
  refine ⟨deadline, throws, carry, ?_, hthrows, hall, hall.readFrom fun t ht => ?_⟩
  · rw [hlength, List.length_zip, Formula.kinds, length_segmentKinds, Nat.min_self]
  · have hcopy : t.toCopy ∈ throws.map (·.toCopy) := List.mem_map_of_mem ht
    rw [hthrows] at hcopy
    have hsegment := (List.of_mem_zip (segment_mem_of_mem_copies hcopy)).1
    obtain ⟨cs, hd⟩ := ((Formula.readable_of_parse hparse).2 _ hsegment).pool
    exact Pool.legible_of_denotes hd

def cleave : Definition where
  id := "cleave"
  kind := .attack
  wording := .text "attack:1d20,damage:2d6+3"
  modifiers := [
    { id := "great", name := "Great Weapon", source := .feat, kind := .reroll,
      amount := .faces [1, 2], appliesTo := some [.damage] }]

theorem readFrom_cleave : ∃ f r table',
    Formula.parse {} "attack:1d20,damage:2d6+3" = .ok f ∧ Engine.formulaOf {} cleave = .ok f ∧
    execute {} cleave (Table.opening [20, 3, 1, 5, 6, 4]) = (.ok r, table') ∧
    ∃ deadline throws carry, r.rolled.length = f.segments.length ∧
      throws.map (·.toCopy) =
        (passages (f.segments.zip (f.kinds cleave.kind)) r.rolled).flatMap Passage.copies ∧
      ThrowsAll {} cleave deadline {} (Table.opening [20, 3, 1, 5, 6, 4]).tray.source throws
        carry table'.tray.source ∧
      ∀ t ∈ throws, t.pool.ReadFrom t.outcome.metadata.expression := by
  obtain ⟨f, hf, -⟩ := exists_eq_ok_of_any (p := fun _ => true)
    (show (Formula.parse {} "attack:1d20,damage:2d6+3").toOption.any _ = true by decide +kernel)
  obtain ⟨r, hr, -⟩ := exists_eq_ok_of_any (p := fun _ => true)
    (show (execute {} cleave (Table.opening [20, 3, 1, 5, 6, 4])).1.toOption.any _ = true by
      decide +kernel)
  have hread : Engine.formulaOf {} cleave = .ok f := hf
  exact ⟨f, r, _, hf, hread, Prod.ext hr rfl, readFrom_of_execute hf hread (Prod.ext hr rfl)⟩

/-- The attack is a critical hit, so that twice as many dice of damage are rolled. -/
example : (execute {} cleave (Table.opening [20, 3, 1, 5, 6, 4])).1.toOption.map (fun r =>
    r.rolled.map (·.outcome.metadata.expression)) = some ["1d20", "4d6r1r2+3"] := by
  decide +kernel

end Engine

end DiceTower

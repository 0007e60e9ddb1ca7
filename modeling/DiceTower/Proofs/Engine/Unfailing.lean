import DiceTower.Proofs.Engine.Itemised
import DiceTower.Proofs.Play.Fair
import DiceTower.Proofs.Rulebook.Harmless

/-! No modifiers keep a roll from being made. What does not fit its kind, does not apply or comes of a
rule that fails is left out, and what remains can be rolled and counted. -/

namespace DiceTower

open DiceTower.Computation Drawing

namespace Rulebook

variable {b : Rulebook} {c : Context} {kind : RollType} {extra : List Modifier}
  {withCharacter : Bool} {m : Modifier}

theorem settled_of_mem_resolve (h : m ∈ b.resolve c kind extra withCharacter) :
    b.validate m = .ok (some m) ∧ ∀ holds ∈ m.condition, holds c = .ok true := by
  obtain ⟨m₀, hj⟩ := exists_judge_of_mem_resolve h
  exact ⟨validate_of_judge hj, holds_of_judge hj⟩

end Rulebook

namespace Engine

variable {σ : Type} [Source σ] {e : Engine} {d : Definition}

/-- With harmless modifiers and any time, only the source is in the way of a roll. -/
theorem ready_ofSource (hx : ∀ t ∈ e.extraDice, t.Rollable) (hb : e.rulebook.Harmless)
    (hc : d.context.Unscaled) (hm : ∀ m ∈ d.modifiers, m.Harmless) :
    e.Ready σ (Fault.OfSource σ) d none := by
  have hharmless {kind : RollType} {carry : Carry} {m : Modifier}
      (h : m ∈ (e.activeIn d kind carry).1) : m.Harmless :=
    hb.of_mem_resolve hc hm (mem_of_mem_activate h)
  refine ⟨fun sides => drawsWithin_ofSource, hx, fun kind carry => ⟨fun m h => ?_, fun m h hk => ?_,
    fun m h t hk ht => ?_, ?_⟩⟩
  · exact fits_of_mem_activeIn h
  · exact whole_of_mem_activeIn h hk
  · obtain ⟨limits, cs, hp⟩ := (hharmless h).dice t hk ht
    have hrollable : t.Rollable := .of_denotes (Pool.denotes_of_parse hp)
    exact ⟨drawsWithin_ofSource hrollable.sides, fun hn => absurd hrollable.single hn⟩
  · rintro ⟨m, h, hscales⟩
    rw [(hharmless h).scale] at hscales
    cases hscales

theorem ofSource_of_execute_eq_error (hx : ∀ t ∈ e.extraDice, t.Rollable)
    (ht : (e.patience == 0.0) = true) (hb : e.rulebook.Harmless) (hc : d.context.Unscaled)
    (hm : ∀ m ∈ d.modifiers, m.Harmless) {f : Formula} {limits : Limits} {text : String}
    (hf : e.formulaOf d = .ok f) (hp : Formula.parse limits text = .ok f) {fault : Fault}
    {table table' : Table σ} (h : e.execute d table = (.error fault, table')) :
    fault.OfSource σ := by
  obtain ⟨hne, hread⟩ := Formula.readable_of_parse hp
  have hs : ∀ s ∈ f.segments, s.term.Rollable := fun s hmem => by
    obtain ⟨cs, hd⟩ := (hread s hmem).pool
    exact .of_denotes hd
  have hready (started : Float) : e.Ready σ (Fault.OfSource σ) d (e.deadline? started) := by
    rw [deadline?, if_pos ht]
    exact ready_ofSource hx hb hc hm
  have hroll := Ready.shows_roll hready hf hne hs table.tray
  obtain ⟨tray, hr, _⟩ := roll_of_execute_eq_error h
  rw [hr] at hroll
  exact hroll

/-- With a fair source nothing is in the way of a roll. -/
theorem exists_execute_of_fair (hx : ∀ t ∈ e.extraDice, t.Rollable)
    (ht : (e.patience == 0.0) = true) (hb : e.rulebook.Harmless) (hc : d.context.Unscaled)
    (hm : ∀ m ∈ d.modifiers, m.Harmless) {f : Formula} {limits : Limits} {text : String}
    (hf : e.formulaOf d = .ok f) (hp : Formula.parse limits text = .ok f) (hs : Source.Fair σ)
    (table : Table σ) : ∃ r table', e.execute d table = (.ok r, table') := by
  rcases hrun : e.execute d table with ⟨fault | r, table'⟩
  · exact absurd (ofSource_of_execute_eq_error hx ht hb hc hm hf hp hrun) (hs.not_ofSource fault)
  · exact ⟨r, table', rfl⟩

/-- A roll whose notation is read is made, whatever its modifiers are, as long as nothing scales the
total, dice are given as such only if some parser reads them, and every die shows one of its faces.
Rules may fail, and so may conditions. Whatever applies to a roll was checked and its condition
held. -/
theorem made_of_harmless {rules : CriticalRules} {limits limits' : Limits} {rulebook : Rulebook}
    {cap : Int} {patience : Float} (he : build rules limits rulebook cap patience = .ok e)
    (ht : (patience == 0.0) = true) (hb : rulebook.Harmless) (hc : d.context.Unscaled)
    (hm : ∀ m ∈ d.modifiers, m.Harmless) {f : Formula} {text : String}
    (hf : e.formulaOf d = .ok f) (hp : Formula.parse limits' text = .ok f) (hs : Source.Fair σ)
    (table : Table σ) :
    (∃ r table', e.execute d table = (.ok r, table')) ∧
    ∀ c kind extra withCharacter, ∀ m ∈ e.rulebook.resolve c kind extra withCharacter,
      e.rulebook.validate m = .ok (some m) ∧ ∀ holds ∈ m.condition, holds c = .ok true := by
  refine ⟨?_, fun c kind extra withCharacter m => Rulebook.settled_of_mem_resolve⟩
  have hx := rollable_of_extraDice he
  obtain ⟨extra, _, rfl⟩ := map_eq_ok_iff.mp he
  exact exists_execute_of_fair hx ht hb hc hm hf hp hs table

def oddities : List Modifier := [
  { id := "a", name := "A", source := .item, kind := .reroll, amount := .faces [0] },
  { id := "b", name := "B", source := .item, kind := .critRange, amount := .real 19.0 },
  { id := "c", name := "C", source := .item, kind := .minimum, amount := .text "two" },
  { id := "d", name := "D", source := .item, kind := .dice, amount := .text "d" },
  { id := "e", name := "E", source := .item, kind := .extraAttack, amount := .whole (-1) },
  { id := "f", name := "F", source := .item, kind := .replaceDie, amount := .faces [] }]

def oddRules : Rulebook :=
  ((Rulebook.standard {} true true true).register "broken" fun _ _ => .error "out of order").register
    "odd" fun _ _ => .ok oddities

def oddBlow : Definition where
  id := "blow"
  kind := .attack
  wording := .text "attack:1d20,damage:2d6r1"
  modifiers := oddities ++ [
    { id := "g", name := "G", source := .feat, kind := .flat, amount := .whole 3,
      condition := some fun _ => .error "ValueError: no such flag" },
    { id := "h", name := "H", source := .feat, kind := .extraAttack, amount := .whole 2 }]

theorem harmless_oddities : ∀ m ∈ oddities, m.Harmless := by
  simp only [oddities, List.forall_mem_cons, List.not_mem_nil, false_implies, implies_true, and_true]
  refine ⟨?_, ?_, ?_, ?_, ?_, ?_⟩ <;> exact ⟨rfl, nofun⟩

def oddEngine : Engine := { rulebook := oddRules, patience := 0.0 }

theorem made_of_harmless_oddBlow :
    (∃ r table', oddEngine.execute oddBlow
      { tray := { source := seeded 7 }, history := { limit := 50 } } = (.ok r, table')) ∧
    ∀ c kind extra withCharacter, ∀ m ∈ oddEngine.rulebook.resolve c kind extra withCharacter,
      oddEngine.rulebook.validate m = .ok (some m) ∧ ∀ holds ∈ m.condition, holds c = .ok true := by
  have hrules : oddRules.Harmless :=
    ((Rulebook.Harmless.of_isStandard ⟨{}, true, true, true, rfl⟩).register "broken"
      fun _ _ _ h => by cases h).register "odd" fun _ _ _ h => by
        cases h
        exact harmless_oddities
  have hmodifiers : ∀ m ∈ oddBlow.modifiers, m.Harmless := by
    intro m hm
    rcases List.mem_append.mp hm with hm | hm
    · exact harmless_oddities m hm
    · simp only [List.mem_cons, List.not_mem_nil, or_false] at hm
      rcases hm with rfl | rfl <;> exact ⟨rfl, nofun⟩
  obtain ⟨f, hf, -⟩ := exists_eq_ok_of_any (p := fun _ => true)
    (show (Formula.parse {} "attack:1d20,damage:2d6r1").toOption.any _ = true by decide +kernel)
  have hbuilt : build {} {} oddRules 100 0.0 = .ok oddEngine := rfl
  have hread : oddEngine.formulaOf oddBlow = .ok f := hf
  have hunscaled : oddBlow.context.Unscaled := fun _ _ _ => rfl
  exact made_of_harmless hbuilt (by decide +kernel) hrules hunscaled hmodifiers hread hf fair_stdGen _

end Engine

end DiceTower

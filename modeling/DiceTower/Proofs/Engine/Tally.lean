import DiceTower.Engine.Execution
import DiceTower.Proofs.Dice.Lockstep
import DiceTower.Proofs.Engine.Foreseen

/-! A copy of a segment taken apart: first its modifiers and dice are settled, then these are rolled
and counted, and last what was counted is written into an outcome. -/

namespace DiceTower

open DiceTower.Computation Drawing

/-- What the dice and the modifiers of a copy come to. -/
structure Tally where
  items : List Item
  natural : Option Int
  /-- The faces that are critical hits. -/
  faces : List Int
  notes : List String
  id : String

def Tally.Agrees (strict : Prop) (t t' : Tally) : Prop :=
  ∃ id, t' = { t with id } ∧ (strict → t.id = id)

def Carry.criticalDamage (d : Definition) (kind : RollType) (carry : Carry) : Bool :=
  kind.isDamage && (d.criticalHit || carry.critical)

namespace Engine

def rolledTerm (e : Engine) (kind : RollType) (carry : Carry) (plain : Term) : Term :=
  if e.transforms kind carry plain then plain.critical e.rules else plain

def extraDue (e : Engine) (d : Definition) (kind : RollType) (carry : Carry) : Bool :=
  carry.criticalDamage d kind && e.extraDice.isSome && !carry.extraRolled

/-- The outcome and the carry of a copy, of which the modifiers, the dice and the tally are known. -/
def struck (e : Engine) (d : Definition) (s : Segment) (kind : RollType) (carry : Carry)
    (active : List Modifier × List String) (plain : Term) (t : Tally) : Strike :=
  let favoured := s.term.withAdvantage kind active.1
  let doubled := e.transforms kind carry plain
  let term := e.rolledTerm kind carry plain
  let total := Item.counted t.items
  let deciding := if kind = .initiative then none else t.natural
  let hit := isCritical deciding t.faces
  let failure := isCriticalFailure deciding e.rules
  let target := d.context.targetNumber kind
  let success := successOf kind target total hit failure
  { modifiers := active.1
    carry := carryAfter kind hit success { carry with
      used := active.2
      spent := carry.spent || doubled
      extraRolled := carry.extraRolled || e.extraDue d kind carry }
    outcome := {
      total
      items := t.items
      criticalSuccess := hit
      criticalFailure := failure
      success
      target
      natural := t.natural
      metadata := {
        id := t.id
        definitionId := d.id
        name := d.name
        kind
        label := s.label
        expression := term.pool.text
        modifiersApplied := active.1.map (·.name)
        advantage := favoured.advantage
        disadvantage := favoured.disadvantage
        criticalRange := t.faces
        notes := favoured.notes ++
          (if doubled then ["Critical hit: " ++ plain.pool.text ++ " rolled as " ++ term.pool.text]
            else []) ++ t.notes } } }

end Engine

section NotDamage

variable {kind : RollType} (hk : kind.isDamage = false)

include hk

theorem Carry.criticalDamage_of_not_isDamage (d : Definition) (carry : Carry) :
    carry.criticalDamage d kind = false := by
  rw [criticalDamage, hk, Bool.false_and]

theorem Engine.extraDue_of_not_isDamage (e : Engine) (d : Definition) (carry : Carry) :
    e.extraDue d kind carry = false := by
  rw [extraDue, carry.criticalDamage_of_not_isDamage hk, Bool.false_and, Bool.false_and]

theorem Engine.rolledTerm_of_not_isDamage (e : Engine) (carry : Carry) (t : Term) :
    e.rolledTerm kind carry t = t := by
  rw [rolledTerm, transforms, hk]
  rfl

end NotDamage

variable {σ α β : Type} {strict : Prop}

theorem Settled.inStep {x : Noted α} (h : Settled x) :
    InStep strict (Tray.Mirrors strict) Eq (x.inDrawing : Drawing σ α) x.inDrawing := by
  obtain ⟨answer, h⟩ := h
  exact Noted.inStep_inDrawing h h (.of_lift answer)

theorem Roll.Agrees.items_eq {r r' : Roll} (h : r.Agrees r') (origin : Option String) :
    r.items origin = r'.items origin := by
  unfold items
  rw [h.pool, h.dice, h.total_eq]

theorem Roll.Agrees.natural_eq {r r' : Roll} (h : r.Agrees r') (kind : RollType)
    (ms : List Modifier) : r'.natural kind ms =
      (r.natural kind ms).map fun n => { n with roll := { r' with dice := n.roll.dice } } := by
  have hdeciding : r'.deciding? kind = r.deciding? kind := by
    unfold deciding? kept
    rw [h.dice, h.pool]
  unfold natural
  rw [hdeciding]
  split
  · rw [Except.map, h.dice]
  · split
    · rw [Except.map, h.dice]
    · next m _ =>
      cases m.amount.truncated
      · rfl
      · simp only [Except.map, replaced, h.dice]

theorem Roll.eq_of_natural {kind : RollType} {ms : List Modifier} {r : Roll} {n : Natural}
    (h : r.natural kind ms = .ok n) : n.roll = { r with dice := n.roll.dice } := by
  unfold natural at h
  split at h
  · cases h
    rfl
  · split at h
    · cases h
      rfl
    · obtain ⟨_, _, rfl⟩ := map_eq_ok_iff.mp h
      rfl

variable [Source σ] {deadline deadline' : Option Float}

namespace Engine

def tally (e : Engine) (deadline : Option Float) (label : Option String) (kind : RollType)
    (ms : List Modifier) (remarks : List Item) (term : Term) (critical due : Bool) :
    Drawing σ Tally := do
  let rolled ← term.roll deadline e.cap label
  let natural ← rolled.natural kind ms
  let bonuses ← ms.mapM (e.modifierItems deadline critical)
  let extra ← e.extraItems deadline due
  let lines := natural.roll.items none ++ remarks ++ natural.remarks ++ bonuses.flatten ++ extra
  let scaling ← scaleLines (Item.counted lines) ms
  let faces ← (if kind.isAttack then criticalRange e.rules ms else .ok e.rules.range :
    Except Fault (List Int))
  let id ← Drawing.fresh "res"
  pure { items := lines ++ scaling, natural := natural.face, faces, notes := rolled.notes, id }

theorem strike_eq (e : Engine) (d : Definition) (deadline : Option Float) (s : Segment)
    (kind : RollType) (carry : Carry) :
    (e.strike d deadline s kind carry : Drawing σ Strike) = (do
      let critical := carry.criticalDamage d kind
      let active ← (e.activeNoted d kind critical carry.missed carry.used).inDrawing
      let plain ← ((s.term.withAdvantage kind active.1).term.withOperations active.1).inDrawing
      let t ← e.tally deadline s.label kind active.1 (s.term.withAdvantage kind active.1).remarks
        (e.rolledTerm kind carry plain) critical (e.extraDue d kind carry)
      pure (e.struck d s kind carry active plain t)) := by
  unfold strike tally
  simp only [bind_assoc, pure_bind]
  rfl

theorem tally_extra {e : Engine} {label : Option String} {kind : RollType} {ms : List Modifier}
    {remarks : List Item} {term : Term} {critical extra : Bool} :
    (e.tally deadline label kind ms remarks term critical (e.extraDice.isSome && extra) :
      Drawing σ Tally) = e.tally deadline label kind ms remarks term critical extra := by
  have hitems : (e.extraItems deadline (e.extraDice.isSome && extra) : Drawing σ (List Item)) =
      e.extraItems deadline extra := by
    unfold extraItems
    cases e.extraDice <;> cases extra <;> rfl
  rw [tally, hitems]
  rfl

theorem inStep_modifierItems (h : strict → deadline = deadline') (e : Engine) (critical : Bool)
    (m : Modifier) : InStep strict (Tray.Mirrors strict) Eq
      (e.modifierItems deadline critical m : Drawing σ (List Item))
      (e.modifierItems deadline' critical m) := by
  unfold modifierItems
  split
  · exact (InStep.of_lift _).bind_eq fun _ => .of_pure rfl
  · exact (Term.inStep_roll h _ _ _ rfl).bind fun _ _ hr => .of_pure (hr.items_eq _)
  · exact .of_pure rfl

theorem inStep_extraItems (h : strict → deadline = deadline') (e : Engine) (due : Bool) :
    InStep strict (Tray.Mirrors strict) Eq (e.extraItems deadline due : Drawing σ (List Item))
      (e.extraItems deadline' due) := by
  unfold extraItems
  split
  · refine (Term.inStep_roll h _ _ _ rfl).bind fun _ _ hr => .of_pure ?_
    rw [hr.items_eq]
  · exact .of_pure rfl

theorem inStep_tally (h : strict → deadline = deadline') (e : Engine)
    (label label' : Option String) (kind : RollType) (ms : List Modifier) (remarks : List Item)
    {term term' : Term} (hp : term.pool = term'.pool) (critical due : Bool) :
    InStep strict (Tray.Mirrors strict) (Tally.Agrees strict)
      (e.tally deadline label kind ms remarks term critical due : Drawing σ Tally)
      (e.tally deadline' label' kind ms remarks term' critical due) := by
  unfold tally
  refine (Term.inStep_roll h e.cap label label' hp).bind fun rolled rolled' hrolled => ?_
  rw [hrolled.natural_eq]
  refine (InStep.of_lift_map _ _).bind ?_
  rintro natural _ ⟨hn, rfl⟩
  refine (InStep.mapM_eq fun m => inStep_modifierItems h e critical m).bind_eq fun bonuses => ?_
  refine (inStep_extraItems h e due).bind_eq fun extra => ?_
  have hagrees : Roll.Agrees natural.roll { rolled' with dice := natural.roll.dice } :=
    ⟨by rw [Roll.eq_of_natural hn, hrolled.pool], rfl, by rw [Roll.eq_of_natural hn, hrolled.notes]⟩
  rw [← hagrees.items_eq]
  refine (InStep.of_lift _).bind_eq fun scaling => (InStep.of_lift _).bind_eq fun faces => ?_
  refine (inStep_fresh _).bind fun id id' hid => .of_pure ⟨id', ?_, hid⟩
  rw [hrolled.notes]

variable {s s' : Segment} {kind : RollType} {carry carry' : Carry}

def activeIn (e : Engine) (d : Definition) (kind : RollType) (carry : Carry) :
    List Modifier × List String :=
  activate kind (carry.criticalDamage d kind) carry.missed carry.used
    (e.rulebook.resolve d.context kind d.modifiers d.withCharacter)

theorem fits_of_mem_activeIn {e : Engine} {d : Definition} {m : Modifier}
    (h : m ∈ (e.activeIn d kind carry).1) : m.Fits :=
  Rulebook.fits_of_mem_resolve (mem_of_mem_activate h)

theorem whole_of_mem_activeIn {e : Engine} {d : Definition} {m : Modifier}
    (h : m ∈ (e.activeIn d kind carry).1) (hk : m.IsCount) : ∃ n, m.amount = .whole n :=
  Rulebook.whole_of_mem_resolve (mem_of_mem_activate h) hk

/-- Copies with the same modifiers and the same dice are counted alike. -/
theorem inStep_strike {e : Engine} (d d' : Definition) (h : strict → deadline = deadline')
    {Q : Term → Term → Prop}
    (hms : (e.activeIn d kind carry).1 = (e.activeIn d' kind carry').1)
    (hcritical : carry.criticalDamage d kind = carry'.criticalDamage d' kind)
    (hdue : e.extraDue d kind carry = e.extraDue d' kind carry')
    (hremarks : (s.term.withAdvantage kind (e.activeIn d kind carry).1).remarks =
      (s'.term.withAdvantage kind (e.activeIn d' kind carry').1).remarks)
    (hplain : InStep strict (Tray.Mirrors strict) Q
      (((s.term.withAdvantage kind (e.activeIn d kind carry).1).term.withOperations
        (e.activeIn d kind carry).1).inDrawing : Drawing σ Term)
      ((s'.term.withAdvantage kind (e.activeIn d' kind carry').1).term.withOperations
        (e.activeIn d' kind carry').1).inDrawing)
    (hpool : ∀ plain plain', Q plain plain' →
      (e.rolledTerm kind carry plain).pool = (e.rolledTerm kind carry' plain').pool) :
    InStep strict (Tray.Mirrors strict) (fun st st' => ∃ plain plain' t t', Q plain plain' ∧
        t.Agrees strict t' ∧ st = e.struck d s kind carry (e.activeIn d kind carry) plain t ∧
        st' = e.struck d' s' kind carry' (e.activeIn d' kind carry') plain' t')
      (e.strike d deadline s kind carry : Drawing σ Strike)
      (e.strike d' deadline' s' kind carry') := by
  have hactive : InStep strict (Tray.Mirrors strict)
      (fun a a' => a = e.activeIn d kind carry ∧ a' = e.activeIn d' kind carry')
      ((e.activeNoted d kind (carry.criticalDamage d kind) carry.missed carry.used).inDrawing :
        Drawing σ _)
      (e.activeNoted d' kind (carry'.criticalDamage d' kind) carry'.missed carry'.used).inDrawing :=
    Noted.inStep_inDrawing (e.answer_activeNoted d _ _ _ _) (e.answer_activeNoted d' _ _ _ _)
      (.of_pure ⟨rfl, rfl⟩)
  rw [strike_eq, strike_eq]
  refine hactive.bind ?_
  rintro _ _ ⟨rfl, rfl⟩
  refine hplain.bind fun plain plain' hq => ?_
  rw [← hremarks, ← hms, ← hcritical, ← hdue]
  exact (inStep_tally h e _ _ kind _ _ (hpool _ _ hq) _ _).bind fun t t' ht =>
    .of_pure ⟨plain, plain', t, t', hq, ht, rfl, rfl⟩

end Engine

end DiceTower

import DiceTower.Dice.Roller
import DiceTower.Engine.Activation
import DiceTower.Engine.Lines
import DiceTower.Result.Outcome

/-! Rolling one segment. A critical attack is carried into the damage that follows it. -/

namespace DiceTower

/-- What earlier segments leave to later ones. -/
structure Carry where
  /-- The modifiers that apply once and have been used. -/
  used : List String := []
  /-- Whether the last attack was a critical hit. -/
  critical : Bool := false
  /-- Whether dice were doubled for it. -/
  spent : Bool := false
  /-- Whether the extra dice of the rules were rolled. -/
  extraRolled : Bool := false
  /-- Whether the last attack missed. -/
  missed : Bool := false
  deriving DecidableEq, Repr

def Context.targetNumber (c : Context) (kind : RollType) : Option Int :=
  if kind.isAttack then c.target.bind (·.ac)
  else if kind = .deathSave then some ((c.target.bind (·.dc)).getD 10)
  else if kind.isCheck then c.target.bind (·.dc)
  else none

/-- The die whose face is the natural roll: the only one of a roll of twenty-sided dice that counts,
leaving out those that explosions added. -/
def Roll.deciding? (kind : RollType) (r : Roll) : Option Die :=
  match r.kept.filter (!·.exploded) with
  | [d] => if kind.isD20 ∧ r.term.pool.sides = 20 then some d else none
  | _ => none

def Roll.replaced (index : Nat) (face : Int) (r : Roll) : Roll :=
  { r with dice := r.dice.map fun d =>
      if d.index = index then { d with value := face, natural := face } else d }

structure Natural where
  roll : Roll
  face : Option Int
  remarks : List Item := []

/-- The natural face of a roll. The first modifier that replaces it counts. -/
def Roll.natural (kind : RollType) (ms : List Modifier) (r : Roll) : Except Fault Natural :=
  match r.deciding? kind with
  | none => .ok ⟨r, none, []⟩
  | some d => match ms.find? (·.kind = .replaceDie) with
    | none => .ok ⟨r, some d.natural, []⟩
    | some m => m.amount.truncated.map fun n =>
      let face := min n 20
      ⟨r.replaced d.index face, some face, [.remark (m.name ++ ": d20 " ++
        Number.wholeText d.natural ++ " replaced with " ++ Number.wholeText face)]⟩

def Modifier.scaled? (m : Modifier) (total : Int) : Except Fault (Option (Int × String)) :=
  match m.kind, m.amount.scalar? with
  | .multiplier, some s => do
    let n ← Scalar.multiply total s
    let text ← s.text
    .ok (some (n, m.name ++ " (x" ++ text ++ ")"))
  | .divider, some s => do
    let n ← Scalar.divide total s
    let text ← s.text
    .ok (some (n, m.name ++ " (/" ++ text ++ ")"))
  | _, _ => .ok none

def scaleLines (total : Int) : List Modifier → Except Fault (List Item)
  | [] => .ok []
  | m :: ms => do
    match ← m.scaled? total with
    | none => scaleLines total ms
    | some (n, label) =>
      let line : Item := { kind := .modifier, label, value := n - total, origin := some m.source.name }
      let lines ← scaleLines n ms
      .ok (line :: lines)

def Item.asCritical (i : Item) : Item := { i with kind := .critical, label := "Critical " ++ i.label }

def extraCount (ms : List Modifier) : Except Fault Nat := do
  let ns ← (ofKind .extraAttack ms).mapM fun m => m.amount.truncated
  .ok (Number.sum ns).toNat

variable {σ : Type} [Source σ]

namespace Engine

/-- Whether the dice of a segment are changed by a critical attack before it. -/
def transforms (e : Engine) (kind : RollType) (carry : Carry) (t : Term) : Bool :=
  kind.isDamage && carry.critical && !t.pool.isFlat &&
    !(carry.spent && e.rules.affected == .weaponOnly)

/-- The lines that a modifier adds. Its dice are those of a critical hit only where the rules do not
affect the weapon alone. -/
def modifierItems (e : Engine) (deadline : Option Float) (critical : Bool) (m : Modifier) :
    Drawing σ (List Item) :=
  match m.kind, m.amount with
  | .flat, amount => do
    let n ← amount.truncated
    pure [m.item n]
  | .dice, .dice t => do
    let t := if critical && e.rules.affected != .weaponOnly then t.critical e.rules else t
    let roll ← t.roll deadline e.cap (some m.name)
    pure (roll.items (some m.name))
  | _, _ => pure []

def extraItems (e : Engine) (deadline : Option Float) (due : Bool) : Drawing σ (List Item) :=
  match due, e.extraDice with
  | true, some t => do
    let roll ← t.roll deadline e.cap (some "critical")
    pure ((roll.items none).map Item.asCritical)
  | _, _ => pure []

end Engine

/-- Whether a roll succeeds. A critical hit or failure decides an attack or a death save whatever the
total. -/
def successOf (kind : RollType) (target : Option Int) (total : Int) (hit failure : Bool) :
    Option Bool :=
  target.map fun n =>
    if (kind.isAttack || kind == .deathSave) && (hit || failure) then hit else decide (n ≤ total)

/-- One copy of a segment as it was rolled, not yet checked. -/
structure Strike where
  outcome : Outcome
  modifiers : List Modifier
  carry : Carry

namespace Engine

def carryAfter (kind : RollType) (hit : Bool) (success : Option Bool) (carry : Carry) : Carry :=
  if kind.isAttack then
    { carry with critical := hit, spent := false, missed := success == some false }
  else carry

def strike (e : Engine) (d : Definition) (deadline : Option Float) (s : Segment) (kind : RollType)
    (carry : Carry) : Drawing σ Strike := do
  let critical := kind.isDamage && (d.criticalHit || carry.critical)
  let (ms, used) ← (e.activeNoted d kind critical carry.missed carry.used).inDrawing
  let favoured := s.term.withAdvantage kind ms
  let plain ← (favoured.term.withOperations ms).inDrawing
  let doubled := e.transforms kind carry plain
  let term := if doubled then plain.critical e.rules else plain
  let rolled ← term.roll deadline e.cap s.label
  let natural ← rolled.natural kind ms
  let bonuses ← ms.mapM (e.modifierItems deadline critical)
  let due := critical && e.extraDice.isSome && !carry.extraRolled
  let extra ← e.extraItems deadline due
  let lines := natural.roll.items none ++ favoured.remarks ++ natural.remarks ++
    bonuses.flatten ++ extra
  let scaling ← scaleLines (Item.counted lines) ms
  let items := lines ++ scaling
  let total := Item.counted items
  let faces ← (if kind.isAttack then criticalRange e.rules ms else .ok e.rules.range :
    Except Fault (List Int))
  let deciding := if kind = .initiative then none else natural.face
  let hit := isCritical deciding faces
  let failure := isCriticalFailure deciding e.rules
  let target := d.context.targetNumber kind
  let success := successOf kind target total hit failure
  let id ← Drawing.fresh "res"
  pure {
    modifiers := ms
    carry := carryAfter kind hit success
      { carry with used, spent := carry.spent || doubled, extraRolled := carry.extraRolled || due }
    outcome := {
      total
      items
      criticalSuccess := hit
      criticalFailure := failure
      success
      target
      natural := natural.face
      metadata := {
        id
        definitionId := d.id
        name := d.name
        kind
        label := s.label
        expression := term.pool.text
        modifiersApplied := ms.map (·.name)
        advantage := favoured.advantage
        disadvantage := favoured.disadvantage
        criticalRange := faces
        notes := favoured.notes ++
          (if doubled then ["Critical hit: " ++ plain.pool.text ++ " rolled as " ++ term.pool.text]
            else []) ++ rolled.notes } } }

/-- Further copies of an attack. They use up modifiers, and leave nothing else. -/
def copies (e : Engine) (d : Definition) (deadline : Option Float) (s : Segment) (kind : RollType)
    (carry : Carry) : Nat → Drawing σ (List Outcome × List String)
  | 0 => pure ([], carry.used)
  | n + 1 => do
    let copy ← e.strike d deadline s kind carry
    let outcome ← copy.outcome.check
    let (outcomes, used) ← e.copies d deadline s kind { carry with used := copy.carry.used } n
    pure (outcome :: outcomes, used)

/-- A segment with the further copies that modifiers give to an attack. -/
def rollSegment (e : Engine) (d : Definition) (deadline : Option Float) (s : Segment)
    (kind : RollType) (carry : Carry) : Drawing σ (Rolled × Carry) := do
  let main ← e.strike d deadline s kind carry
  let n ← (if kind.isAttack then extraCount main.modifiers else .ok 0 : Except Fault Nat)
  let (extras, used) ← e.copies d deadline s kind main.carry n
  let outcome ← main.outcome.check
  pure (⟨outcome, extras⟩, { main.carry with used })

def rollSegments (e : Engine) (d : Definition) (deadline : Option Float) (carry : Carry) :
    List (Segment × RollType) → Drawing σ (List Rolled)
  | [] => pure []
  | (s, kind) :: segments => do
    let (rolled, carry) ← e.rollSegment d deadline s kind carry
    let rest ← e.rollSegments d deadline carry segments
    pure (rolled :: rest)

end Engine

end DiceTower

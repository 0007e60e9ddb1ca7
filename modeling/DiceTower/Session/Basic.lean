import DiceTower.Engine.Execution
import DiceTower.Session.Weapon

/-! A session at the table: what players ask for, with names and dice for what they leave open. -/

namespace DiceTower

structure Session where
  engine : Engine := {}
  /-- Whether an attack that misses spares the damage roll. -/
  gate : Bool := false

/-- The result of an attack and of the damage after it, if there was any. -/
structure Exchange where
  attack : RollResult
  damage : Option RollResult := none

def Exchange.toData (x : Exchange) : Data := .record [
  ("attack_result", x.attack.toData), ("damage_result", .option RollResult.toData x.damage)]

namespace RollType

def usualDice : RollType → String
  | damage => "1d6"
  | healing => "2d4+2"
  | _ => "1d20"

def title (source : String) : RollType → String
  | attack => source ++ " Attack"
  | damage => source ++ " Damage"
  | skill => source
  | save => source ++ " Save"
  | initiative => "Initiative"
  | deathSave => "Death Save"
  | concentration => "Concentration Save"
  | spellAttack => source ++ " Spell Attack"
  | spellSave => source ++ " Spell Save"
  | healing => source ++ " Healing"
  | ability | raw => ""

def usualName (kind : RollType) (source : String) : String :=
  let title := kind.title source
  String.ofList (Text.trim (if title = "" then kind.name else title).toList)

end RollType

/-- The type that a value names; any other value is taken for a raw roll and leaves a record. -/
def RollType.read (d : Data) : Noted RollType :=
  match RollType.ofData? d with
  | some kind => pure kind
  | none => do
    Noted.note (RollType.unknownRecord d)
    pure .raw

def Wording.ofData : Data → Checked Wording
  | .text s => .good (.text s)
  | .record fs => (Formula.ofData (.record fs)).map .formula
  | _ => .bad []

namespace Context

def usualWording (c : Context) (kind : RollType) : Checked Wording :=
  match kind, c.source.property? "damage" with
  | .damage, some .null => .good (.text kind.usualDice)
  | .damage, some d => Wording.ofData d
  | kind, _ => .good (.text kind.usualDice)

def withWeapon (c : Context) (name : String) : Context :=
  if c.source.kind = .weapon ∧ c.source.name = name then c
  else { c with source := { c.source with kind := .weapon, name } }

def withSkill (c : Context) (name : String) : Context :=
  { c with source := { c.source with kind := .skill, name, tags := ["skill"] } }

def withSave (c : Context) (a : Ability) : Context :=
  { c with source := { c.source with
      kind := .save, name := Text.capitalisedText a.name, ability := some a, tags := ["save"] } }

end Context

/-- A request for a roll. What it leaves open is filled in by `Session.define`. -/
structure Request where
  kind : RollType
  context : Context
  wording : Option Wording := none
  name : Option String := none
  modifiers : List Modifier := []
  withCharacter : Bool := true
  criticalHit : Bool := false

variable {σ : Type}

namespace Request

def define (r : Request) : Drawing σ Definition := do
  let wording ← (match r.wording with
    | some w => .ok w
    | none => (r.context.usualWording r.kind).toExcept : Except Fault Wording)
  let id ← Drawing.fresh r.kind.name
  pure {
    id
    kind := r.kind
    name := (r.name.filter (· ≠ "")).getD (r.kind.usualName r.context.source.name)
    wording
    context := r.context
    modifiers := r.modifiers
    withCharacter := r.withCharacter
    criticalHit := r.criticalHit }

end Request

namespace Session

variable [Source σ]

/-- Previews a roll and makes it. The preview is kept until the roll is done. -/
def direct (s : Session) (d : Definition) : Play σ RollResult := do
  let preview ← (s.engine.analyze d).inPlay
  modify fun table => { table with preview := some preview }
  let result ← s.engine.execute d
  modify fun table => { table with preview := none }
  pure result

def request (s : Session) (r : Request) : Play σ RollResult := do
  let d ← r.define.inPlay
  s.direct d

def attack (s : Session) (weapon : String) (c : Context) (dice : Option String) :
    Play σ RollResult :=
  s.request { kind := .attack, context := c.withWeapon weapon, wording := dice.map .text }

def criticalWording (s : Session) : Wording → Except Fault Wording
  | .text t => (s.engine.criticalDamage t).map .text
  | .formula f => .ok (.formula (f.critical s.engine.rules))

def damage (s : Session) (weapon : String) (c : Context) (dice : Option String) (critical : Bool) :
    Play σ RollResult := do
  let d ← (Request.define
    { kind := .damage, context := c.withWeapon weapon, wording := dice.map .text }).inPlay
  if critical then
    let wording ← (s.criticalWording d.wording : Except Fault Wording)
    s.direct { d with wording, criticalHit := true }
  else s.direct d

def skill (s : Session) (name : String) (c : Context) : Play σ RollResult :=
  s.request { kind := .skill, context := c.withSkill name }

def save (s : Session) (ability : Data) (c : Context) : Play σ RollResult := do
  let a ← (Ability.named ability : Except Fault Ability)
  s.request { kind := .save, context := c.withSave a }

def initiative (s : Session) (c : Context) : Play σ RollResult :=
  s.request { kind := .initiative, context := c }

def deathSave (s : Session) (c : Context) : Play σ RollResult :=
  s.request { kind := .deathSave, context := c }

def healing (s : Session) (c : Context) (dice : Option String) : Play σ RollResult :=
  s.request { kind := .healing, context := c, wording := dice.map .text }

/-- A formula whose labels tell the types of its segments. Without a name it is called by itself. -/
def formula (s : Session) (text : String) (c : Context) (kind : RollType) (name : Option String) :
    Play σ RollResult :=
  s.request {
    kind
    context := c
    wording := some (.text text)
    name := some ((name.filter (· ≠ "")).getD text) }

def attackWithDamage (s : Session) (weapon attack damage : String) (c : Context) :
    Play σ RollResult :=
  s.request {
    kind := .attack
    context := c.withWeapon weapon
    wording := some (.text (attackAndDamage attack damage))
    name := some (weapon ++ " Attack & Damage")
    withCharacter := false }

def missRecord (weapon : String) (o : Outcome) : Record :=
  ⟨.info, .session, weapon ++ " missed (AC " ++ (Data.option .int o.target).shown ++
    "), damage skipped"⟩

def criticalRecord (weapon before after : String) : Record :=
  ⟨.info, .session, "Critical hit with " ++ weapon ++ ": damage " ++ before ++ " -> " ++ after⟩

def damageAfter (s : Session) (weapon damage : String) (c : Context) (attack : Outcome) :
    Play σ RollResult := do
  let changed ← if attack.criticalSuccess then do
      let changed ← (s.engine.criticalDamage damage : Except Fault String)
      (Drawing.note (criticalRecord weapon damage changed)).inPlay
      pure changed
    else pure damage
  let d ← (Request.define {
    kind := .damage
    context := c
    wording := some (.text changed)
    name := some (weapon ++ " Damage")
    withCharacter := false
    criticalHit := attack.criticalSuccess }).inPlay
  s.engine.execute d

/-- An attack and then its damage, which a critical hit changes before it is rolled. The notation of
the damage is read before anything is rolled. -/
def attackThenDamage (s : Session) (weapon attack damage : String) (c : Context)
    (gate : Option Bool) : Play σ Exchange := do
  let c := c.withWeapon weapon
  let _ ← (Formula.parse s.engine.limits damage : Except Fault Formula)
  let d ← (Request.define {
    kind := .attack
    context := c
    wording := some (.text attack)
    name := some (weapon ++ " Attack")
    withCharacter := false }).inPlay
  let attack ← s.engine.execute d
  if gate.getD s.gate && attack.outcome.success == some false then
    (Drawing.note (missRecord weapon attack.outcome)).inPlay
    pure { attack }
  else
    let damage ← s.damageAfter weapon damage c attack.outcome
    pure { attack, damage := some damage }

def useWeapon (s : Session) (w : Weapon) (c : Context) (gate : Option Bool) : Play σ Exchange :=
  let written := w.written c.environment
  s.attackThenDamage w.name written.attack written.damage (w.contextOf c) gate

end Session

end DiceTower

import DiceTower.Modifier.Basic
import DiceTower.Notation.Reading
import DiceTower.Rulebook.Situation

/-! The rules that give modifiers to a roll. A rule looks at the situation and the type of the roll; it
fails with a text if it cannot make up its modifiers. -/

namespace DiceTower

open Text

abbrev Rule := Context → RollType → Except String (List Modifier)

namespace Rule

def dice (limits : Limits) (written : String) : Except String Amount :=
  match Term.parse limits written with
  | .ok t => .ok (.dice t)
  | .error fault => .error fault.message

def ability : Rule := fun c kind => .ok <|
  match c.abilityFor kind with
  | none => []
  | some a =>
    let n := c.character.abilityModifier a
    if n = 0 then []
    else [{
      id := "ability_" ++ lowered a.code
      name := a.code ++ " Modifier"
      description := Number.wholeText (c.character.score a) ++ " " ++ a.code ++ " provides " ++
        String.ofList (Number.withSign n)
      source := .abilityScore
      kind := .flat
      amount := .whole n
      priority := 10 }]

/-- Expertise counts the bonus twice. -/
def proficiency : Rule := fun c kind => .ok <|
  if (kind.isAttack || kind == .skill || kind == .save || kind == .concentration) &&
      c.isProficient kind then
    let bonus := c.character.effectiveProficiencyBonus
    if kind == .skill && c.character.hasExpertiseIn c.source.name then
      [{ id := "expertise_bonus"
         name := "Expertise"
         description := "Double proficiency bonus (" ++ Number.wholeText bonus ++ " x2)"
         source := .expertise
         kind := .flat
         amount := .whole (bonus * 2)
         priority := 20 }]
    else
      [{ id := "proficiency_bonus"
         name := "Proficiency Bonus"
         description := "Level " ++ Number.wholeText c.character.level ++ " proficiency bonus"
         source := .proficiency
         kind := .flat
         amount := .whole bonus
         priority := 20 }]
  else []

def circumstance (id name description : String) (kind : ModifierKind) (priority : Int) : Modifier :=
  { id, name, description, source := .condition, kind, priority }

def givenAdvantage (e : Environment) : List Modifier :=
  (if e.advantage then
    [{ id := "advantage", name := "Advantage", source := .temporary, kind := .advantage,
       priority := 30 }] else []) ++
  if e.disadvantage then
    [{ id := "disadvantage", name := "Disadvantage", source := .temporary, kind := .disadvantage,
       priority := 30 }] else []

/-- A target on the ground is easier to hit from near and harder from afar. -/
def attackAdvantage (c : Context) : List Modifier :=
  (if c.environment.hidden then
    [circumstance "hidden_advantage" "Hidden" "Attack with advantage when hidden" .advantage 30]
    else []) ++
  if c.targetIsProne then
    if c.source.hasTag "ranged" then
      [circumstance "prone_disadvantage" "Target Prone"
        "Ranged attacks have disadvantage against prone targets" .disadvantage 31]
    else
      [circumstance "prone_advantage" "Target Prone"
        "Melee attacks have advantage against prone targets" .advantage 31]
  else []

def advantage : Rule := fun c kind => .ok <|
  if kind.isD20 then
    givenAdvantage c.environment ++ (if kind.isAttack then attackAdvantage c else []) ++
    if c.environment.holds "poisoned" && (kind.isAttack || kind == .skill || kind == .ability) then
      [circumstance "poisoned" "Poisoned" "Disadvantage on attack rolls and ability checks"
        .disadvantage 32]
    else []
  else []

def bless (limits : Limits) : Rule := fun c kind =>
  if c.environment.blessed &&
      (kind.isAttack || kind == .save || kind == .deathSave || kind == .concentration) then do
    let amount ← dice limits "1d4"
    .ok [{
      id := "bless"
      name := "Bless"
      description := "Add 1d4 to attack rolls and saving throws"
      source := .spell
      kind := .dice
      amount
      priority := 50 }]
  else .ok []

def guidance (limits : Limits) : Rule := fun c kind =>
  if c.environment.holds "guidance" && (kind == .skill || kind == .ability) then do
    let amount ← dice limits "1d4"
    .ok [{
      id := "guidance"
      name := "Guidance"
      description := "Add 1d4 to one ability check"
      source := .spell
      kind := .dice
      amount
      priority := 51 }]
  else .ok []

/-- The die of inspiration is the one that the situation names, or one of six sides. -/
def inspiration (limits : Limits) : Rule := fun c kind =>
  if c.environment.inspired && kind.isD20 then do
    let amount ← dice limits <| match c.environment.circumstance "inspiration_die" with
      | .text s => s
      | _ => "1d6"
    .ok [{
      id := "bardic_inspiration"
      name := "Bardic Inspiration"
      description := "Add the Bardic Inspiration die to this roll"
      source := .spell
      kind := .dice
      amount
      timing := .oncePerRest
      appliesTo := some RollType.d20Types
      priority := 52 }]
  else .ok []

/-- Spells stand or fall together. -/
def spells (limits : Limits) : Rule := fun c kind => do
  let blessed ← bless limits c kind
  let guided ← guidance limits c kind
  let inspired ← inspiration limits c kind
  .ok (blessed ++ guided ++ inspired)

def sneakAttack (limits : Limits) : Rule := fun c kind =>
  if (c.character.isClass "rogue" || c.character.hasFeature "sneak attack") && kind.isDamage &&
      c.source.kind == .weapon && (c.source.hasTag "finesse" || c.source.hasTag "ranged") then do
    let written := Number.wholeText ((c.character.level + 1) / 2) ++ "d6"
    let amount ← dice limits written
    .ok [{
      id := "sneak_attack"
      name := "Sneak Attack"
      description := "Add " ++ written ++ " damage when conditions are met"
      source := .classFeature
      kind := .dice
      amount
      condition := some fun c => .ok c.canSneakAttack
      timing := .oncePerTurn
      appliesTo := some [.damage]
      priority := 60 }]
  else .ok []

def agonizingBlast : Rule := fun c kind => .ok <|
  let n := c.character.abilityModifier .charisma
  if (c.character.isClass "warlock" || c.character.hasFeature "agonizing blast") &&
      kind.isDamage && n != 0 then
    [{ id := "agonizing_blast"
       name := "Agonizing Blast"
       description := "Add Charisma modifier to Eldritch Blast damage"
       source := .classFeature
       kind := .flat
       amount := .whole n
       condition := some fun c => .ok c.isEldritchBlast
       timing := .onDamage
       priority := 61 }]
  else []

def criticalThreshold? (c : Character) : Option Int :=
  if c.hasFeature "superior critical" then some 18
  else if holds (lowered (c.subclass.getD "")) "champion" || c.hasFeature "improved critical" then
    some 19
  else none

def improvedCritical : Rule := fun c kind => .ok <|
  match criticalThreshold? c.character with
  | some n =>
    if kind.isAttack then
      [{ id := "improved_critical"
         name := "Improved Critical"
         description := "Critical hit on " ++ Number.wholeText n ++ "-20"
         source := .classFeature
         kind := .critRange
         amount := .whole n
         priority := 40 }]
    else []
  | none => []

/-- Features of classes stand or fall together. -/
def classFeatures (limits : Limits) : Rule := fun c kind => do
  let sneak ← sneakAttack limits c kind
  let blast ← agonizingBlast c kind
  let critical ← improvedCritical c kind
  .ok (sneak ++ blast ++ critical)

/-- The bonus that a property gives, if it is a positive whole number, with its text. A flag counts
as one. -/
def positiveBonus? (d : Data) : Option (Int × String) :=
  match d with
  | .int n => if 0 < n then some (n, d.shown) else none
  | .bool true => some (1, d.shown)
  | _ => none

def equipment : Rule := fun c kind => .ok <|
  match (c.source.property? "magic_bonus").bind positiveBonus? with
  | some (n, shown) =>
    if c.source.kind == .weapon && (kind.isAttack || kind.isDamage) then
      [{ id := "weapon_enhancement"
         name := "+" ++ shown ++ " Weapon"
         description := "Magical weapon enhancement bonus"
         source := .item
         kind := .flat
         amount := .whole n
         priority := 25 }]
    else []
  | none => []

def damageModifier (how name damageType : String) (kind : ModifierKind) (n priority : Int) :
    Modifier := {
  id := lowered name
  name := capitalisedText damageType ++ " " ++ name
  description := "Target is " ++ how ++ " to " ++ damageType ++ " damage"
  source := .condition
  kind
  amount := .whole n
  timing := .onDamage
  priority }

/-- Twice, half or none of the damage, as the target takes its type. -/
def damageTypes : Rule := fun c kind => .ok <|
  match c.target, c.source.property? "damage_type" with
  | some target, some d =>
    if kind.isDamage && d.truthy then
      let damageType := d.asText
      let whenTaken (how : String) (m : Modifier) : List Modifier :=
        if target.hasCondition (how ++ "_" ++ damageType) then [m] else []
      whenTaken "vulnerable"
        (damageModifier "vulnerable" "Vulnerability" damageType .multiplier 2 100) ++
      whenTaken "resistant" (damageModifier "resistant" "Resistance" damageType .divider 2 101) ++
      whenTaken "immune" (damageModifier "immune" "Immunity" damageType .multiplier 0 102)
    else []
  | _, _ => []

/-- How much cover takes from an attack, and its name. -/
def cover? : Data → Option (Int × String)
  | .text "half" => some (2, "Half Cover")
  | .text "three_quarters" => some (5, "Three-Quarters Cover")
  | _ => none

def situational : Rule := fun c kind => .ok <|
  if kind.isAttack then
    (if c.environment.holds "flanking" then
      [circumstance "flanking" "Flanking" "Attack with advantage when flanking" .advantage 35]
      else []) ++
    match cover? (c.environment.circumstance "cover") with
    | some (n, name) => [{
        id := "cover_penalty"
        name
        description := "Target has +" ++ Number.wholeText n ++ " AC from cover"
        source := .condition
        kind := .flat
        amount := .whole (-n)
        priority := 36 }]
    | none => []
  else []

end Rule

end DiceTower

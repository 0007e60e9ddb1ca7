import DiceTower.Data.Keyed
import DiceTower.Modifier.Check
import DiceTower.Modifier.Collapse
import DiceTower.Play.Tray
import DiceTower.Rulebook.Rules

/-! The rules in force at a table, and the modifiers that they give to a roll. Whatever is wrong with
a rule or a modifier takes it out and leaves a record; it never stops the roll. -/

namespace DiceTower

structure Rulebook where
  limits : Limits := {}
  /-- Whether modifiers of the table's own making count. -/
  homebrew : Bool := true
  /-- The rules by name, in the order in which they apply. -/
  rules : List (String × Rule)

namespace Rulebook

/-- The rules that stand for what a character can do; they are left out where the notation already
counts it. -/
def characterRules : List String := ["ability_scores", "proficiency", "equipment"]

/-- The usual rules, those on abilities and on proficiency only if they are wanted. -/
def standard (limits : Limits) (homebrew abilities proficiency : Bool) : Rulebook where
  limits
  homebrew
  rules :=
    (if abilities then [("ability_scores", Rule.ability)] else []) ++
    (if proficiency then [("proficiency", Rule.proficiency)] else []) ++ [
    ("advantage", Rule.advantage), ("spells", Rule.spells limits),
    ("class_features", Rule.classFeatures limits), ("equipment", Rule.equipment),
    ("damage_types", Rule.damageTypes), ("situational", Rule.situational)]

def register (b : Rulebook) (name : String) (rule : Rule) : Rulebook :=
  { b with rules := Keyed.put name rule b.rules }

def unregister (b : Rulebook) (name : String) : Rulebook :=
  { b with rules := Keyed.erase name b.rules }

def names (b : Rulebook) : List String := b.rules.map (·.1)

def answers (b : Rulebook) (c : Context) (kind : RollType) (withCharacter : Bool) :
    List (String × Except String (List Modifier)) :=
  (b.rules.filter fun r => withCharacter || !characterRules.contains r.1).map fun (name, rule) =>
    (name, rule c kind)

def offered (answers : List (String × Except String (List Modifier))) : List Modifier :=
  answers.flatMap fun a => match a.2 with
    | .ok ms => ms
    | .error _ => []

def failures (answers : List (String × Except String (List Modifier))) : List Record :=
  answers.filterMap fun a => match a.2 with
    | .ok _ => none
    | .error text =>
      some ⟨.warning, .resolution, (Fault.badModifier a.1 ("resolver failed: " ++ text)).message⟩

/-- The modifier ready for use; none if it does not count at this table. -/
def validate (b : Rulebook) (m : Modifier) : Except Fault (Option Modifier) :=
  if m.source = .homebrew ∧ b.homebrew = false then .ok none else (m.check b.limits).map some

def ignoredRecord (m : Modifier) : Record :=
  ⟨.info, .resolution, "Homebrew disabled, ignoring modifier " ++ m.id⟩

def validateNoted (b : Rulebook) (m : Modifier) : Noted (Option Modifier) := do
  match ← (b.validate m : Except Fault (Option Modifier)) with
  | some m => pure (some m)
  | none => do
    Noted.note (ignoredRecord m)
    pure none

/-- Whether a modifier applies, and if so in which form. One that is taken out leaves a record. -/
def judge (b : Rulebook) (c : Context) (m : Modifier) : Except Record (Option Modifier) :=
  match b.validate m with
  | .error fault => .error ⟨.warning, .resolution, fault.message⟩
  | .ok none => .error (ignoredRecord m)
  | .ok (some m) => match m.condition with
    | none => .ok (some m)
    | some holds => match holds c with
      | .ok true => .ok (some m)
      | .ok false => .ok none
      | .error text =>
        .error ⟨.warning, .resolution, (Fault.badModifier m.id ("condition raised " ++ text)).message⟩

def applicable (b : Rulebook) (c : Context) (ms : List Modifier) : List Modifier :=
  ms.filterMap fun m => match b.judge c m with
    | .ok m => m
    | .error _ => none

def rejections (b : Rulebook) (c : Context) (ms : List Modifier) : List Record :=
  ms.filterMap fun m => match b.judge c m with
    | .ok _ => none
    | .error r => some r

/-- The modifiers for a roll, those of the rules and further ones, in order of priority. -/
def resolve (b : Rulebook) (c : Context) (kind : RollType) (extra : List Modifier)
    (withCharacter : Bool) : List Modifier :=
  Modifier.collapse (b.applicable c (offered (b.answers c kind withCharacter) ++ extra))

def records (b : Rulebook) (c : Context) (kind : RollType) (extra : List Modifier)
    (withCharacter : Bool) : List Record :=
  let answers := b.answers c kind withCharacter
  failures answers ++ b.rejections c (offered answers ++ extra)

def resolveNoted (b : Rulebook) (c : Context) (kind : RollType) (extra : List Modifier)
    (withCharacter : Bool) : Noted (List Modifier) := do
  (b.records c kind extra withCharacter).forM Noted.note
  pure (b.resolve c kind extra withCharacter)

end Rulebook

end DiceTower

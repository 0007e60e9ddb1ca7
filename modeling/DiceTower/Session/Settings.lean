import DiceTower.Critical.Rules
import DiceTower.Data.Json
import DiceTower.Session.Basic

/-! Settings of a table, read from the variables of its surroundings. -/

namespace DiceTower

open Form

structure Settings where
  logLevel : String := "INFO"
  logFile : Option String := none
  enableColour : Bool := true
  limits : Limits := {}
  cap : Int := 100
  /-- The seconds that a roll may take. -/
  patience : Float := 5.0
  historyLimit : Int := 100
  criticalRange : List Int := [20]
  failureRange : List Int := [1]
  strategy : String := "double_dice"
  affected : String := "weapon_only"
  additionalDice : Option String := none
  homebrew : Bool := true
  abilities : Bool := true
  proficiency : Bool := true
  gate : Bool := false

namespace Settings

def pathParts : List Char → List (List Char)
  | [] => [[]]
  | c :: cs =>
    if c = '/' then [] :: pathParts cs
    else match pathParts cs with
      | part :: parts => (c :: part) :: parts
      | [] => [[c]]

/-- A path in its simplest form: without empty parts and without parts that stay in place. Two slashes
at the start are kept, and more of them count as one. -/
def plainPath (path : String) : String :=
  let cs := path.toList
  let root := match (cs.takeWhile (· == '/')).length with
    | 0 => ""
    | 2 => "//"
    | _ => "/"
  let parts := (pathParts cs).filter fun part => !part.isEmpty && part != ['.']
  let text := root ++ "/".intercalate (parts.map String.ofList)
  if text = "" then "." else text

def folderOf? (path : String) : Option String :=
  match (pathParts path.toList).dropLast with
  | [] => none
  | parts => some (if parts.all (·.isEmpty) then "/" else "/".intercalate (parts.map String.ofList))

/-- The start of the names of variables that are settings. -/
def mark : String := "roll_"

/-- The settings that are lists, written as JSON. -/
def listNames : List String := ["crit_range", "crit_failure_range"]

def given (surroundings : List (String × String)) : List (String × String) :=
  Keyed.ofPairs <| surroundings.filterMap fun (name, value) =>
    let name := Text.lowered name
    if Text.beginsWith mark name then some (String.ofList (name.toList.drop mark.length), value)
    else none

/-- The value of a setting, if it has one: a list is read from its JSON text, where `null` is none. -/
def value? (name text : String) : Except Fault (Option Data) :=
  if listNames.contains name then
    match Json.read? text with
    | some .null => .ok none
    | some d => .ok (some d)
    | none => .error .badSetting
  else .ok (some (.text text))

def values (settings : List (String × String)) : Except Fault (List (String × Data)) := do
  let fs ← settings.mapM fun (name, text) => (value? name text).map (·.map (name, ·))
  .ok (fs.filterMap id)

def ofValues (fs : List (String × Data)) : Checked Settings :=
  (fun level file colour dice sides modifier cap patience limit range failures strategy affected
      additional homebrew abilities proficiency gate =>
    { logLevel := level, logFile := file, enableColour := colour,
      limits := ⟨dice, sides, modifier⟩, cap, patience, historyLimit := limit,
      criticalRange := range, failureRange := failures, strategy, affected,
      additionalDice := additional, homebrew, abilities, proficiency, gate })
  <$> field fs "log_level" text "INFO"
  <*> field fs "log_file" (fun d => (text d).map fun s => some (plainPath s)) none
  <*> field fs "enable_color" flag true
  <*> field fs "max_dice" whole 100
  <*> field fs "max_sides" whole 1000
  <*> field fs "max_modifier" whole 10000
  <*> field fs "explode_cap" whole 100
  <*> field fs "max_execution_time" real 5.0
  <*> field fs "history_limit" whole 100
  <*> field fs "crit_range" (listOf whole) [20]
  <*> field fs "crit_failure_range" (listOf whole) [1]
  <*> field fs "crit_damage_strategy" text "double_dice"
  <*> field fs "crit_affected_dice" text "weapon_only"
  <*> field fs "crit_additional_dice" (fun d => (text d).map some) none
  <*> field fs "enable_homebrew" flag true
  <*> field fs "auto_resolve_abilities" flag true
  <*> field fs "auto_resolve_proficiency" flag true
  <*> field fs "gate_damage_on_hit" flag false

def ofSurroundings (surroundings : List (String × String)) : Except Fault Settings := do
  let fs ← values (given surroundings)
  (ofValues fs).toExcept

def rules (s : Settings) : Except Fault CriticalRules := do
  match DamageStrategy.all.find? (·.name = s.strategy), AffectedDice.all.find? (·.name = s.affected) with
  | some strategy, some affected => .ok {
      range := s.criticalRange
      strategy
      affected
      additionalDice := s.additionalDice
      failureRange := s.failureRange }
  | _, _ => .error (.invalid [])

def rulebook (s : Settings) : Rulebook :=
  Rulebook.standard s.limits s.homebrew s.abilities s.proficiency

/-- A session and its empty history as the settings ask for them, perhaps with other rules. -/
def openSession (s : Settings) (rules : Option CriticalRules) : Except Fault (Session × History) := do
  let rules ← match rules with
    | some rules => .ok rules
    | none => s.rules
  let history ← History.ofLimit s.historyLimit
  let engine ← Engine.build rules s.limits s.rulebook s.cap s.patience
  .ok ({ engine, gate := s.gate }, history)

def toData (s : Settings) : Data := .record [
  ("log_level", .text s.logLevel), ("log_file", .option .text s.logFile),
  ("enable_color", .bool s.enableColour), ("max_dice", .int s.limits.dice),
  ("max_sides", .int s.limits.sides), ("max_modifier", .int s.limits.modifier),
  ("explode_cap", .int s.cap), ("max_execution_time", .float s.patience),
  ("history_limit", .int s.historyLimit), ("crit_range", .ints s.criticalRange),
  ("crit_failure_range", .ints s.failureRange), ("crit_damage_strategy", .text s.strategy),
  ("crit_affected_dice", .text s.affected),
  ("crit_additional_dice", .option .text s.additionalDice),
  ("enable_homebrew", .bool s.homebrew), ("auto_resolve_abilities", .bool s.abilities),
  ("auto_resolve_proficiency", .bool s.proficiency), ("gate_damage_on_hit", .bool s.gate)]

end Settings

end DiceTower

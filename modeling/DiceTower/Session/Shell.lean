import DiceTower.Session.Party
import DiceTower.Session.Settings

/-! Talking to a session in lines of text. -/

namespace DiceTower

inductive Command where
  | help
  | quit
  | history
  | stats
  | clear
  | rapier
  | analyze (text : String)
  | roll (text : String)
  deriving DecidableEq, Repr

namespace Command

/-- The command of a line. What is no other command is notation to roll. -/
def ofLine (line : String) : Command :=
  let cs := Text.trim line.toList
  match Text.lowered (String.ofList cs) with
  | "" => help
  | "quit" | "exit" | "q" => quit
  | "history" => history
  | "stats" => stats
  | "clear" => clear
  | "rapier" => rapier
  | word =>
    if Text.beginsWith "analyze " word then analyze (String.ofList (cs.drop "analyze ".length))
    else roll (String.ofList cs)

end Command

namespace Shell

def greeting : String := "Dice roller ready. Press enter for help."

def prompt : String := "\n> "

def farewell : String := "May your dice roll high!"

def helpText : List String := [
  "Commands:",
  "  <expression>          roll it, e.g. 1d20+5 or attack:1d20+5,damage:1d8+3",
  "  analyze <expression>  preview min/max/average without rolling",
  "  rapier                the sample rogue attacks with a rapier",
  "  history               recent rolls, newest first",
  "  stats                 totals across the roll history",
  "  clear                 forget the roll history",
  "  quit                  leave"]

def itemText (i : Item) : String :=
  i.label ++ " " ++ Number.wholeText i.value ++ if i.dropped then " (dropped)" else ""

def outcomeLine (o : Outcome) : String :=
  let label := (o.metadata.label.filter (· ≠ "")).getD o.metadata.kind.name
  let items := (o.items.filter (·.kind ≠ .condition)).map itemText
  label ++ ": " ++ Number.wholeText o.total ++ " [" ++ ", ".intercalate items ++ "]" ++
    if o.criticalSuccess then " CRITICAL!" else if o.criticalFailure then " FUMBLE" else ""

def resultLines (r : RollResult) : List String :=
  if r.parts.isEmpty then [outcomeLine r.outcome] else r.parts.map fun p => outcomeLine p.outcome

def entryLine (e : Entry) : String :=
  let m := e.result.outcome.metadata
  e.time ++ " " ++ (if m.name = "" then m.expression else m.name) ++ ": " ++
    Number.wholeText e.result.outcome.total

def statisticsLine (s : Statistics) : String :=
  Number.wholeText s.rolls ++ " rolls, average " ++ Number.shortest s.average ++ ", " ++
    Number.wholeText s.criticals ++ " crits, " ++ Number.wholeText s.failures ++ " fumbles"

def previewLines (p : Preview Float) : List String :=
  p.labelRanges.map (fun (label, r) => label ++ ": " ++ Number.wholeText r.min ++ "-" ++
    Number.wholeText r.max ++ " (avg " ++ Number.shortest r.average ++ ")") ++
  p.notes.map ("  " ++ ·)

variable {σ : Type} [Source σ]

def answer (s : Session) : Command → Play σ (List String)
  | .help => pure helpText
  | .quit => pure [farewell]
  | .history => do
    let table ← get
    pure ((table.history.entries.take 10).map entryLine)
  | .stats => do
    let table ← get
    let statistics ← (table.history.statistics : Except Fault Statistics)
    pure [statisticsLine statistics]
  | .clear => do
    modify fun table => { table with history := table.history.clear }
    pure ["History cleared"]
  | .rapier => do
    let x ← s.useWeapon Party.rapier (Party.rogue false) none
    pure (resultLines x.attack ++ match x.damage with
      | some damage => resultLines damage
      | none => [])
  | .analyze text => do
    let d ← (Request.define
      { kind := .raw, context := {}, wording := some (.text text), name := some text }).inPlay
    let preview ← (s.engine.analyze d).inPlay
    pure (previewLines preview)
  | .roll text => do
    let r ← s.formula text {} .raw none
    pure (resultLines r)

/-- The lines to show for a command. A fault that belongs to rolling is told and does no harm. -/
def reply (s : Session) (c : Command) : Play σ (List String) := fun table =>
  match answer s c table with
  | (.error fault, table) => match fault.code? with
    | some code => (.ok ["", "[" ++ code ++ "] " ++ fault.message], table)
    | none => (.error fault, table)
  | (.ok lines, table) => (.ok lines, table)

def printed (lines : List String) : String := String.join (lines.map (· ++ "\n"))

/-- All that is printed in a talk. Nothing in the place of a line is an interruption, which ends the
talk as its end does. -/
def talk (s : Session) : List (Option String) → Play σ String
  | some line :: lines => do
    let command := Command.ofLine line
    let shown ← reply s command
    let text := prompt ++ printed shown
    if command = .quit then pure text
    else do
      let rest ← talk s lines
      pure (text ++ rest)
  | _ => pure (prompt ++ printed [farewell])

end Shell

end DiceTower

import DiceTower.Engine.Outlook
import DiceTower.Engine.Segment
import DiceTower.Play.Table

/-! Making a whole roll: its segments in order, the result, and its place in the history. -/

namespace DiceTower

def distinct (names : List String) : List String :=
  names.foldl (fun kept name => if kept.contains name then kept else kept ++ [name]) []

namespace RollResult

/-- The result of several segments. Its total is that of the last one; success and natural roll are
those of the first segment that has any. -/
def ofParts (d : Definition) (rules : CriticalRules) (formula : Formula) (id : String)
    (parts : List Rolled) (last : Rolled) : RollResult :=
  let outcomes := parts.map (·.outcome)
  let checked := outcomes.find? (·.success.isSome)
  let deciding := outcomes.find? (·.natural.isSome)
  { parts
    extras := parts.flatMap (·.extras)
    outcome := {
      total := last.outcome.total
      items := last.outcome.items
      criticalSuccess := outcomes.any (·.criticalSuccess)
      criticalFailure := outcomes.any (·.criticalFailure)
      success := checked.bind (·.success)
      target := checked.bind (·.target)
      natural := deciding.bind (·.natural)
      metadata := {
        id
        definitionId := d.id
        name := d.name
        kind := d.kind
        expression := formula.text
        modifiersApplied := distinct (outcomes.flatMap (·.metadata.modifiersApplied))
        advantage := outcomes.any (·.metadata.advantage)
        disadvantage := outcomes.any (·.metadata.disadvantage)
        criticalRange := match deciding with
          | some o => o.metadata.criticalRange
          | none => rules.range
        notes := outcomes.flatMap (·.metadata.notes) } } }

def timed (elapsed : Float) (r : RollResult) : RollResult :=
  { r with outcome := { r.outcome with metadata := { r.outcome.metadata with elapsed } } }

end RollResult

def milliseconds (started ended : Float) : Float := Number.roundTo 3 ((ended - started) * 1000.0)

/-- A computation that leaves a record when time runs out. -/
def Drawing.whenLate {σ α : Type} (r : Record) (x : Drawing σ α) : Drawing σ α := fun tray =>
  match x tray with
  | (.error .timeout, tray) => (.error .timeout, { tray with records := r :: tray.records })
  | answer => answer

namespace Engine

variable {σ : Type} [Source σ]

def deadline? (e : Engine) (started : Float) : Option Float :=
  if e.patience == 0.0 then none else some (started + e.patience)

def lateRecord (e : Engine) (d : Definition) (formula : Formula) : Record :=
  ⟨.error, .engine, "Roll " ++ d.id ++ " (" ++ formula.text ++ ") aborted after " ++
    Number.fixed 2 e.patience ++ "s"⟩

def doneRecord (d : Definition) (formula : Formula) (o : Outcome) : Record :=
  ⟨.info, .engine, d.title ++ ": " ++ formula.text ++ " = " ++ Number.wholeText o.total ++
    if o.criticalSuccess then " (critical)" else if o.criticalFailure then " (fumble)" else ""⟩

def assemble (e : Engine) (d : Definition) (formula : Formula) (parts : List Rolled) :
    Drawing σ RollResult :=
  match parts with
  | [] => throw .noSegments
  | [only] => pure ⟨only.outcome, only.extras, []⟩
  | first :: rest => do
    let id ← Drawing.fresh "res"
    pure (.ofParts d e.rules formula id (first :: rest) ((first :: rest).getLastD first))

def roll (e : Engine) (d : Definition) : Drawing σ (Formula × RollResult) := do
  let started ← Drawing.now
  let formula ← e.formulaOf d
  let parts ← (e.rollSegments d (e.deadline? started) {}
    (formula.segments.zip (formula.kinds d.kind))).whenLate (e.lateRecord d formula)
  let result ← e.assemble d formula parts
  let ended ← Drawing.now
  pure (formula, result.timed (milliseconds started ended))

def execute (e : Engine) (d : Definition) : Play σ RollResult := do
  let (formula, result) ← (e.roll d).inPlay
  let id ← (Drawing.fresh "log").inPlay
  Play.remember id result
  (Drawing.note (doneRecord d formula result.outcome)).inPlay
  pure result

end Engine

end DiceTower

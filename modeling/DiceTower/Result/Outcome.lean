import DiceTower.Result.Item
import DiceTower.Sheet.RollType

/-! What came of a roll. -/

namespace DiceTower

/-- How a roll was made. -/
structure Metadata where
  id : String
  definitionId : String
  name : String := ""
  kind : RollType
  label : Option String := none
  expression : String
  modifiersApplied : List String := []
  advantage : Bool := false
  disadvantage : Bool := false
  criticalRange : List Int := []
  notes : List String := []
  /-- How many milliseconds the roll took. -/
  elapsed : Float := 0.0

/-- A total with the lines it is the sum of. -/
structure Outcome where
  total : Int
  items : List Item
  criticalSuccess : Bool := false
  criticalFailure : Bool := false
  /-- Whether the target was met, where there is one. -/
  success : Option Bool := none
  target : Option Int := none
  /-- The face of the die that decides. -/
  natural : Option Int := none
  metadata : Metadata

/-- The outcome of one segment, with those of further copies of an attack. -/
structure Rolled where
  outcome : Outcome
  extras : List Outcome := []

/-- The outcome of a whole roll, with those of its segments where there are several. -/
structure RollResult where
  outcome : Outcome
  extras : List Outcome := []
  parts : List Rolled := []

namespace Metadata

def toData (m : Metadata) : Data := .record [
  ("roll_id", .text m.id), ("definition_id", .text m.definitionId), ("name", .text m.name),
  ("roll_type", .text m.kind.name), ("label", .option .text m.label),
  ("expression", .text m.expression), ("modifiers_applied", .texts m.modifiersApplied),
  ("advantage", .bool m.advantage), ("disadvantage", .bool m.disadvantage),
  ("critical_range", .ints m.criticalRange), ("notes", .texts m.notes),
  ("execution_ms", .float m.elapsed)]

end Metadata

namespace Outcome

/-- The outcome, if it has lines and they add up to its total. -/
def check (o : Outcome) : Except Fault Outcome :=
  if o.items.isEmpty then .error (.invalid ["breakdown must not be empty"])
  else if Item.counted o.items ≠ o.total then
    .error (.invalid ["total " ++ Number.wholeText o.total ++ " does not match breakdown sum " ++
      Number.wholeText (Item.counted o.items)])
  else .ok o

/-- The lines of one kind. -/
def itemsOf (o : Outcome) (kind : ItemKind) : List Item := o.items.filter (·.kind = kind)

def fields (o : Outcome) : List (String × Data) := [
  ("total", .int o.total), ("breakdown", .listing Item.toData o.items),
  ("critical_success", .bool o.criticalSuccess), ("critical_failure", .bool o.criticalFailure),
  ("success", .option .bool o.success), ("target_number", .option .int o.target),
  ("natural_roll", .option .int o.natural), ("metadata", o.metadata.toData)]

/-- The outcome with those that belong to it; a list without any is nothing. -/
def toData (o : Outcome) (extras parts : List Data) : Data :=
  .record (o.fields ++ [("additional_results", listed extras), ("multi_results", listed parts)])
where
  listed (ds : List Data) : Data := if ds.isEmpty then .null else .list ds

/-- The outcome in few words. -/
def brief (o : Outcome) : Data := .record [
  ("total", .int o.total), ("name", .text o.metadata.name), ("type", .text o.metadata.kind.name),
  ("expression", .text o.metadata.expression), ("critical_success", .bool o.criticalSuccess),
  ("critical_failure", .bool o.criticalFailure)]

theorem check_eq_ok_iff {o p : Outcome} :
    o.check = .ok p ↔ p = o ∧ o.items ≠ [] ∧ Item.counted o.items = o.total := by
  unfold check
  by_cases hi : o.items = []
  · simp [hi]
  · by_cases ht : Item.counted o.items = o.total
    · simpa [hi, ht] using ⟨Eq.symm, Eq.symm⟩
    · simp [hi, ht]

end Outcome

def Rolled.toData (r : Rolled) : Data := r.outcome.toData (r.extras.map (·.toData [] [])) []

def RollResult.toData (r : RollResult) : Data :=
  r.outcome.toData (r.extras.map (·.toData [] [])) (r.parts.map (·.toData))

end DiceTower

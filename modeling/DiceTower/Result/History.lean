import DiceTower.Number.Size
import DiceTower.Odds.Chance
import DiceTower.Result.Outcome

/-! The rolls that were made, the newest first. Only so many are kept. -/

namespace DiceTower

structure Entry where
  id : String
  /-- The time of day of the roll. -/
  time : String
  result : RollResult

structure History where
  limit : Nat
  entries : List Entry := []
  length_le : entries.length ≤ limit := by simp

/-- Counts and the average over the rolls that are kept. -/
structure Statistics where
  rolls : Nat := 0
  criticals : Nat := 0
  failures : Nat := 0
  average : Float := 0.0

namespace History

/-- A history that keeps nothing yet. -/
def ofLimit (limit : Int) : Except Fault History :=
  if !isIndex limit then .error .beyondIndex
  else if limit < 0 then .error .negativeLimit
  else .ok { limit := limit.toNat }

/-- The oldest entry makes room for a new one. -/
def append (h : History) (e : Entry) : History :=
  ⟨h.limit, (e :: h.entries).take h.limit, List.length_take_le ..⟩

def clear (h : History) : History := { limit := h.limit }

def results (h : History) : List RollResult := h.entries.map (·.result)

/-- The newest result, of one type if one is given. -/
def last? (h : History) (kind : Option RollType) : Option RollResult :=
  h.results.find? fun r => kind.all (r.outcome.metadata.kind = ·)

/-- The average of some numbers in double precision. -/
def average (ns : List Int) : Option Float :=
  Number.nearest? (Number.sum ns < 0) (Number.sum ns).natAbs ns.length

def statistics (h : History) : Except Fault Statistics :=
  if h.entries.isEmpty then .ok {}
  else match average (h.results.map (·.outcome.total)) with
    | some x => .ok {
        rolls := h.entries.length
        criticals := (h.results.filter (·.outcome.criticalSuccess)).length
        failures := (h.results.filter (·.outcome.criticalFailure)).length
        average := Number.roundTo 2 x }
    | none => .error .quotientTooLarge

theorem entries_append (h : History) (e : Entry) :
    (h.append e).entries = (e :: h.entries).take h.limit := rfl

theorem entries_clear (h : History) : h.clear.entries = [] := rfl

end History

def Statistics.toData (s : Statistics) : Data := .record [
  ("total_rolls", .int s.rolls), ("critical_hits", .int s.criticals),
  ("critical_failures", .int s.failures), ("average_roll", .float s.average)]

end DiceTower

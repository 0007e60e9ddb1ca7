import DiceTower.Fault
import DiceTower.Journal.Record

/-! What dice are rolled with. A source of chance gives a face for each die, and a clock tells when a
roll takes too long. Every draw is written down, so that a roll can be retraced. -/

namespace DiceTower

/-- Where faces come from. A source may give anything; what is no face is refused by `draw`. -/
class Source (σ : Type) where
  next : Int → σ → Data × σ

/-- Computations that only leave records, the newest first. -/
abbrev Noted (α : Type) := ExceptT Fault (StateM (List Record)) α

structure Tray (σ : Type) where
  source : σ
  /-- The readings of the clock, in seconds. -/
  clock : Nat → Float := fun _ => 0.0
  readings : Nat := 0
  /-- The sides of the dice drawn, the newest first. -/
  drawn : List Int := []
  records : List Record := []
  /-- How many names were given out. -/
  serial : Nat := 0

/-- Computations that draw dice. What they did to the tray stays done when they fail. -/
abbrev Drawing (σ : Type) (α : Type) := ExceptT Fault (StateM (Tray σ)) α

namespace Noted

def note (r : Record) : Noted Unit := fun records => (.ok (), r :: records)

def inDrawing {σ α : Type} (x : Noted α) : Drawing σ α := fun tray =>
  let (answer, records) := x tray.records
  (answer, { tray with records })

end Noted

namespace Drawing

variable {σ : Type}

def note (r : Record) : Drawing σ Unit := (Noted.note r).inDrawing

def now : Drawing σ Float := fun tray =>
  (.ok (tray.clock tray.readings), { tray with readings := tray.readings + 1 })

/-- A name that is given out once: a word and a number of eight places. -/
def fresh (word : String) : Drawing σ String := fun tray =>
  (.ok (word ++ "_" ++ String.ofList (Number.paddedDigits 8 tray.serial)),
    { tray with serial := tray.serial + 1 })

def ask [Source σ] (sides : Int) : Drawing σ Data := fun tray =>
  let (value, source) := Source.next sides tray.source
  (.ok value, { tray with source, drawn := sides :: tray.drawn })

def face? (sides : Int) : Data → Option Int
  | .int n => if 1 ≤ n ∧ n ≤ sides then some n else none
  | _ => none

/-- Fails when the clock is past the deadline. -/
def checkTime : Option Float → Drawing σ Unit
  | none => pure ()
  | some deadline => do
    let time ← now
    if deadline < time then throw .timeout

def draw [Source σ] (deadline : Option Float) (sides : Int) : Drawing σ Int := do
  checkTime deadline
  let value ← ask sides
  match face? sides value with
  | some n => pure n
  | none => throw (.badDraw sides value)

theorem face?_eq_some {sides n : Int} {value : Data} (h : face? sides value = some n) :
    1 ≤ n ∧ n ≤ sides := by
  unfold face? at h
  split at h
  · split at h
    · simp_all
    · cases h
  · cases h

end Drawing

end DiceTower

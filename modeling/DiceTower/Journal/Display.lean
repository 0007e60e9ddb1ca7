import DiceTower.Fault
import DiceTower.Text.Part

/-! Showing records as lines, tinted by how severe they are. -/

namespace DiceTower

def levelNames : List (Int × String) := [
  (50, "CRITICAL"), (40, "ERROR"), (30, "WARNING"), (20, "INFO"), (10, "DEBUG"), (0, "NOTSET")]

/-- The name of a level; one between the named ones goes by its number. -/
def levelName (level : Int) : String :=
  (levelNames.lookup level).getD ("Level " ++ Number.wholeText level)

/-- The level that a word names, in any case; an unknown word stands for the usual level. -/
def levelOfName (word : String) : Int :=
  match String.ofList (word.toList.map Text.latinCapital) with
  | "FATAL" => 50
  | "WARN" => 30
  | word => match levelNames.find? (·.2 = word) with
    | some (level, _) => level
    | none => 20

def levelOf : Data → Except Fault Int
  | .text word => .ok (levelOfName word)
  | .int n => .ok n
  | .bool b => .ok (if b then 1 else 0)
  | _ => .error .wrongKind

def tintOf? (level : Int) : Option String :=
  [(10, "36"), (20, "32"), (30, "33"), (40, "31"), (50, "1;31")].lookup level

def tinted (level : Int) (line : String) : String :=
  match tintOf? level with
  | some code => "\x1b[" ++ code ++ "m" ++ line ++ "\x1b[0m"
  | none => line

structure Message where
  name : String
  level : Int
  text : String
  deriving DecidableEq, Repr

structure Display where
  /-- The name of the program; messages of its parts have names that go on after a point. -/
  root : String
  level : Int := 20
  coloured : Bool := true
  /-- Whether messages go into a file as well. -/
  toFile : Bool := false
  deriving DecidableEq, Repr

namespace Display

/-- The level from which on messages are shown; without one it is that of warnings. -/
def threshold (d : Display) : Int := if d.level = 0 then 30 else d.level

def isOwn (d : Display) (m : Message) : Bool :=
  m.name == d.root || Text.beginsWith (d.root ++ ".") m.name

def shows (d : Display) (m : Message) : Bool :=
  d.isOwn m && decide (0 < m.level) && decide (d.threshold ≤ m.level)

def line (time : String) (m : Message) : String :=
  time ++ " - " ++ m.name ++ " - " ++ levelName m.level ++ " - " ++ m.text

/-- What the console shows of a message. Messages of other programs are shown bare, from warnings
on. -/
def console? (d : Display) (time : String) (m : Message) : Option String :=
  if d.shows m then some (if d.coloured then tinted m.level (line time m) else line time m)
  else if !d.isOwn m && decide (30 ≤ m.level) then some m.text
  else none

def file? (d : Display) (time : String) (m : Message) : Option String :=
  if d.toFile && d.shows m then some (line time m) else none

def places (d : Display) : Nat := if d.toFile then 2 else 1

end Display

end DiceTower

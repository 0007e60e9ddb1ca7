import DiceTower.Fault
import DiceTower.Notation.Parser
import DiceTower.Notation.Printer
import DiceTower.Text.Blank

/-! Reading terms and formulas. White space counts for nothing and case only in labels; a flaw is
reported with the text that has it. -/

namespace DiceTower

open DiceTower.Text

namespace Term

/-- The term that a text denotes. It keeps the text without white space, in the case it came in. -/
def parse (limits : Limits) (text : String) : Except Fault Term :=
  match compact text.toList with
  | [] => .error (.badDice text .empty)
  | cs =>
    match Pool.parse limits (lower cs) with
    | .ok pool => .ok ⟨String.ofList cs, pool⟩
    | .error flaw => .error (.badDice (String.ofList cs) flaw)

def build (pool : Pool) : Except Fault Term :=
  if pool.count < 1 ∨ pool.sides < 1 then
    .error (.badDice (Number.wholeText pool.count ++ "d" ++ Number.wholeText pool.sides) .notPositive)
  else .ok (ofPool pool)

end Term

def startsLabel (c : Char) : Bool :=
  ('a' ≤ c && c ≤ 'z') || ('A' ≤ c && c ≤ 'Z') || c == '_'

def inLabel (c : Char) : Bool := startsLabel c || ('0' ≤ c && c ≤ '9')

/-- A label before a colon and the rest of a segment, if it has that form and the rest is not empty. -/
def splitLabel? (cs : List Char) : Option (List Char × List Char) :=
  match cs with
  | [] => none
  | c :: _ =>
    if startsLabel c then
      match cs.dropWhile inLabel with
      | ':' :: d :: rest => some (cs.takeWhile inLabel, d :: rest)
      | _ => none
    else none

def splitCommas : List Char → List (List Char)
  | [] => [[]]
  | c :: cs =>
    if c = ',' then [] :: splitCommas cs
    else match splitCommas cs with
      | part :: parts => (c :: part) :: parts
      | [] => [[c]]

/-- The segment that a part of a formula denotes; `whole` is the text of the formula. -/
def Segment.parse (limits : Limits) (whole : String) (part : List Char) : Except Fault Segment :=
  match compact part with
  | [] => .error (.badDice whole .emptySegment)
  | cs =>
    match splitLabel? cs with
    | some (label, rest) => (Term.parse limits (String.ofList rest)).map fun term =>
        ⟨some (String.ofList label), term⟩
    | none => (Term.parse limits (String.ofList cs)).map fun term => ⟨none, term⟩

namespace Formula

def parse (limits : Limits) (text : String) : Except Fault Formula :=
  match compact text.toList with
  | [] => .error (.badDice text .empty)
  | cs => do
    let segments ← (splitCommas text.toList).mapM (Segment.parse limits text)
    .ok ⟨String.ofList cs, segments⟩

end Formula

theorem splitCommas_ne_nil (cs : List Char) : splitCommas cs ≠ [] := by
  cases cs with
  | nil => simp [splitCommas]
  | cons c cs =>
    unfold splitCommas
    split
    · simp
    · split <;> simp

end DiceTower

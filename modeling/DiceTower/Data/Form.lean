import DiceTower.Data.Numeral
import DiceTower.Fault
import DiceTower.Text.Letter

/-! Reading typed values from data of free form. Readers are generous where a value can only mean one
thing: `"5"` and `5.0` are whole numbers, `"yes"` is a flag. All fields of a record are looked at, so
that the texts of every rule that is broken are reported together. -/

namespace DiceTower

/-- The outcome of a reading. Rules that are broken are gathered; a fault ends the reading. -/
inductive Checked (α : Type) where
  | good (a : α)
  | bad (texts : List String)
  | failed (fault : Fault)

namespace Checked

def map {α β : Type} (f : α → β) : Checked α → Checked β
  | good a => good (f a)
  | bad texts => bad texts
  | failed fault => failed fault

/-- Both readings are done, so the texts of both are reported. -/
def seq {α β : Type} (f : Checked (α → β)) (a : Checked α) : Checked β :=
  match f, a with
  | failed fault, _ => failed fault
  | _, failed fault => failed fault
  | good f, good a => good (f a)
  | good _, bad texts => bad texts
  | bad texts, good _ => bad texts
  | bad texts, bad more => bad (texts ++ more)

instance : Applicative Checked where
  pure := good
  seq f a := seq f (a ())

/-- A second reading that depends on the value of the first. -/
def andThen {α β : Type} (a : Checked α) (f : α → Checked β) : Checked β :=
  match a with
  | good a => f a
  | bad texts => bad texts
  | failed fault => failed fault

def toExcept {α : Type} : Checked α → Except Fault α
  | good a => .ok a
  | bad texts => .error (.invalid texts)
  | failed fault => .error fault

def ofOption {α : Type} : Option α → Checked α
  | some a => good a
  | none => bad []

def each {α β : Type} (f : α → Checked β) : List α → Checked (List β)
  | [] => good []
  | a :: as => seq (map (fun b bs => b :: bs) (f a)) (each f as)

end Checked

namespace Form

open Number Text

/-- A double that is a whole number of at most 63 bits. -/
def wholeOfFloat? (x : Float) : Option Int :=
  match Binary64.ofFloat x with
  | .finite negative m e =>
    let num := m * twoTo e.toNat
    let den := twoTo (-e).toNat
    if num % den = 0 ∧ num / den < twoTo 63 then
      some (if negative then -(num / den : Nat) else (num / den : Nat))
    else none
  | _ => none

def whole : Data → Checked Int
  | .int n => .good n
  | .bool b => .good (if b then 1 else 0)
  | .float x => .ofOption (wholeOfFloat? x)
  | .text s => .ofOption (Numeral.whole? s)
  | _ => .bad []

def real : Data → Checked Float
  | .int n => .ofOption (ofInt? n)
  | .bool b => .good (if b then 1.0 else 0.0)
  | .float x => .good x
  | .text s => .ofOption (Numeral.real? s)
  | _ => .bad []

def flag : Data → Checked Bool
  | .bool b => .good b
  | .int 0 => .good false
  | .int 1 => .good true
  | .float x => if x == 0.0 then .good false else if x == 1.0 then .good true else .bad []
  | .text s =>
    let word := lowered s
    if ["1", "on", "t", "true", "y", "yes"].contains word then .good true
    else if ["0", "off", "f", "false", "n", "no"].contains word then .good false
    else .bad []
  | _ => .bad []

def text : Data → Checked String
  | .text s => .good s
  | _ => .bad []

def any (d : Data) : Checked Data := .good d

def listOf {α : Type} (item : Data → Checked α) : Data → Checked (List α)
  | .list xs => Checked.each item xs
  | _ => .bad []

def fields : Data → Checked (List (String × Data))
  | .record fs => .good fs
  | _ => .bad []

def optional {α : Type} (reader : Data → Checked α) : Data → Checked (Option α)
  | .null => .good none
  | d => (reader d).map some

/-- The value of a type whose values have names. -/
def named {α : Type} (all : List α) (name : α → String) : Data → Checked α
  | .text s => .ofOption (all.find? (name · = s))
  | _ => .bad []

def required {α : Type} (fs : List (String × Data)) (name : String) (reader : Data → Checked α) :
    Checked α :=
  match fs.lookup name with
  | some d => reader d
  | none => .bad []

def field {α : Type} (fs : List (String × Data)) (name : String) (reader : Data → Checked α)
    (absent : α) : Checked α :=
  match fs.lookup name with
  | some d => reader d
  | none => .good absent

end Form

end DiceTower

import DiceTower.Number.Shortest
import DiceTower.Text.Quoted

/-! Values that a character sheet or a source of chance hands over without a fixed type. -/

namespace DiceTower

/-- A value of free form. A number keeps whether it was given as a whole one. -/
inductive Data where
  | null
  | bool (b : Bool)
  | int (n : Int)
  | float (x : Float)
  | text (s : String)
  | list (xs : List Data)
  | record (fields : List (String × Data))
  deriving Inhabited

namespace Data

/-- Whether the value stands for yes when it is used as a flag: nothing, zero and whatever is empty
stand for no. -/
def truthy : Data → Bool
  | null => false
  | bool b => b
  | int n => n != 0
  | float x => x != 0
  | text s => !s.isEmpty
  | list xs => !xs.isEmpty
  | record fields => !fields.isEmpty

mutual

/-- The value as shown in messages, texts in quotation marks. -/
def shown : Data → String
  | null => "None"
  | bool b => if b then "True" else "False"
  | int n => Number.wholeText n
  | float x => Number.shortest x
  | text s => Text.quoted s
  | list xs => "[" ++ ", ".intercalate (shownItems xs) ++ "]"
  | record fields => "\x7b" ++ ", ".intercalate (shownFields fields) ++ "\x7d"

def shownItems : List Data → List String
  | [] => []
  | x :: xs => shown x :: shownItems xs

def shownFields : List (String × Data) → List String
  | [] => []
  | (name, x) :: fields => (Text.quoted name ++ ": " ++ shown x) :: shownFields fields

end

/-- The value as running text: as shown, but a text stands for itself. -/
def asText : Data → String
  | text s => s
  | d => d.shown

def get? (name : String) : Data → Option Data
  | record fields => fields.lookup name
  | _ => none

end Data

end DiceTower

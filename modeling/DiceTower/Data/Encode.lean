import DiceTower.Data.Basic

/-! Short ways to write values of fixed types as data. -/

namespace DiceTower.Data

def option {α : Type} (f : α → Data) : Option α → Data
  | some a => f a
  | none => null

def listing {α : Type} (f : α → Data) (as : List α) : Data := list (as.map f)

def ints (ns : List Int) : Data := listing int ns

def texts (ss : List String) : Data := listing text ss

end DiceTower.Data

import DiceTower.Fault

/-! How large a list may become. -/

namespace DiceTower

def indexLimit : Nat := 9223372036854775807

/-- The most things that are held in memory at once. -/
def memoryLimit : Nat := 4294967296

/-- Whether a whole number, negative ones included, is in the range of an index. -/
def isIndex (n : Int) : Bool := -(indexLimit : Int) ≤ n + 1 && n ≤ indexLimit

/-- The length of a list that is to have so many things, none for a negative number. -/
def roomFor (n : Int) : Except Fault Nat :=
  if indexLimit < n then .error .beyondIndex
  else if memoryLimit < n then .error .beyondMemory
  else .ok n.toNat

end DiceTower

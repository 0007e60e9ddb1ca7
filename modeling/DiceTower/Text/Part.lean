import DiceTower.Text.Letter
import DiceTower.Text.Blank

/-! Texts inside other texts. -/

namespace DiceTower.Text

def beginsWith (part whole : String) : Bool := part.toList.isPrefixOf whole.toList

def endsIn (part whole : String) : Bool := part.toList.isSuffixOf whole.toList

def occursIn (part : List Char) : List Char → Bool
  | [] => part.isEmpty
  | c :: cs => part.isPrefixOf (c :: cs) || occursIn part cs

def holds (whole part : String) : Bool := occursIn part.toList whole.toList

def withoutEnding (ending whole : String) : String :=
  if endsIn ending whole then String.ofList (whole.toList.take (whole.length - ending.length))
  else whole

/-- The text without white space at its ends, in small letters. -/
def cleaned (s : String) : String := String.ofList (lower (trim s.toList))

def sameButCase (s t : String) : Bool := lowered s == lowered t

def capitalisedText (s : String) : String := String.ofList (capitalised s.toList)

def withoutSpaces (s : String) : String := String.ofList (s.toList.filter (· ≠ ' '))

end DiceTower.Text

import DiceTower.Data.Basic
import DiceTower.Notation.Flaw

/-! Everything that can go wrong, as causes with one wording each. -/

namespace DiceTower

inductive Fault where
  /-- A text is not dice notation. -/
  | badDice (cited : String) (flaw : Flaw)
  /-- A modifier's value does not fit its type. -/
  | badModifier (id : String) (reason : String)
  /-- A roll went past its deadline. -/
  | timeout
  /-- The source of chance gave something that is no face of the die. -/
  | badDraw (sides : Int) (value : Data)
  /-- Data does not have the form asked for; the texts are those of the rules of this library. -/
  | invalid (texts : List String)
  /-- A setting that should be JSON text is none. -/
  | badSetting
  | unknownAttribute (name : Data)
  | negativeLimit
  /-- A die without sides was drawn. -/
  | noSides (sides : Int)
  /-- An estimate was asked for dice that can show no face. -/
  | noFaces
  | notNumeral (text : String)
  /-- A whole number is written in more digits than are read. -/
  | tooManyDigits (count : Nat)
  | notANumber
  /-- A whole number is beyond the range of double precision. -/
  | wholeTooLarge
  /-- A quotient is beyond the range of double precision. -/
  | quotientTooLarge
  /-- A size is beyond the range of an index. -/
  | beyondIndex
  /-- A list would be longer than memory holds. -/
  | beyondMemory
  | infinite
  | divisionByZero
  | missingRank
  /-- A value of the wrong kind was compared or converted. -/
  | wrongKind
  /-- A text was needed where none was given. -/
  | notText
  /-- A formula without segments was rolled. -/
  | noSegments
  deriving Inhabited

namespace Fault

def message : Fault → String
  | badDice cited flaw => "Invalid dice expression '" ++ cited ++ "': " ++ flaw.message
  | badModifier id reason => "Modifier '" ++ id ++ "' skipped: " ++ reason
  | timeout => "Roll exceeded its execution time limit"
  | badDraw sides value =>
    "Random source returned " ++ value.shown ++ " for a d" ++ Number.wholeText sides
  | invalid texts => "; ".intercalate texts
  | unknownAttribute name => "Unknown attribute: " ++ name.shown
  | negativeLimit => "maxlen must be non-negative"
  | noFaces => "min() arg is an empty sequence"
  | noSides sides => "empty range for randrange() (1, " ++ Number.wholeText (sides + 1) ++ ", " ++
    Number.wholeText sides ++ ")"
  | notNumeral text => "invalid literal for int() with base 10: " ++
    String.ofList ((Text.quoted text).toList.take 200)
  | tooManyDigits count => "Exceeds the limit (" ++ String.ofList (Number.digits Number.digitLimit) ++
    " digits) for integer string conversion: value has " ++ String.ofList (Number.digits count) ++
    " digits; use sys.set_int_max_str_digits() to increase the limit"
  | notANumber => "cannot convert float NaN to integer"
  | wholeTooLarge => "int too large to convert to float"
  | quotientTooLarge => "integer division result too large for a float"
  | infinite => "cannot convert float infinity to integer"
  | beyondIndex => "Python int too large to convert to C ssize_t"
  | badSetting | divisionByZero | missingRank | beyondMemory | wrongKind | notText | noSegments => ""

/-- The stable code of a fault that belongs to rolling. -/
def code? : Fault → Option String
  | badDice .. => some "DICE_PARSE_ERROR"
  | badModifier .. => some "MODIFIER_ERROR"
  | timeout => some "TIMEOUT"
  | badDraw .. => some "INVALID_RANDOM_VALUE"
  | _ => none

end Fault

end DiceTower

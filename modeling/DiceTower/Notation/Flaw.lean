import DiceTower.Notation.Mark
import DiceTower.Number.Digits

/-! What can be wrong with a text that should be dice notation. -/

namespace DiceTower

inductive Flaw where
  | empty
  | emptySegment
  | numberTooLarge
  | notDice
  | missingSides
  | noDice
  | tooManyDice (limit : Int)
  | noSides
  | tooManySides (limit : Int)
  | modifierTooLarge (limit : Int)
  | unknownOperation (rest : List Char)
  | missingNumber (mark : Mark)
  | missingCount (mark : Mark)
  | missingFace (mark : Mark)
  | missingValue (mark : Mark)
  | faceOutside (token : Token) (sides : Int)
  | secondExplosion
  | clampsCrossed
  | notPositive
  deriving DecidableEq, Repr

open Number in
def Flaw.message : Flaw → String
  | empty => "expression is empty"
  | emptySegment => "empty segment between commas"
  | numberTooLarge => "number too large"
  | notDice => "expected NdS dice notation or a whole number"
  | missingSides => "missing die size after 'd'"
  | noDice => "must roll at least 1 die"
  | tooManyDice limit => "maximum " ++ wholeText limit ++ " dice allowed"
  | noSides => "dice must have at least 1 side"
  | tooManySides limit => "maximum " ++ wholeText limit ++ " sides allowed"
  | modifierTooLarge limit =>
    "modifier must be between -" ++ wholeText limit ++ " and +" ++ wholeText limit
  | unknownOperation rest => "unknown operation '" ++ String.ofList rest ++ "'"
  | missingNumber mark => "'" ++ mark.text ++
    "' must be followed by a whole number; use comma separated segments for extra dice"
  | missingCount mark => "'" ++ mark.text ++ "' needs a count of at least 1"
  | missingFace mark => "'" ++ mark.text ++ "' needs a face value to reroll"
  | missingValue mark => "'" ++ mark.text ++ "' needs a value"
  | faceOutside token sides => "'" ++ token.text ++ "' is outside 1.." ++ wholeText sides
  | secondExplosion => "explode given more than once"
  | clampsCrossed => "minimum is greater than maximum"
  | notPositive => "count and sides must be at least 1"

end DiceTower

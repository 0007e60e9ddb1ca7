import DiceTower.Notation.Form
import DiceTower.Notation.Reading

/-! Reports on texts that may or may not be dice notation. -/

namespace DiceTower

def Data.asNotation : Data → String
  | .null => ""
  | d => d.asText

/-- The outcome of reading a term, with the text that it came from. -/
structure Report where
  text : String
  outcome : Except Flaw Term

namespace Report

/-- A report keeps the value it is about, which must then be a text; a value that stands for nothing
and is no notation is kept as the empty text. -/
def ofData (limits : Limits) (d : Data) : Except Fault Report :=
  let outcome : Except Flaw Term := match Term.parse limits d.asNotation with
    | .ok term => .ok term
    | .error (.badDice _ flaw) => .error flaw
    | .error _ => .error .empty
  match d, outcome with
  | .text s, outcome => .ok ⟨s, outcome⟩
  | d, .error flaw => if d.truthy then .error (.invalid []) else .ok ⟨"", .error flaw⟩
  | _, .ok _ => .error (.invalid [])

def toData (r : Report) : Data := .record [
  ("valid", .bool (match r.outcome with | .ok _ => true | .error _ => false)),
  ("expression", .text r.text),
  ("error", match r.outcome with | .ok _ => .null | .error flaw => .text flaw.message),
  ("dice_expression", match r.outcome with | .ok term => term.toData | .error _ => .null)]

end Report

end DiceTower

import DiceTower.Data.Basic
import DiceTower.Data.Keyed
import DiceTower.Number.Decimal

/-! Reading values from JSON text. The text is cut into tokens, character by character, and the
tokens are put together on a stack of the lists and records that are still open. -/

namespace DiceTower.Json

inductive Token where
  | openList
  | closeList
  | openRecord
  | closeRecord
  | comma
  | colon
  | value (d : Data)

/-- What the characters read so far leave open. Texts are collected as reversed code points. -/
inductive Mode where
  | between
  | word (read : List Char)
  | text (read : List Nat)
  | escape (read : List Nat)
  | hex (read : List Nat) (digits : Nat) (code : Nat)

def joinSurrogates : List Nat → List Char
  | high :: low :: ns =>
    if 0xD800 ≤ high ∧ high < 0xDC00 ∧ 0xDC00 ≤ low ∧ low < 0xE000 then
      Char.ofNat (0x10000 + (high - 0xD800) * 0x400 + (low - 0xDC00)) :: joinSurrogates ns
    else
      (if 0xD800 ≤ high ∧ high < 0xE000 then '\ufffd' else Char.ofNat high) ::
        joinSurrogates (low :: ns)
  | [n] => [if 0xD800 ≤ n ∧ n < 0xE000 then '\ufffd' else Char.ofNat n]
  | [] => []

def textToken (read : List Nat) : Token :=
  .value (.text (String.ofList (joinSurrogates read.reverse)))

/-- Whether a run of digits may stand before the point: no zero leads other digits. -/
def isFront : List Char → Bool
  | ['0'] => true
  | '0' :: _ => false
  | ds => !ds.isEmpty && ds.all Char.isDigit

/-- A number with a fraction or an exponent is not a whole one, whatever its value. -/
def number? (cs : List Char) : Option Data :=
  let (negative, unsigned) := match cs with
    | '-' :: cs => (true, cs)
    | cs => (false, cs)
  let (front, rest) := Number.asciiDigits unsigned
  if !isFront front then none
  else match rest with
    | [] =>
      if Number.digitLimit < front.length then none
      else some (.int (if negative then -(Text.numeral front : Int) else Text.numeral front))
    | '.' :: d :: _ => if d.isDigit then (Number.ofDecimalText? cs).map .float else none
    | ['.'] => none
    | _ => (Number.ofDecimalText? cs).map .float

def word? (cs : List Char) : Option Data :=
  match String.ofList cs with
  | "null" => some .null
  | "true" => some (.bool true)
  | "false" => some (.bool false)
  | "NaN" => some (.float (0.0 / 0.0))
  | "Infinity" => some (.float (1.0 / 0.0))
  | "-Infinity" => some (.float (-1.0 / 0.0))
  | _ => number? cs

def start? (c : Char) : Option (List Token × Mode) :=
  match c with
  | ' ' | '\t' | '\n' | '\r' => some ([], .between)
  | '[' => some ([.openList], .between)
  | ']' => some ([.closeList], .between)
  | '\x7b' => some ([.openRecord], .between)
  | '\x7d' => some ([.closeRecord], .between)
  | ',' => some ([.comma], .between)
  | ':' => some ([.colon], .between)
  | '"' => some ([], .text [])
  | c => if c.isAlphanum || c == '-' then some ([], .word [c]) else none

def inWord (c : Char) : Bool := c.isAlphanum || c == '-' || c == '+' || c == '.'

def escape? : Char → Option Nat
  | '"' => some 34
  | '\\' => some 92
  | '/' => some 47
  | 'b' => some 8
  | 'f' => some 12
  | 'n' => some 10
  | 'r' => some 13
  | 't' => some 9
  | _ => none

def hexValue? (c : Char) : Option Nat :=
  if '0' ≤ c ∧ c ≤ '9' then some (c.toNat - 48)
  else if 'a' ≤ c ∧ c ≤ 'f' then some (c.toNat - 87)
  else if 'A' ≤ c ∧ c ≤ 'F' then some (c.toNat - 55)
  else none

/-- One character: the tokens that it completes, and what is open after it. -/
def step (mode : Mode) (c : Char) : Option (List Token × Mode) :=
  match mode with
  | .between => start? c
  | .word read =>
    if inWord c then some ([], .word (c :: read))
    else do
      let d ← word? read.reverse
      let (tokens, mode) ← start? c
      some (.value d :: tokens, mode)
  | .text read =>
    if c = '"' then some ([textToken read], .between)
    else if c = '\\' then some ([], .escape read)
    else if c.toNat < 32 then none
    else some ([], .text (c.toNat :: read))
  | .escape read =>
    if c = 'u' then some ([], .hex read 0 0)
    else (escape? c).map fun n => ([], .text (n :: read))
  | .hex read digits code =>
    (hexValue? c).map fun v =>
      let code := 16 * code + v
      if digits = 3 then ([], .text (code :: read)) else ([], .hex read (digits + 1) code)

def tokensFrom (mode : Mode) : List Char → Option (List Token)
  | [] => match mode with
    | .between => some []
    | .word read => (word? read.reverse).map fun d => [.value d]
    | _ => none
  | c :: cs => do
    let (tokens, mode) ← step mode c
    let later ← tokensFrom mode cs
    some (tokens ++ later)

inductive Frame where
  | list (reversed : List Data)
  | record (fields : List (String × Data)) (name : String)

/-- What may come next. -/
inductive Expected where
  | value
  | valueOrEnd
  | name
  | nameOrEnd
  | colon (name : String)
  | separator
  | nothing (whole : Data)

def place (d : Data) : List Frame → List Frame × Expected
  | [] => ([], .nothing d)
  | .list reversed :: frames => (.list (d :: reversed) :: frames, .separator)
  | .record fields name :: frames => (.record (Keyed.put name d fields) name :: frames, .separator)

def close (isList : Bool) : List Frame → Option (List Frame × Expected)
  | .list reversed :: frames => if isList then some (place (.list reversed.reverse) frames) else none
  | .record fields _ :: frames => if isList then none else some (place (.record fields) frames)
  | [] => none

def advance (frames : List Frame) (expected : Expected) (token : Token) :
    Option (List Frame × Expected) :=
  match expected, token with
  | .value, .value d | .valueOrEnd, .value d => some (place d frames)
  | .value, .openList | .valueOrEnd, .openList => some (.list [] :: frames, .valueOrEnd)
  | .value, .openRecord | .valueOrEnd, .openRecord => some (.record [] "" :: frames, .nameOrEnd)
  | .valueOrEnd, .closeList => close true frames
  | .name, .value (.text s) | .nameOrEnd, .value (.text s) => some (frames, .colon s)
  | .nameOrEnd, .closeRecord => close false frames
  | .colon name, .colon => match frames with
    | .record fields _ :: frames => some (.record fields name :: frames, .value)
    | _ => none
  | .separator, .comma => match frames with
    | .list _ :: _ => some (frames, .value)
    | .record .. :: _ => some (frames, .name)
    | [] => none
  | .separator, .closeList => close true frames
  | .separator, .closeRecord => close false frames
  | _, _ => none

def assemble (frames : List Frame) (expected : Expected) : List Token → Option Data
  | [] => match expected with
    | .nothing d => some d
    | _ => none
  | token :: tokens => do
    let (frames, expected) ← advance frames expected token
    assemble frames expected tokens

/-- The value that a JSON text denotes. Of fields with one name the last counts. -/
def read? (s : String) : Option Data := do
  let tokens ← tokensFrom .between s.toList
  assemble [] .value tokens

end DiceTower.Json

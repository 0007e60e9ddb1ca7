import DiceTower.Text.Digit

/-! The marks that notation sets between its numbers. -/

namespace DiceTower

inductive Mark where
  | keepHighest
  | keepLowest
  | dropHighest
  | dropLowest
  | rerollUntil
  | reroll
  | minimum
  | maximum
  | explode
  | plus
  | minus
  deriving DecidableEq, Repr

namespace Mark

def chars : Mark → List Char
  | keepHighest => ['k', 'h']
  | keepLowest => ['k', 'l']
  | dropHighest => ['d', 'h']
  | dropLowest => ['d', 'l']
  | rerollUntil => ['r', 'r']
  | reroll => ['r']
  | minimum => ['m', 'i', 'n']
  | maximum => ['m', 'a', 'x']
  | explode => ['!']
  | plus => ['+']
  | minus => ['-']

def text (m : Mark) : String := String.ofList m.chars

/-- The longest mark that a text begins with, and what follows it. -/
def read? : List Char → Option (Mark × List Char)
  | 'k' :: 'h' :: cs => some (keepHighest, cs)
  | 'k' :: 'l' :: cs => some (keepLowest, cs)
  | 'd' :: 'h' :: cs => some (dropHighest, cs)
  | 'd' :: 'l' :: cs => some (dropLowest, cs)
  | 'r' :: 'r' :: cs => some (rerollUntil, cs)
  | 'r' :: cs => some (reroll, cs)
  | 'm' :: 'i' :: 'n' :: cs => some (minimum, cs)
  | 'm' :: 'a' :: 'x' :: cs => some (maximum, cs)
  | '!' :: cs => some (explode, cs)
  | '+' :: cs => some (plus, cs)
  | '-' :: cs => some (minus, cs)
  | _ => none

theorem eq_of_read? {cs rest : List Char} {m : Mark} (h : read? cs = some (m, rest)) :
    cs = m.chars ++ rest := by
  unfold read? at h
  split at h <;> simp_all only [Option.some.injEq, Prod.mk.injEq, reduceCtorEq] <;>
    obtain ⟨rfl, rfl⟩ := h <;> rfl

theorem length_lt_of_read? {cs rest : List Char} {m : Mark} (h : read? cs = some (m, rest)) :
    rest.length < cs.length := by
  rw [eq_of_read? h, List.length_append]
  have : 0 < m.chars.length := by cases m <;> decide
  omega

end Mark

/-- A mark with the digits after it. -/
structure Token where
  mark : Mark
  digits : List Char
  deriving DecidableEq, Repr

namespace Token

open DiceTower.Text

def text (t : Token) : String := String.ofList (t.mark.chars ++ t.digits)

/-- The token that a text begins with, and what follows it. -/
def read? (cs : List Char) : Option (Token × List Char) :=
  (Mark.read? cs).map fun (m, cs) => (⟨m, cs.takeWhile isDigit⟩, cs.dropWhile isDigit)

theorem length_lt_of_read? {cs rest : List Char} {t : Token} (h : read? cs = some (t, rest)) :
    rest.length < cs.length := by
  unfold read? at h
  obtain ⟨⟨m, ds⟩, hm, he⟩ := Option.map_eq_some_iff.1 h
  simp only [Prod.mk.injEq] at he
  obtain ⟨_, rfl⟩ := he
  exact Nat.lt_of_le_of_lt (List.dropWhile_sublist _).length_le (Mark.length_lt_of_read? hm)

end Token

end DiceTower

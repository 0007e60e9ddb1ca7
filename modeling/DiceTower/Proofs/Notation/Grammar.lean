import DiceTower.Proofs.Notation.Bounds
import DiceTower.Proofs.Notation.Digits

/-! The grammar of dice notation, as a relation between texts and the pools that they denote. -/

namespace DiceTower

open Text

/-- A run of one to nine digits, of any script, and the number that it denotes. -/
structure DigitRun (ds : List Char) (n : Int) : Prop where
  ne_nil : ds ≠ []
  isDigit : ∀ c ∈ ds, isDigit c = true
  length_le : ds.length ≤ 9
  value : n = numeral ds

def DigitsOr (usual : Int) (ds : List Char) (n : Int) : Prop := ds = [] ∧ n = usual ∨ DigitRun ds n

inductive Sign : List Char → Int → Prop where
  | none : Sign [] 1
  | plus : Sign ['+'] 1
  | minus : Sign ['-'] (-1)

def Mark.selection? : Mark → Option OperationKind
  | keepHighest => some .keepHighest
  | keepLowest => some .keepLowest
  | dropHighest => some .dropHighest
  | dropLowest => some .dropLowest
  | _ => none

def Mark.bound? : Mark → Option OperationKind
  | minimum => some .minimum
  | maximum => some .maximum
  | _ => none

/-- A mark and the digits after it, with the operations and the number to add that they stand for.
-/
inductive Piece (sides : Int) : Mark → List Char → List Operation → Int → Prop where
  | selection {m kind ds n} : m.selection? = some kind → DigitsOr 1 ds n → 1 ≤ n →
      Piece sides m ds [⟨kind, .one n, false⟩] 0
  | reroll {ds n} : DigitRun ds n → 1 ≤ n → n ≤ sides →
      Piece sides .reroll ds [⟨.reroll, .one n, false⟩] 0
  | rerollUntil {ds n} : DigitRun ds n → 1 ≤ n → n ≤ sides →
      Piece sides .rerollUntil ds [⟨.reroll, .one n, true⟩] 0
  | explodeHighest : Piece sides .explode [] [⟨.explode, .one sides, false⟩] 0
  | explode {ds n} : DigitRun ds n → 1 ≤ n → n ≤ sides →
      Piece sides .explode ds [⟨.explode, .one n, false⟩] 0
  | bound {m kind ds n} : m.bound? = some kind → DigitRun ds n → 1 ≤ n → n ≤ sides →
      Piece sides m ds [⟨kind, .one n, false⟩] 0
  | plus {ds n} : DigitRun ds n → Piece sides .plus ds [] n
  | minus {ds n} : DigitRun ds n → Piece sides .minus ds [] (-n)

/-- What may follow the dice: pieces in any order, their operations in the order of the text and the
sum of the numbers to add. -/
inductive Pieces (sides : Int) : List Char → List Operation → Int → Prop where
  | nil : Pieces sides [] [] 0
  | cons {m ds cs ops ops' n n'} : Piece sides m ds ops n → Pieces sides cs ops' n' →
      Pieces sides (m.chars ++ (ds ++ cs)) (ops ++ ops') (n + n')

/-- Operations that can stand together: one explosion at most, and no minimum above a maximum. -/
structure Compatible (ops : List Operation) : Prop where
  explosions : ops.countP (·.kind = .explode) ≤ 1
  bounds : BoundsAgree ops

/-- The pool that a text without white space and capitals denotes: a number, or dice and what
follows them. -/
inductive Denotes (limits : Limits) : List Char → Pool → Prop where
  | number {sign s ds n} : Sign sign s → DigitRun ds n →
      ((s * n - 1).natAbs : Int) ≤ limits.modifier →
      Denotes limits (sign ++ ds) ⟨1, 1, s * n - 1, []⟩
  | dice {cds sds tail count sides ops n} : DigitsOr 1 cds count → DigitRun sds sides →
      Pieces sides tail ops n → 1 ≤ count → count ≤ limits.dice → 1 ≤ sides →
      sides ≤ limits.sides → (n.natAbs : Int) ≤ limits.modifier → Compatible ops →
      Denotes limits (cds ++ 'd' :: (sds ++ tail)) ⟨count, sides, n, ops⟩

theorem DigitsOr.isDigit {usual n : Int} {ds : List Char} (h : DigitsOr usual ds n) :
    ∀ c ∈ ds, Text.isDigit c = true := by
  rcases h with ⟨rfl, _⟩ | h
  · simp
  · exact h.isDigit

theorem Piece.isDigit {sides n : Int} {m : Mark} {ds : List Char} {ops : List Operation}
    (h : Piece sides m ds ops n) : ∀ c ∈ ds, Text.isDigit c = true := by
  cases h with
  | selection _ h _ => exact h.isDigit
  | explodeHighest => simp
  | reroll h _ _ => exact h.isDigit
  | rerollUntil h _ _ => exact h.isDigit
  | explode h _ _ => exact h.isDigit
  | bound _ h _ _ => exact h.isDigit
  | plus h => exact h.isDigit
  | minus h => exact h.isDigit

theorem Mark.endsDigits_chars_append (m : Mark) (cs : List Char) : EndsDigits (m.chars ++ cs) := by
  cases m <;> exact endsDigits_cons (by decide) _

theorem Pieces.endsDigits {sides n : Int} {cs : List Char} {ops : List Operation}
    (h : Pieces sides cs ops n) : EndsDigits cs := by
  cases h with
  | nil => exact endsDigits_nil
  | cons _ _ => exact Mark.endsDigits_chars_append _ _

theorem Pieces.forall_mem {sides n : Int} {cs : List Char} {ops : List Operation}
    (h : Pieces sides cs ops n) (P : Char → Prop) (hdigit : ∀ c, Text.isDigit c = true → P c)
    (hmark : ∀ m : Mark, ∀ c ∈ m.chars, P c) : ∀ c ∈ cs, P c := by
  induction h with
  | nil => simp
  | @cons m ds cs _ _ _ _ hp _ ih =>
    intro c hc
    simp only [List.mem_append] at hc
    rcases hc with hc | hc | hc
    · exact hmark m c hc
    · exact hdigit c (hp.isDigit c hc)
    · exact ih c hc

theorem Denotes.forall_mem {limits : Limits} {cs : List Char} {p : Pool}
    (h : Denotes limits cs p) (P : Char → Prop) (hdigit : ∀ c, Text.isDigit c = true → P c)
    (hmark : ∀ m : Mark, ∀ c ∈ m.chars, P c) : ∀ c ∈ cs, P c := by
  intro c hc
  cases h with
  | @number sign ds _ _ hs hr =>
    rcases List.mem_append.mp hc with hc | hc
    · cases hs with
      | none => cases hc
      | plus => exact hmark .plus c hc
      | minus => exact hmark .minus c hc
    · exact hdigit c (hr.isDigit c hc)
  | @dice cds sds tail _ _ _ _ hcount hsides ht =>
    simp only [List.mem_append, List.mem_cons] at hc
    rcases hc with hc | rfl | hc | hc
    · exact hdigit c (hcount.isDigit c hc)
    · exact hmark .dropHighest 'd' (by decide)
    · exact hdigit c (hsides.isDigit c hc)
    · exact ht.forall_mem P hdigit hmark c hc

theorem Pieces.append {sides n n' : Int} {cs cs' : List Char} {ops ops' : List Operation}
    (h : Pieces sides cs ops n) (h' : Pieces sides cs' ops' n') :
    Pieces sides (cs ++ cs') (ops ++ ops') (n + n') := by
  induction h with
  | nil => simpa using h'
  | cons hp _ ih => simpa [Int.add_assoc] using Pieces.cons hp ih

theorem Piece.pieces {sides n : Int} {m : Mark} {ds : List Char} {ops : List Operation}
    (h : Piece sides m ds ops n) : Pieces sides (m.chars ++ ds) ops n := by
  simpa using Pieces.cons h .nil

theorem Piece.single {sides n : Int} {m : Mark} {ds : List Char} {ops : List Operation}
    (h : Piece sides m ds ops n) : Single ops := by
  cases h <;> simp [Single]

theorem Pieces.single {sides n : Int} {cs : List Char} {ops : List Operation}
    (h : Pieces sides cs ops n) : Single ops := by
  induction h with
  | nil => simp [Single]
  | cons hp _ ih => exact hp.single.append ih

end DiceTower

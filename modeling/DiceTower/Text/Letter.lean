import DiceTower.Text.LetterTable

/-! Small and initial letters of every script. Case is a matter of context: a Greek sigma that ends
a word has a small form of its own, and some letters have forms written with several letters. -/

namespace DiceTower.Text

/-- Membership in a set given by its bounds: it changes at each bound passed. -/
def within (bounds : List Nat) (c : Char) : Bool := bounds.countP (· ≤ c.toNat) % 2 == 1

/-- The letter that a table of runs gives for a letter, itself outside every run. -/
def shiftBy (runs : List (Nat × Nat × Nat × Int)) (c : Char) : Char :=
  match runs.find? fun (first, last, step, _) =>
      first ≤ c.toNat && c.toNat ≤ last && (c.toNat - first) % step == 0 with
  | some (_, _, _, distance) => Char.ofNat (c.toNat + distance).toNat
  | none => c

def startsWithCased : List Char → Bool
  | [] => false
  | c :: _ => within casedBounds c

/-- A place ends a word when a letter stands before it and none after it, marks passed over. -/
def endsWord (before after : List Char) : Bool :=
  startsWithCased (before.dropWhile (within ignorableBounds)) &&
    !startsWithCased (after.dropWhile (within ignorableBounds))

/-- The small form of a letter between the given texts, the one before it reversed. -/
def smallForm (before : List Char) (c : Char) (after : List Char) : List Char :=
  if c.toNat < 128 then
    if 'A' ≤ c ∧ c ≤ 'Z' then [Char.ofNat (c.toNat + 32)] else [c]
  else if c = 'Σ' then
    if endsWord before after then ['ς'] else ['σ']
  else if c = 'İ' then
    ['i', '\u0307']
  else
    [shiftBy smallForms c]

/-- The small forms of a text that follows the given one, which is reversed. -/
def lowerAfter (before : List Char) : List Char → List Char
  | [] => []
  | c :: cs => smallForm before c cs ++ lowerAfter (c :: before) cs

def lower (cs : List Char) : List Char := lowerAfter [] cs

def initialForm (c : Char) : List Char :=
  if c.toNat < 128 then
    if 'a' ≤ c ∧ c ≤ 'z' then [Char.ofNat (c.toNat - 32)] else [c]
  else
    match initialSpellings.lookup c.toNat with
    | some spelling => spelling.map Char.ofNat
    | none => [shiftBy initialForms c]

def capitalised : List Char → List Char
  | [] => []
  | c :: cs => initialForm c ++ lowerAfter [c] cs

/-- The letter of the Latin capitals that a letter stands for. Besides the small letters these are
the long s and the dotless i. -/
def latinCapital (c : Char) : Char :=
  if 'a' ≤ c ∧ c ≤ 'z' then Char.ofNat (c.toNat - 32)
  else if c = 'ſ' then 'S'
  else if c = 'ı' then 'I'
  else c

def lowered (s : String) : String := String.ofList (lower s.toList)

def isLowerAscii (c : Char) : Bool := c.toNat < 128 && !('A' ≤ c && c ≤ 'Z')

theorem lowerAfter_eq_self {cs : List Char} (h : ∀ c ∈ cs, isLowerAscii c = true)
    (before : List Char) : lowerAfter before cs = cs := by
  induction cs generalizing before with
  | nil => rfl
  | cons c cs ih =>
    have hc := h c (by simp)
    simp only [isLowerAscii, Bool.and_eq_true, decide_eq_true_eq, Bool.not_eq_true',
      Bool.and_eq_false_imp] at hc
    have hf : smallForm before c cs = [c] := by
      unfold smallForm
      rw [if_pos hc.1, if_neg]
      rintro ⟨ha, hz⟩
      have := hc.2 ha
      simp [hz] at this
    rw [lowerAfter, hf, ih fun d hd => h d (by simp [hd])]
    rfl

theorem lower_eq_self {cs : List Char} (h : ∀ c ∈ cs, isLowerAscii c = true) : lower cs = cs :=
  lowerAfter_eq_self h []

end DiceTower.Text

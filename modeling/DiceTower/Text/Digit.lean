/-! Decimal digits. Every script writes its ten digits in one run, from zero to nine, so a digit's
value is its distance from the zero of its run. -/

namespace DiceTower.Text

/-- The zeros of the scripts beyond ASCII that have decimal digits. -/
def digitZeros : List Nat := [
  1632, 1776, 1984, 2406, 2534, 2662, 2790, 2918, 3046, 3174, 3302, 3430, 3558, 3664, 3792, 3872,
  4160, 4240, 6112, 6160, 6470, 6608, 6784, 6800, 6992, 7088, 7232, 7248, 42528, 43216, 43264,
  43472, 43504, 43600, 44016, 65296, 66720, 68912, 69734, 69872, 69942, 70096, 70384, 70736,
  70864, 71248, 71360, 71472, 71904, 72016, 72784, 73040, 73120, 92768, 92864, 93008, 120782,
  120792, 120802, 120812, 120822, 123200, 123632, 125264, 130032]

def digitValue? (c : Char) : Option Nat :=
  if c.toNat < 128 then
    if '0' ≤ c ∧ c ≤ '9' then some (c.toNat - 48) else none
  else
    (digitZeros.find? fun first => first ≤ c.toNat && c.toNat < first + 10).map (c.toNat - ·)

def isDigit (c : Char) : Bool := (digitValue? c).isSome

/-- The number that a run of digits denotes, most significant digit first. -/
def numeral (digits : List Char) : Nat :=
  digits.foldl (fun n c => 10 * n + (digitValue? c).getD 0) 0

theorem digitValue?_lt {c : Char} {d : Nat} (h : digitValue? c = some d) : d < 10 := by
  unfold digitValue? at h
  split at h
  · split at h
    · next hc =>
      obtain ⟨_, h9⟩ := hc
      have h9' : c.toNat ≤ 57 := h9
      simp only [Option.some.injEq] at h
      omega
    · simp at h
  · obtain ⟨first, hf, rfl⟩ := Option.map_eq_some_iff.1 h
    have := List.find?_some hf
    simp only [Bool.and_eq_true, decide_eq_true_eq] at this
    omega

end DiceTower.Text

/-! White space, and texts without it. -/

namespace DiceTower.Text

/-- White space of every script. -/
def isSpace (c : Char) : Bool :=
  let n := c.toNat
  (9 ≤ n && n ≤ 13) || n == 32 || n == 0x85 || n == 0xA0 || n == 0x1680 ||
    (0x2000 ≤ n && n ≤ 0x200A) || n == 0x2028 || n == 0x2029 || n == 0x202F || n == 0x205F ||
    n == 0x3000

def isSeparator (c : Char) : Bool := 28 ≤ c.toNat && c.toNat ≤ 31

def isBlank (c : Char) : Bool := isSpace c || isSeparator c

def compact (cs : List Char) : List Char := cs.filter (!isBlank ·)

def trimBy (p : Char → Bool) (cs : List Char) : List Char :=
  ((cs.dropWhile p).reverse.dropWhile p).reverse

/-- The text without the white space and the separators at its two ends. -/
def trim (cs : List Char) : List Char := trimBy isBlank cs

theorem compact_compact (cs : List Char) : compact (compact cs) = compact cs := by
  simp [compact, List.filter_filter]

theorem compact_append (cs ds : List Char) : compact (cs ++ ds) = compact cs ++ compact ds :=
  List.filter_append ..

theorem compact_eq_self {cs : List Char} (h : ∀ c ∈ cs, isBlank c = false) : compact cs = cs :=
  List.filter_eq_self.2 fun c hc => by simp [h c hc]

/-- Nothing but white space is left out at the ends: the text is empty exactly when compacted it is. -/
theorem compact_eq_nil_iff (cs : List Char) : compact cs = [] ↔ ∀ c ∈ cs, isBlank c = true := by
  simp [compact, List.filter_eq_nil_iff]

end DiceTower.Text

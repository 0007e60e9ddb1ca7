import DiceTower.Play.Tray

/-! A source of chance that goes through the same faces whenever it starts from the same number. -/

namespace DiceTower

/-- A die without sides shows nothing. -/
instance : Source StdGen where
  next sides g :=
    if sides < 1 then (.null, g)
    else
      let (n, g) := randNat g 1 sides.toNat
      (.int n, g)

def seeded (seed : Int) : StdGen := mkStdGen seed.natAbs

def facesFrom (g : StdGen) : List Int → Except Fault (List Data)
  | [] => .ok []
  | n :: sides =>
    if n < 1 then .error (.noSides n)
    else
      let (face, g) := Source.next n g
      (facesFrom g sides).map (face :: ·)

end DiceTower

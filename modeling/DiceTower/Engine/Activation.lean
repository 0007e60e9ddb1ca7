import DiceTower.Engine.Basic
import DiceTower.Result.Item

/-! Which of the modifiers of a roll are active in one of its segments, and what they do to the dice
before these are rolled. -/

namespace DiceTower

/-- Whether a modifier suits a segment: its type, and whether it is the damage of a critical hit. -/
def Modifier.suits (kind : RollType) (critical : Bool) (m : Modifier) : Bool :=
  m.appliesToType kind && (m.timing != .onDamage || kind.isDamage) &&
    (m.timing != .onCritical || critical)

/-- The modifiers that are active among some. One that applies only once is left for later when the
attack has missed, and is not active again once it was; the second list names those that were. -/
def activate (kind : RollType) (critical missed : Bool) (used : List String) :
    List Modifier → List Modifier × List String
  | [] => ([], used)
  | m :: ms =>
    if !m.suits kind critical then activate kind critical missed used ms
    else if m.isOnce then
      if used.contains m.id || (kind.isDamage && missed) then activate kind critical missed used ms
      else
        let (active, used) := activate kind critical missed (m.id :: used) ms
        (m :: active, used)
    else
      let (active, used) := activate kind critical missed used ms
      (m :: active, used)

def ofKind (kind : ModifierKind) (ms : List Modifier) : List Modifier := ms.filter (·.kind = kind)

def Engine.activeNoted (e : Engine) (d : Definition) (kind : RollType) (critical missed : Bool)
    (used : List String) : Noted (List Modifier × List String) := do
  let ms ← e.rulebook.resolveNoted d.context kind d.modifiers d.withCharacter
  pure (activate kind critical missed used ms)

/-- A term as advantage and disadvantage leave it, and what is to be said of them. -/
structure Favoured where
  term : Term
  advantage : Bool := false
  disadvantage : Bool := false
  remarks : List Item := []
  notes : List String := []

/-- A pool with a second die of which the better or the worse is kept. -/
def Pool.doubledFor (advantage : Bool) (p : Pool) : Pool :=
  { p with
    count := 2
    operations := ⟨if advantage then .keepHighest else .keepLowest, .one 1, false⟩ :: p.operations }

/-- A term with the better or the worse of two dice: one twenty-sided die becomes two, and dice
that already are two stay. -/
def Term.favoured (kind : RollType) (advantage : Bool) (label : String) (t : Term) : Favoured :=
  if kind.isD20 ∧ t.pool.count = 1 ∧ t.pool.sides = 20 ∧ !t.pool.operations.any (·.kind.selects) then
    ⟨.ofPool (t.pool.doubledFor advantage), advantage, !advantage, [.remark label], []⟩
  else if if advantage then t.pool.hasAdvantage else t.pool.hasDisadvantage then
    ⟨t, advantage, !advantage, [.remark label], []⟩
  else ⟨t, advantage, !advantage, [], [label ++ " has no effect on " ++ t.pool.text]⟩

/-- Advantage and disadvantage cancel out; either of them alone changes the dice. -/
def Term.withAdvantage (kind : RollType) (ms : List Modifier) (t : Term) : Favoured :=
  let names (k : ModifierKind) : String := ", ".intercalate ((ofKind k ms).map (·.name))
  match (ofKind .advantage ms).isEmpty, (ofKind .disadvantage ms).isEmpty with
  | true, true => { term := t }
  | false, true => t.favoured kind true ("Advantage (" ++ names .advantage ++ ")")
  | true, false => t.favoured kind false ("Disadvantage (" ++ names .disadvantage ++ ")")
  | false, false =>
    let message := "Advantage and disadvantage cancel out"
    { term := t, remarks := [.remark message], notes := [message] }

def unfitRecord (m : Modifier) (reason : String) : Record :=
  ⟨.warning, .engine, (Fault.badModifier m.id reason).message⟩

/-- The operations that a modifier adds to those of a pool. Faces that the die does not have, and
bounds that cross others, are left out. -/
def Modifier.operations (pool : Pool) (added : List Operation) (m : Modifier) :
    Noted (List Operation) :=
  match m.kind.operation? with
  | none => pure []
  | some kind =>
    let faces := m.amount.listedFaces
    if pool.isFlat then pure []
    else if faces.any fun face => decide (pool.sides < face) then do
      Noted.note (unfitRecord m ("face value outside 1.." ++ Number.wholeText pool.sides))
      pure []
    else if kind = .reroll then pure (faces.map fun face => ⟨.reroll, .one face, false⟩)
    else
      let op : List Operation := faces.head?.toList.map fun face => ⟨kind, .one face, false⟩
      match clampsAgree? (pool.operations ++ added ++ op) with
      | some true => pure op
      | some false => do
        Noted.note (unfitRecord m "minimum is greater than maximum")
        pure []
      | none => throw .wrongKind

def Term.withOperations (ms : List Modifier) (t : Term) : Noted Term := do
  let added ← ms.foldlM (fun added m => do
    let ops ← m.operations t.pool added
    pure (added ++ ops)) []
  pure (if added.isEmpty then t
    else .ofPool { t.pool with operations := t.pool.operations ++ added })

end DiceTower

import DiceTower.Engine.Activation
import DiceTower.Engine.Lines
import DiceTower.Result.Preview

/-! The preview of a roll. It draws no dice: it may leave records, and that is all. -/

namespace DiceTower

variable {α : Type} [Chance α]

def Modifier.range? (cap : Int) (m : Modifier) : Except Fault (Option (Range α)) :=
  match m.kind, m.amount with
  | .flat, .whole n =>
    if Chance.holds α n then .ok (some ⟨n, n, Chance.ofInt n⟩) else .error (.invalid [])
  | .dice, .dice t => (estimate t.pool cap).map some
  | _, _ => .ok none

def Modifier.predicted (m : Modifier) : List Item :=
  match m.kind, m.amount with
  | .flat, .whole n => [m.item n]
  | .dice, .dice t => t.predicted (m.name ++ ": ")
  | _, _ => []

def Range.scaledBy (range : Range α) (m : Modifier) : Except Fault (Range α) :=
  match m.kind, m.amount.scalar? with
  | .multiplier, some s => range.scale s (.whole 1)
  | .divider, some s => range.scale (.whole 1) s
  | _, _ => .ok range

/-- Kinds that a preview names as conditions of the roll. -/
def ModifierKind.isCondition : ModifierKind → Bool
  | flat | dice => false
  | _ => true

def withCondition (conditions : List ActiveCondition) (m : Modifier) : List ActiveCondition :=
  if (m.kind.isCondition || m.condition.isSome) && conditions.all (·.id != m.id) then
    conditions ++ [⟨m.id, m.name, m.kind, m.description⟩]
  else conditions

def Modifier.onceNote (m : Modifier) : List String :=
  match m.timing with
  | .oncePerTurn => [m.name ++ " applies once per turn"]
  | .oncePerRest => [m.name ++ " applies once per rest"]
  | _ => []

def areConsecutive : List Int → Bool
  | m :: n :: ns => n == m + 1 && areConsecutive (n :: ns)
  | _ => true

/-- Faces in words: those that follow one another by the first and the last. -/
def describeFaces (faces : List Int) : Except Fault String := do
  let each := ", ".intercalate (faces.map Number.wholeText)
  match faces with
  | first :: second :: rest =>
    let last := (second :: rest).getLastD second
    let _ ← roomFor (last + 1 - first)
    .ok (if areConsecutive faces then Number.wholeText first ++ "-" ++ Number.wholeText last else each)
  | _ => .ok each

structure Outlook (α : Type) where
  /-- How many segments there were. -/
  count : Nat := 0
  items : List Item := []
  conditions : List ActiveCondition := []
  notes : List String := []
  ranges : List (String × Range α) := []
  last : Option (Range α) := none
  used : List String := []
  attacked : Bool := false
  criticalFaces : List Int

def beforeColon (label : Option String) : String :=
  match label.filter (· ≠ "") with
  | some s => s ++ ": "
  | none => ""

/-- The name that a segment goes by: its label or its place. -/
def Segment.key (s : Segment) (index : Nat) : String :=
  (s.label.filter (· ≠ "")).getD ("roll_" ++ String.ofList (Number.digits (index + 1)))

/-- The range of a segment: its dice and what is added, then scaled. -/
def segmentRange (cap : Int) (t : Term) (ms : List Modifier) : Except Fault (Range α) := do
  let own ← estimate t.pool cap
  let added ← ms.mapM (·.range? cap)
  ms.foldlM Range.scaledBy (Range.combine (own :: added.filterMap id))

namespace Engine

/-- What a critical hit would make of the damage, in words. -/
def criticalNote (e : Engine) (t : Term) : List String :=
  if t.pool.isFlat then []
  else ["On a critical hit " ++ t.pool.text ++ " becomes " ++ (t.critical e.rules).pool.text]

def explosionNote (e : Engine) (t : Term) : List String :=
  if t.pool.has .explode then
    ["Exploding dice are estimated with at most " ++ Number.wholeText e.cap ++ " dice"]
  else []

def foresee (e : Engine) (d : Definition) (o : Outlook α) (s : Segment) (kind : RollType) :
    Noted (Outlook α) := do
  let (ms, used) ← e.activeNoted d kind (kind.isDamage && d.criticalHit) false o.used
  let favoured := s.term.withAdvantage kind ms
  let term ← favoured.term.withOperations ms
  let range ← (segmentRange e.cap term ms : Except Fault (Range α))
  let faces ← (if kind.isAttack && !o.attacked then criticalRange e.rules ms
    else .ok o.criticalFaces : Except Fault (List Int))
  pure {
    count := o.count + 1
    items := o.items ++ term.predicted (beforeColon s.label) ++ favoured.remarks ++
      ms.flatMap (·.predicted)
    conditions := ms.foldl withCondition o.conditions
    notes := o.notes ++ favoured.notes ++ ms.flatMap (·.onceNote) ++
      (if kind.isDamage && o.attacked then e.criticalNote term else []) ++ e.explosionNote term
    ranges := Keyed.put (s.key o.count) range o.ranges
    last := some range
    used
    attacked := o.attacked || kind.isAttack
    criticalFaces := faces }

def analyze (e : Engine) (d : Definition) : Noted (Preview α) := do
  let formula ← e.formulaOf d
  let o : Outlook α ← (formula.segments.zip (formula.kinds d.kind)).foldlM
    (fun o s => e.foresee d o s.1 s.2) { criticalFaces := e.rules.range }
  match o.last with
  | none => throw (.invalid [])
  | some range =>
    let remark ← (if o.criticalFaces = [20] then .ok []
      else (describeFaces o.criticalFaces).map fun faces => ["Critical hit on " ++ faces] :
      Except Fault (List String))
    pure {
    definitionId := d.id
    items := o.items
    conditions := o.conditions
    range
    labelRanges := o.ranges
    criticalRange := o.criticalFaces
    failureRange := e.rules.failureRange
    notes := o.notes ++ remark }

end Engine

end DiceTower

import DiceTower.Data.Encode
import DiceTower.Data.Keyed
import DiceTower.Sheet.Ability

/-! A character as it stands on its sheet when a roll is made. -/

namespace DiceTower

open Form Text

structure Character where
  id : String := "anonymous"
  name : Option String := none
  level : Int := 1
  /-- Scores in the order given; abilities that are missing have ten. -/
  abilityScores : List (Ability × Int) := []
  proficiencyBonus : Option Int := none
  /-- Skills by their normal names. -/
  skillProficiencies : List String := []
  savingThrowProficiencies : List Ability := []
  expertise : List String := []
  className : Option String := none
  subclass : Option String := none
  features : List String := []
  /-- Fields that the sheet has beside these. -/
  extras : List (String × Data) := []

namespace Character

def effectiveProficiencyBonus (c : Character) : Int :=
  c.proficiencyBonus.getD ((c.level + 3) / 4 + 1)

def score (c : Character) (a : Ability) : Int := (c.abilityScores.lookup a).getD 10

def abilityModifier (c : Character) (a : Ability) : Int := (c.score a - 10) / 2

def isProficientIn (c : Character) (skill : String) : Bool :=
  c.skillProficiencies.contains (normalizeName skill)

def hasExpertiseIn (c : Character) (skill : String) : Bool :=
  c.expertise.contains (normalizeName skill)

def hasFeature (c : Character) (feature : String) : Bool :=
  c.features.any fun f => normalizeName f == normalizeName feature

def isClass (c : Character) (name : String) : Bool :=
  match c.className with
  | some own => own != "" && holds (lowered own) (lowered name)
  | none => false

/-- Scores under the names of abilities. Of two names of one ability the later counts. -/
def scoresOfData : Data → Checked (List (Ability × Int))
  | .record fs =>
    (Checked.each (fun (name, d) => (Ability.ofData (.text name)).map fun a => (a, d)) fs)
      |> firstText |>.andThen fun named =>
    Checked.each (fun (a, d) => (whole d).map fun n => (a, n)) (Keyed.ofPairs named)
  | _ => .bad []
where
  /-- Reading stops at the first name that is unknown. -/
  firstText {α : Type} : Checked α → Checked α
    | .bad texts => .bad (texts.take 1)
    | c => c

/-- Names of abilities; reading stops at the first one that is unknown. -/
def savesOfData : Data → Checked (List Ability)
  | .list xs => scoresOfData.firstText (Checked.each Ability.ofData xs)
  | _ => .bad []

def skillsOfData : Data → Checked (List String)
  | .list xs => Checked.each (fun d => match d with
    | .text s => .good (normalizeName s)
    | _ => .failed .notText) xs
  | _ => .bad []

def levelOfData (d : Data) : Checked Int :=
  (whole d).andThen fun n => if 1 ≤ n ∧ n ≤ 30 then .good n else .bad []

def fieldNames : List String :=
  ["id", "name", "level", "ability_scores", "proficiency_bonus", "skill_proficiencies",
    "saving_throw_proficiencies", "expertise", "class_name", "subclass", "features"]

def ofData (d : Data) : Checked Character :=
  (fields d).andThen fun fs => Character.mk
    <$> field fs "id" text "anonymous"
    <*> field fs "name" (optional text) none
    <*> field fs "level" levelOfData 1
    <*> field fs "ability_scores" scoresOfData []
    <*> field fs "proficiency_bonus" (optional whole) none
    <*> field fs "skill_proficiencies" skillsOfData []
    <*> field fs "saving_throw_proficiencies" savesOfData []
    <*> field fs "expertise" skillsOfData []
    <*> field fs "class_name" (optional text) none
    <*> field fs "subclass" (optional text) none
    <*> field fs "features" (listOf text) []
    <*> pure (fs.filter fun f => !fieldNames.contains f.1)

def toData (c : Character) : Data := .record ([
  ("id", .text c.id), ("name", .option .text c.name), ("level", .int c.level),
  ("ability_scores", .record (c.abilityScores.map fun (a, n) => (a.code, .int n))),
  ("proficiency_bonus", .option .int c.proficiencyBonus),
  ("skill_proficiencies", .texts c.skillProficiencies),
  ("saving_throw_proficiencies", .texts (c.savingThrowProficiencies.map (·.code))),
  ("expertise", .texts c.expertise), ("class_name", .option .text c.className),
  ("subclass", .option .text c.subclass), ("features", .texts c.features)] ++ c.extras)

end Character

end DiceTower

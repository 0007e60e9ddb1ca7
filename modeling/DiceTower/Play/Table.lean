import DiceTower.Play.Tray
import DiceTower.Result.History
import DiceTower.Result.Preview

/-! What a session keeps from one roll to the next. -/

namespace DiceTower

structure Table (σ : Type) where
  tray : Tray σ
  history : History
  /-- The preview of a roll that was begun and not finished. -/
  preview : Option (Preview Float) := none
  /-- The time of day, for the history. -/
  time : String := ""

abbrev Play (σ : Type) (α : Type) := ExceptT Fault (StateM (Table σ)) α

/-- The computation with what it does to the tray kept at the table. -/
def Drawing.inPlay {σ α : Type} (x : Drawing σ α) : Play σ α := fun table =>
  let (answer, tray) := x table.tray
  (answer, { table with tray })

def Noted.inPlay {σ α : Type} (x : Noted α) : Play σ α := x.inDrawing.inPlay

def Play.remember {σ : Type} (id : String) (result : RollResult) : Play σ Unit := fun table =>
  (.ok (), { table with history := table.history.append ⟨id, table.time, result⟩ })

end DiceTower

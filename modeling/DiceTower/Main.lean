import DiceTower.Dice.Seeded
import DiceTower.Journal.Display
import DiceTower.Session.Shell
import Std.Time.Format

/-! The command line. It reads lines, lets the session answer them and prints the answers. -/

namespace DiceTower.CommandLine

def variableNames : List String := [
  "LOG_LEVEL", "LOG_FILE", "ENABLE_COLOR", "MAX_DICE", "MAX_SIDES", "MAX_MODIFIER", "EXPLODE_CAP",
  "MAX_EXECUTION_TIME", "HISTORY_LIMIT", "CRIT_RANGE", "CRIT_FAILURE_RANGE", "CRIT_DAMAGE_STRATEGY",
  "CRIT_AFFECTED_DICE", "CRIT_ADDITIONAL_DICE", "ENABLE_HOMEBREW", "AUTO_RESOLVE_ABILITIES",
  "AUTO_RESOLVE_PROFICIENCY", "GATE_DAMAGE_ON_HIT"]

def surroundings : IO (List (String × String)) := do
  let values ← variableNames.mapM fun name => do
    let value ← IO.getEnv ("ROLL_" ++ name)
    pure (value.map fun v => ("ROLL_" ++ name, v))
  pure (values.filterMap id)

def twoPlaces (n : Int) : String := String.ofList (Number.paddedDigits 2 n.toNat)

def timeOfDay : IO String := do
  let now ← Std.Time.Timestamp.now
  let seconds := now.toSecondsSinceUnixEpoch.val % 86400
  pure (twoPlaces (seconds / 3600) ++ ":" ++ twoPlaces (seconds / 60 % 60) ++ ":" ++
    twoPlaces (seconds % 60))

def channelName : Channel → String
  | .vocabulary => "dicetower.vocabulary"
  | .resolution => "dicetower.resolution"
  | .dice => "dicetower.dice"
  | .engine => "dicetower.engine"
  | .session => "dicetower.session"

def severityLevel : Severity → Int
  | .info => 20
  | .warning => 30
  | .error => 40

/-- A file that lines are added to, its folder made if there is none. -/
def openFile (path : String) : IO IO.FS.Handle := do
  match Settings.folderOf? path with
  | some folder => IO.FS.createDirAll folder
  | none => pure ()
  IO.FS.Handle.mk path .append

def showRecords (display : Display) (file : Option IO.FS.Handle) (time : String)
    (records : List Record) : IO Unit :=
  records.forM fun r => do
    let message : Message := ⟨channelName r.channel, severityLevel r.severity, r.message⟩
    (display.console? time message).forM IO.eprintln
    match file, display.file? time message with
    | some handle, some line => do
      handle.putStrLn line
      handle.flush
    | _, _ => pure ()

/-- Answers lines until the player leaves; an end of the input is a farewell. -/
partial def loop (session : Session) (display : Display) (file : Option IO.FS.Handle)
    (table : Table StdGen) : IO UInt32 := do
  let stdin ← IO.getStdin
  let stdout ← IO.getStdout
  stdout.putStr Shell.prompt
  stdout.flush
  let line ← stdin.getLine
  let command := if line = "" then .quit else Command.ofLine line
  let time ← timeOfDay
  let (answer, table) := Shell.reply session command { table with time }
  showRecords display file time table.tray.records.reverse
  match answer with
  | .ok lines =>
    stdout.putStr (Shell.printed lines)
    stdout.flush
    if command = .quit then pure 0
    else loop session display file { table with tray := { table.tray with records := [] } }
  | .error fault =>
    IO.eprintln fault.message
    pure 1

def start : IO UInt32 := do
  let given ← surroundings
  let seed ← IO.rand 0 2147483561
  match (do
    let settings ← Settings.ofSurroundings given
    let opened ← settings.openSession none
    pure (settings, opened) : Except Fault (Settings × Session × History)) with
  | .error fault =>
    IO.eprintln fault.message
    pure 1
  | .ok (settings, session, history) => do
    let display : Display :=
      ⟨"dicetower", levelOfName settings.logLevel, settings.enableColour, settings.logFile.isSome⟩
    let file ← settings.logFile.mapM openFile
    showRecords display file (← timeOfDay) [⟨.info, .session, "Starting dice roller"⟩]
    IO.println Shell.greeting
    loop session display file { tray := { source := seeded seed }, history }

end DiceTower.CommandLine

def main : IO UInt32 := DiceTower.CommandLine.start

/-
The command line: a walk through the library under the settings of the directory that
it is called in.

Settings are read from a file of a fixed name, if it is there.  The key for sealing may
come from the environment as well.
-/
import Scorecard.Config.Load
import Scorecard.Walkthrough

namespace Scorecard

/-- The file that settings are looked for in. -/
def settingsFile : String := "surveyscore.yaml"

/-- The value that the environment has for a key where settings have none. -/
def keyName : String := "SURVEYSCORE_SIGNING_KEY"

/-- The values of the environment under some names. -/
def readEnvironment (names : List String) : IO Config.Environment := do
  let values ← names.mapM fun name => do return (name, ← IO.getEnv name)
  return fun name => (values.lookup name).join

/-- The text of the settings, if there are any. -/
def readSettings : IO (Option String) := do
  try
    return some (← IO.FS.readFile settingsFile)
  catch _ =>
    return none

/-- Take the walk, print its lines, and end with its code. -/
def run : IO UInt32 := do
  let text ← readSettings
  let environment ← readEnvironment (keyName :: Config.mentioned (text.getD "").toList)
  match Config.load environment false text with
  | .error e =>
    IO.eprintln e.message
    return 1
  | .ok config =>
    match walkthrough config ((environment keyName).getD "") with
    | .error f =>
      IO.eprintln (f.message?.getD "The example cannot be scored")
      return 1
    | .ok walk =>
      for line in walk.lines do
        IO.println line
      return UInt32.ofNat walk.code

end Scorecard

/-- The program. -/
def main : IO UInt32 :=
  Scorecard.run

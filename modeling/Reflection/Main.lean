import Reflection.CommandLine
/-!
# The command

The compiler as a command that works on files.
-/

open Reflection

/-- The wording of a system error. -/
def systemMessage : IO.Error → String
  | .noFileOrDirectory _ code details => s!"{details} (os error {code.toNat})"
  | .inappropriateType _ code details => s!"{details} (os error {code.toNat})"
  | .alreadyExists _ code details => s!"{details} (os error {code.toNat})"
  | .permissionDenied _ code details => s!"{details} (os error {code.toNat})"
  | e => toString e

/-- The result of an action, or the wording of its error. -/
def attempt {α : Type} (action : IO α) : IO (Except String α) := do
  try
    return .ok (← action)
  catch e => return .error (systemMessage e)

/-- The text of a file. -/
def readText (path : String) : IO (Except String String) := do
  match ← attempt (IO.FS.readBinFile path) with
  | .error e => return .error e
  | .ok bytes =>
    match String.fromUTF8? bytes with
    | some text => return .ok text
    | none => return .error "stream did not contain valid UTF-8"

/-- The actions of a run on the files of the system. -/
def systemStorage : Storage IO where
  read := readText
  createFolders path := attempt (IO.FS.createDirAll path)
  write path text := attempt (IO.FS.writeFile path text)
  print text := attempt do (← IO.getStdout).putStr text

/-- Compiles the files given as arguments. -/
def main (args : List String) : IO UInt32 := do
  match CommandLine.parse args with
  | .error .version =>
    (← IO.getStdout).putStr CommandLine.versionText
    return 0
  | .error .usage =>
    (← IO.getStderr).putStrLn "usage: horizon-moc [OPTIONS] <INPUTS>..."
    return 2
  | .ok a =>
    let report ← Batch.run systemStorage (a.options (← IO.getEnv "HORIZON_MOC_GUARD")) a.inputs
    for line in CommandLine.messages report do
      (← IO.getStderr).putStrLn line
    return UInt32.ofNat report.exitCode

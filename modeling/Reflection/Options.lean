import Reflection.Path
/-!
# Compiler options

What a run of the compiler can be told, and the names that follow from it for each input.
-/

namespace Reflection

/-- The form in which an artifact is written. -/
inductive OutputFormat where
  /-- The JSON text itself. -/
  | json
  /-- A source module that holds the JSON text and registers it. -/
  | rust
deriving DecidableEq, Repr, Inhabited

/-- The extension of files in a format. -/
def OutputFormat.extension : OutputFormat → String
  | .json => "json"
  | .rust => "rs"

/-- The options of a run. -/
structure Options where
  /-- The output file of a single input, or the output folder of several. Without it artifacts go
  to the standard output. -/
  output : Option String := none
  /-- The guard of a single input, or what the guards of several start with. -/
  guard : Option String := none
  /-- Are notes reported? -/
  notes : Bool := true
  format : OutputFormat := .json
deriving DecidableEq, Repr, Inhabited

namespace Options

/-- The stem of a file's name in capital letters, with an underscore for all but ASCII letters and
digits. -/
def guardStem (input : String) : String :=
  String.ofList (((Path.stem? input).getD "").toList.map fun c =>
    if c.isAlphanum then c.toUpper else '_')

/-- The guard of an input's artifact in a batch of `count` inputs. -/
def guardFor (o : Options) (count : Nat) (input : String) : String :=
  match o.guard with
  | some guard => if count = 1 then guard else guard ++ "_" ++ guardStem input
  | none => guardStem input

/-- The file that an input's artifact is written to in a batch of `count` inputs; none for the
standard output. -/
def outputFor (o : Options) (count : Nat) (input : String) : Option String :=
  o.output.map fun output =>
    if count = 1 then output
    else Path.join output ("moc_" ++ (Path.stem? input).getD "input" ++ "." ++ o.format.extension)

end Options
end Reflection

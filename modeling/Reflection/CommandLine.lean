import Reflection.Batch.Report
import Reflection.Json.Standard
/-!
# The command line

Reads the arguments of the compiler's command and writes what a run reports to its user.
-/

namespace Reflection.CommandLine

/-! ## Arguments -/

/-- An option of the command. -/
inductive Switch where
  | output
  | guard
  | noNotes
  | format
  | verbose
  | version
deriving DecidableEq, Repr

/-- Does the option take a value? -/
def Switch.takesValue : Switch → Bool
  | .output | .guard | .format => true
  | .noNotes | .verbose | .version => false

/-- The option with a long name. -/
def Switch.ofLong? : String → Option Switch
  | "output" => some .output
  | "include-guard" => some .guard
  | "no-notes" => some .noNotes
  | "format" => some .format
  | "verbose" => some .verbose
  | "version" => some .version
  | _ => none

/-- The option with a short name. -/
def Switch.ofShort? : Char → Option Switch
  | 'o' => some .output
  | 'f' => some .format
  | 'v' => some .verbose
  | 'V' => some .version
  | _ => none

/-- What the arguments have said so far. -/
structure Arguments where
  inputs : List String := []
  output : Option String := none
  guard : Option String := none
  noNotes : Bool := false
  format : Option OutputFormat := none
  verbosity : Nat := 0
deriving DecidableEq, Repr

/-- Why reading the arguments ends early. -/
inductive Stop where
  /-- The arguments make no sense. -/
  | usage
  /-- Only the version is asked for. -/
  | version
deriving DecidableEq, Repr

/-- Requires that an option has not been given before. -/
def once {α : Type} (before : Option α) (value : α) : Except Stop (Option α) :=
  match before with
  | none => .ok (some value)
  | some _ => .error .usage

/-- Requires a path, which is not empty. -/
def pathValue (text : String) : Except Stop String :=
  if text = "" then .error .usage else .ok text

/-- Requires the name of a format. -/
def formatValue : String → Except Stop OutputFormat
  | "json" => .ok .json
  | "rust" => .ok .rust
  | _ => .error .usage

/-- Takes an option with its value. -/
def setValue (a : Arguments) (s : Switch) (text : String) : Except Stop Arguments := do
  match s with
  | .output => return { a with output := ← once a.output (← pathValue text) }
  | .guard => return { a with guard := ← once a.guard text }
  | .format => return { a with format := ← once a.format (← formatValue text) }
  | _ => throw .usage

/-- Takes an option without a value. -/
def setFlag (a : Arguments) (s : Switch) : Except Stop Arguments :=
  match s with
  | .noNotes => if a.noNotes then .error .usage else .ok { a with noNotes := true }
  | .verbose => .ok { a with verbosity := a.verbosity + 1 }
  | .version => .error .version
  | _ => .error .usage

/-- Takes an input. -/
def addInput (a : Arguments) (text : String) : Except Stop Arguments := do
  return { a with inputs := a.inputs ++ [← pathValue text] }

/-- Takes a bundle of short options. The last of them may want the next argument as its value. -/
def takeShort (a : Arguments) : List Char → Except Stop (Arguments × Option Switch)
  | [] => .ok (a, none)
  | c :: rest =>
    match Switch.ofShort? c with
    | none => .error .usage
    | some s =>
      if s.takesValue then
        match rest with
        | [] => .ok (a, some s)
        | '=' :: value => do return (← setValue a s (String.ofList value), none)
        | value => do return (← setValue a s (String.ofList value), none)
      else
        match setFlag a s with
        | .ok a => takeShort a rest
        | .error e => .error e

/-- Takes a long option, given without its two dashes. It may want the next argument as its
value. -/
def takeLong (a : Arguments) (text : List Char) : Except Stop (Arguments × Option Switch) :=
  match Switch.ofLong? (String.ofList (text.takeWhile (· ≠ '='))) with
  | none => .error .usage
  | some s =>
    match text.dropWhile (· ≠ '=') with
    | [] => if s.takesValue then .ok (a, some s) else do return (← setFlag a s, none)
    | _ :: value =>
      if s.takesValue then do return (← setValue a s (String.ofList value), none) else .error .usage

/-- Takes all arguments. `pending` is an option that waits for its value; after two dashes all
arguments are inputs. -/
def takeAll (a : Arguments) (pending : Option Switch) : List String → Except Stop Arguments
  | [] => if pending.isSome then .error .usage else .ok a
  | arg :: rest =>
    match arg.toList, pending with
    | ['-', '-'], some _ => .error .usage
    | ['-', '-'], none => rest.foldlM addInput a
    | '-' :: _ :: _, some _ => .error .usage
    | '-' :: '-' :: name, none => do
      let (a, pending) ← takeLong a name
      takeAll a pending rest
    | '-' :: c :: more, none => do
      let (a, pending) ← takeShort a (c :: more)
      takeAll a pending rest
    | _, some s => do takeAll (← setValue a s arg) none rest
    | _, none => do takeAll (← addInput a arg) none rest

/-- Reads the arguments of the command. At least one input is required. -/
def parse (args : List String) : Except Stop Arguments := do
  let a ← takeAll {} none args
  if a.inputs.isEmpty then throw .usage
  return a

/-- The options that arguments ask for. A guard may also come from the environment. -/
def Arguments.options (a : Arguments) (environmentGuard : Option String) : Options :=
  { output := a.output
    guard := a.guard <|> environmentGuard
    notes := !a.noNotes
    format := a.format.getD .json }

/-! ## Messages -/

/-- What the command prints when asked for its version. -/
def versionText : String :=
  Artifact.generatorName ++ "\n"

/-- The name that the command's own messages start with. -/
def commandName : String := "horizon-moc"

/-- What the user is told about a run, line by line. -/
def messages (r : BatchReport) : List String :=
  r.compileErrors.map (·.message)
    ++ (r.cycle.toList.map fun c => commandName ++ ": error: " ++ c.message)
    ++ (r.failures.map fun f => commandName ++ ": error: " ++ f.message)
    ++ r.notes.map fun n => n.file ++ ": note: " ++ n.message

end Reflection.CommandLine

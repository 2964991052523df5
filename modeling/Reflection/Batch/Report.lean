import Reflection.Artifact.Rendering
import Reflection.Batch
/-!
# Running a batch

Reads inputs from a storage, compiles them together and writes their artifacts. Everything that goes
wrong is recorded, and nothing stops the rest except a circle of bases, after which nothing is
written.
-/

namespace Reflection

/-! ## Storage -/

/-- What a run needs to be able to do. Each action may fail for a reason given in words. -/
structure Storage (m : Type → Type) where
  /-- The text of a file. -/
  read : String → m (Except String String)
  /-- Makes a folder and the folders above it. -/
  createFolders : String → m (Except String Unit)
  /-- Puts a text into a file. -/
  write : String → String → m (Except String Unit)
  /-- Adds a text to the standard output. -/
  print : String → m (Except String Unit)

/-! ## Reports -/

/-- What was done to a file when it failed. -/
inductive FileAction where
  | read
  | write
deriving DecidableEq, Repr

/-- A file that could not be read or written. -/
structure FileFailure where
  action : FileAction
  path : String
  reason : String
deriving DecidableEq, Repr

/-- The wording of a failure. -/
def FileFailure.message (f : FileFailure) : String :=
  match f.action with
  | .read => s!"cannot read {f.path}: {f.reason}"
  | .write => s!"cannot write {f.path}: {f.reason}"

/-- An artifact that was written. -/
structure Outcome where
  input : String
  /-- The file that it was written to, none for the standard output. -/
  output : Option String
  /-- The names of its classes. -/
  classes : List String
deriving DecidableEq, Repr

/-- A note about an input. -/
structure Note where
  file : String
  message : String
deriving DecidableEq, Repr

/-- What a run did and met, each kind in the order of the inputs. -/
structure BatchReport where
  outcomes : List Outcome := []
  compileErrors : List CompileError := []
  failures : List FileFailure := []
  cycle : Option DependencyCycle := none
  notes : List Note := []
deriving DecidableEq, Repr

namespace BatchReport

/-- Two if a file could not be read or written, one if something could not be compiled, else
zero. -/
def exitCode (r : BatchReport) : Nat :=
  if !r.failures.isEmpty then 2
  else if r.cycle.isSome || !r.compileErrors.isEmpty then 1
  else 0

end BatchReport

namespace Batch

/-! ## Inputs -/

/-- An input with its text or the reason why it has none. -/
abbrev ReadInput := String × Except String String

/-- The inputs that could be read. -/
def sourcesOf (inputs : List ReadInput) : List SourceFile :=
  inputs.filterMap fun (path, result) =>
    match result with
    | .ok text => some ⟨path, text⟩
    | .error _ => none

/-- The inputs that could not be read. -/
def unreadable (inputs : List ReadInput) : List FileFailure :=
  inputs.filterMap fun (path, result) =>
    match result with
    | .ok _ => none
    | .error reason => some ⟨.read, path, reason⟩

/-! ## Deliveries -/

/-- What became of an input that could be read. -/
inductive Delivery where
  | refused (error : CompileError)
  | written (outcome : Outcome)
  | unwritable (failure : FileFailure)
deriving Repr

/-- The note about an input without annotated classes. -/
def emptyNote : String :=
  "No relevant classes found. The generated artifact is empty."

/-- The notes about a compiled file. -/
def notesOn (o : Options) (f : CompiledFile) : List Note :=
  match f.result with
  | .ok a => if a.classes.isEmpty && o.notes then [⟨f.path, emptyNote⟩] else []
  | .error _ => []

/-- Writes a text to a file, in folders that are made as needed. -/
def writeFile {m : Type → Type} [Monad m] (s : Storage m) (path text : String) :
    m (Except FileFailure Unit) := do
  match (Path.parent? path).filter (· ≠ "") with
  | none => return (← s.write path text).mapError (⟨.write, path, ·⟩)
  | some folder =>
    match ← s.createFolders folder with
    | .error reason => return .error ⟨.write, folder, reason⟩
    | .ok () => return (← s.write path text).mapError (⟨.write, path, ·⟩)

/-- Writes a text to where it belongs. -/
def writeOutput {m : Type → Type} [Monad m] (s : Storage m) (output : Option String) (text : String) :
    m (Except FileFailure Unit) := do
  match output with
  | some path => writeFile s path text
  | none => return (← s.print text).mapError (⟨.write, "<stdout>", ·⟩)

/-- Writes the artifact of a compiled file, one of `count` inputs. -/
def deliver [Json.Library] {m : Type → Type} [Monad m] (s : Storage m) (o : Options) (count : Nat)
    (f : CompiledFile) : m Delivery := do
  match f.result with
  | .error e => return .refused e
  | .ok a =>
    let output := o.outputFor count f.path
    match ← writeOutput s output (a.render o.format) with
    | .ok () => return .written ⟨f.path, output, a.classes.map (·.name)⟩
    | .error failure => return .unwritable failure

/-- The report on inputs and deliveries. -/
def reportOf (inputs : List ReadInput) (notes : List Note) (deliveries : List Delivery) :
    BatchReport :=
  { outcomes := deliveries.filterMap fun
      | .written o => some o
      | _ => none
    compileErrors := deliveries.filterMap fun
      | .refused e => some e
      | _ => none
    failures := unreadable inputs ++ deliveries.filterMap fun
      | .unwritable f => some f
      | _ => none
    notes := notes }

/-- Compiles the inputs and writes their artifacts. -/
def run [Json.Library] {m : Type → Type} [Monad m] (s : Storage m) (o : Options) (inputs : List String) :
    m BatchReport := do
  let count := inputs.length
  let inputs ← inputs.mapM fun path => return (path, ← s.read path)
  match compileAs o count (sourcesOf inputs) with
  | .error cycle => return { failures := unreadable inputs, cycle := some cycle }
  | .ok files =>
    let deliveries ← files.mapM (deliver s o count)
    return reportOf inputs (files.flatMap (notesOn o)) deliveries

end Batch
end Reflection

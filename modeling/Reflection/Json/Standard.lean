import Reflection.Json.Library
import Reflection.Json.Reader
import Reflection.Json.Writer
/-!
# The standard library for JSON

A record is written as an object of its fields, in which names that are not known are passed over, or as an
array of all its fields in their order. A variant is a text, or an object whose only member has its name
and is null.
-/

namespace Reflection.Json

/-- Looks for the fields `names` in a value. There must not be two of the same name, nor more items
than fields. -/
def fields? (names : List String) : Json → Option Fields
  | .array items =>
    if items.length ≤ names.length then some ⟨true, names.zip items⟩ else none
  | .object members =>
    match members.mapM fun (name, value) => name.map (·, value) with
    | none => none
    | some members =>
      let known := members.filter fun (name, _) => names.contains name
      if (known.map (·.1)).Nodup then some ⟨false, known⟩ else none
  | _ => none

/-- The name of a variant. -/
def variantName? : Json → Option String
  | .string name => name
  | .object [(name, .null)] => name
  | _ => none

instance Library.standard : Library where
  print := pretty
  parse? := Json.parse?
  record? := fields?
  variant? := variantName?

end Reflection.Json

import Reflection.Json
/-!
# Records in JSON

How plain values are read from JSON, and what is made of the values that were found for the fields of a
record. Fields may have defaults, and some may be null.
-/

namespace Reflection.Json

/-! ## Plain values -/

/-- A text. -/
def text? : Json → Option String
  | .string s => s
  | _ => none

/-- A truth value. -/
def bool? : Json → Option Bool
  | .bool b => some b
  | _ => none

/-- An integer. -/
def integer? : Json → Option Int
  | .integer i => some i
  | _ => none

/-- A natural number below `bound`. -/
def natBelow? (bound : Nat) (j : Json) : Option Nat :=
  match integer? j with
  | some i => if 0 ≤ i && i < bound then some i.toNat else none
  | none => none

/-- An unsigned number of 32 bits. -/
def uint32? (j : Json) : Option UInt32 :=
  (natBelow? UInt32.size j).map UInt32.ofNat

/-- An unsigned number of 64 bits. -/
def uint64? (j : Json) : Option UInt64 :=
  (natBelow? UInt64.size j).map UInt64.ofNat

/-- A signed number of 64 bits. -/
def int64? (j : Json) : Option Int64 :=
  match integer? j with
  | some i => if Int64.minValue.toInt ≤ i && i ≤ Int64.maxValue.toInt then some (.ofInt i) else none
  | none => none

/-- A list of values of one sort. -/
def list? {α : Type} (value : Json → Option α) : Json → Option (List α)
  | .array items => items.mapM value
  | _ => none

/-! ## Records -/

/-- The values found for the fields of a record. -/
structure Fields where
  /-- Were they written as an array? -/
  positional : Bool
  values : List (String × Json)
deriving Repr

namespace Fields

/-- A field that must be there. -/
def required {α : Type} (fs : Fields) (name : String) (value : Json → Option α) : Option α :=
  (fs.values.lookup name).bind value

/-- A field with a default. -/
def withDefault {α : Type} (fs : Fields) (name : String) (default : α) (value : Json → Option α) :
    Option α :=
  match fs.values.lookup name with
  | some j => value j
  | none => some default

/-- A field that may be null and, in an object, missing. -/
def optional {α : Type} (fs : Fields) (name : String) (value : Json → Option α) :
    Option (Option α) :=
  match fs.values.lookup name with
  | some .null => some none
  | some j => (value j).map some
  | none => if fs.positional then none else some none

end Fields
end Reflection.Json

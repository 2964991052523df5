import Reflection.Binary64
import Reflection.Text.Quoted
/-!
# Dynamic values

The values that travel through calls whose types are known only when they are made.
-/

namespace Reflection

/-- A value with its type. -/
inductive Variant where
  /-- No value. -/
  | invalid
  | bool (value : Bool)
  | int (value : Int64)
  | uint (value : UInt64)
  | double (value : Binary64)
  | char (value : Char)
  | string (value : String)
  | bytes (value : List UInt8)
  | list (items : List Variant)
  /-- Values by name. -/
  | map (entries : List (String × Variant))
deriving Repr, Inhabited

namespace Variant

/-! ## Making values -/

/-- Adds an entry to a list that is sorted by name. An entry of the same name gives way. -/
def insertEntry (name : String) (value : Variant) :
    List (String × Variant) → List (String × Variant)
  | [] => [(name, value)]
  | (k, v) :: rest =>
    if name < k then (name, value) :: (k, v) :: rest
    else if name = k then (name, value) :: rest
    else (k, v) :: insertEntry name value rest

/-- A map from entries in any order. Of two entries with one name the later counts. -/
def ofEntries (entries : List (String × Variant)) : Variant :=
  .map (entries.foldl (fun acc (k, v) => insertEntry k v acc) [])

/-! ## Views -/

/-- The name of the value's type. -/
def typeName : Variant → String
  | .invalid => "invalid"
  | .bool _ => "bool"
  | .int _ => "int"
  | .uint _ => "uint"
  | .double _ => "double"
  | .char _ => "char"
  | .string _ => "QString"
  | .bytes _ => "QByteArray"
  | .list _ => "QVariantList"
  | .map _ => "QVariantMap"

/-- Is there a value at all? -/
def isValid : Variant → Bool
  | .invalid => false
  | _ => true

/-- The value as a truth value: a number is true unless it is zero. -/
def toBool? : Variant → Option Bool
  | .bool b => some b
  | .int i => some (i ≠ 0)
  | .uint n => some (n ≠ 0)
  | _ => none

/-- The value as a signed integer, if it is one or fits. -/
def toInt? : Variant → Option Int64
  | .int i => some i
  | .uint n => if n.toNat < Nat.pow 2 63 then some (.ofNat n.toNat) else none
  | .bool b => some (if b then 1 else 0)
  | .char c => some (.ofNat c.toNat)
  | _ => none

/-- The value as an unsigned integer, if it is one or fits. -/
def toUInt? : Variant → Option UInt64
  | .uint n => some n
  | .int i => if 0 ≤ i.toInt then some (.ofNat i.toInt.toNat) else none
  | .bool b => some (if b then 1 else 0)
  | _ => none

/-- The value as a double; integers are rounded to nearest. -/
def toDouble? : Variant → Option Binary64
  | .double d => some d
  | .int i => some (.ofInt i.toInt)
  | .uint n => some (.ofInt n.toNat)
  | _ => none

/-- The text, if it is one. -/
def string? : Variant → Option String
  | .string s => some s
  | _ => none

/-- The items, if it is a list. -/
def items? : Variant → Option (List Variant)
  | .list items => some items
  | _ => none

/-! ## Equality and text -/

mutual
/-- Are two values equal? Doubles compare as numbers, so a value may differ from itself. -/
def equal : Variant → Variant → Bool
  | .invalid, .invalid => true
  | .bool a, .bool b => a = b
  | .int a, .int b => a = b
  | .uint a, .uint b => a = b
  | .double a, .double b => a.equal b
  | .char a, .char b => a = b
  | .string a, .string b => a = b
  | .bytes a, .bytes b => a = b
  | .list a, .list b => equalItems a b
  | .map a, .map b => equalEntries a b
  | _, _ => false

/-- Are two lists of values equal, one by one? -/
def equalItems : List Variant → List Variant → Bool
  | [], [] => true
  | a :: as, b :: bs => equal a b && equalItems as bs
  | _, _ => false

/-- Are two lists of entries equal, one by one? -/
def equalEntries : List (String × Variant) → List (String × Variant) → Bool
  | [], [] => true
  | (j, a) :: as, (k, b) :: bs => j = k && equal a b && equalEntries as bs
  | _, _ => false
end

mutual
/-- A readable text of the value. -/
def text : Variant → String
  | .invalid => "<invalid>"
  | .bool b => if b then "true" else "false"
  | .int i => toString i.toInt
  | .uint n => toString n.toNat
  | .double d => d.text
  | .char c => Text.quoteChar c
  | .string s => Text.quoteString s
  | .bytes bs => s!"<{bs.length} bytes>"
  | .list items => "[" ++ ", ".intercalate (itemTexts items) ++ "]"
  | .map entries => "\x7b" ++ ", ".intercalate (entryTexts entries) ++ "\x7d"

/-- The texts of the items of a list. -/
def itemTexts : List Variant → List String
  | [] => []
  | v :: vs => text v :: itemTexts vs

/-- The texts of the entries of a map. -/
def entryTexts : List (String × Variant) → List String
  | [] => []
  | (k, v) :: rest => (Text.quoteString k ++ ": " ++ text v) :: entryTexts rest
end

end Variant
end Reflection

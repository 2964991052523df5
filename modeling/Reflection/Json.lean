/-!
# JSON values

The values that a JSON text denotes, as far as anything here asks for them: of a number only
whether it is written as an integer, and which.
-/

namespace Reflection

/-- A JSON value. A string is `none` if it holds a surrogate without its partner and so is no
text. The members of an object keep their order, and a name may come more than once. -/
inductive Json where
  | null
  | bool (value : Bool)
  /-- A number written without fraction and exponent. Minus zero is not among these. -/
  | integer (value : Int)
  /-- Any other number. -/
  | real
  | string (text : Option String)
  | array (items : List Json)
  | object (members : List (Option String × Json))
deriving Repr, Inhabited

namespace Json

/-- All strings in a value are texts, the names of members included. -/
inductive Textual : Json → Prop
  | null : Textual .null
  | bool (b : Bool) : Textual (.bool b)
  | integer (i : Int) : Textual (.integer i)
  | string (s : String) : Textual (.string (some s))
  | array {items : List Json} (values : ∀ item ∈ items, Textual item) : Textual (.array items)
  | object {members : List (Option String × Json)} (names : ∀ m ∈ members, m.1.isSome)
      (values : ∀ m ∈ members, Textual m.2) : Textual (.object members)

/-- Blank space between the tokens of a text. -/
def isSpace (c : Char) : Bool :=
  c = ' ' || c = '\t' || c = '\n' || c = '\r'

/-- A text. -/
def text (s : String) : Json :=
  .string (some s)

/-- A text, or null where there is none. -/
def ofOption {α : Type} (f : α → Json) : Option α → Json
  | some a => f a
  | none => .null

/-- A list of values of one sort. -/
def ofList {α : Type} (f : α → Json) (items : List α) : Json :=
  .array (items.map f)

/-- An object with the given members, in their order. -/
def ofFields (members : List (String × Json)) : Json :=
  .object (members.map fun (name, value) => (some name, value))

end Json
end Reflection

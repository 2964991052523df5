import Reflection.Signature
import Reflection.Table
/-!
# Building tables

A builder collects the members of a class and keeps each of their texts once.
-/

namespace Reflection

/-- A method to be added to a table. -/
structure MethodSpec where
  name : String
  returnType : String := "void"
  /-- The declared types and the names of the parameters, empty names for parameters without. -/
  parameters : List (String × String) := []
  kind : MethodKind
  access : Access := .isPublic
  cloned : Bool := false
deriving DecidableEq, Repr, Inhabited

/-- The signature of the method. -/
def MethodSpec.signature (m : MethodSpec) : Signature :=
  .ofDeclared m.name (m.parameters.map (·.1))

/-- The places that texts are looked up at are those at which they stand, each text at one place only. -/
structure PlacesOf (lookup : List (String × StringIndex)) (strings : List String) : Prop where
  nodup : strings.Nodup
  place : ∀ text, lookup.lookup text = (strings.idxOf? text).map .ofNat

theorem PlacesOf.empty : PlacesOf [] [] where
  nodup := .nil
  place _ := rfl

/-- A text that is not found gets the place behind the last. -/
theorem PlacesOf.insert {lookup : List (String × StringIndex)} {strings : List String} {text : String}
    (h : PlacesOf lookup strings) (new : lookup.lookup text = none) :
    PlacesOf ((text, .ofNat strings.length) :: lookup) (strings ++ [text]) := by
  have absent : strings.idxOf? text = none := by
    rw [h.place, Option.map_eq_none_iff] at new
    exact new
  have missing : text ∉ strings := List.idxOf?_eq_none_iff.1 absent
  refine ⟨List.nodup_append.2 ⟨h.nodup, List.nodup_cons.2 ⟨nofun, .nil⟩, ?_⟩, fun other => ?_⟩
  · rintro s hs t ht rfl
    exact missing (List.mem_singleton.1 ht ▸ hs)
  · have appended : (strings ++ [text]).idxOf? other =
        (strings.idxOf? other).or (([text].idxOf? other).map (· + strings.length)) :=
      List.findIdx?_append
    rw [List.lookup_cons, appended, List.idxOf?_cons]
    by_cases same : text = other
    · subst same
      simp [absent]
    · simp [beq_false_of_ne same, beq_false_of_ne (Ne.symm same), List.idxOf?_nil, h.place]

/-- A table that is being built, with the places of its strings by their texts. -/
structure TableBuilder where
  table : ClassTable
  lookup : List (String × StringIndex)
  places : PlacesOf lookup table.strings
deriving Repr

namespace TableBuilder

/-! ## Strings -/

/-- The place of a text in the table. A text that is looked up for the first time is added. -/
def intern (b : TableBuilder) (text : String) : StringIndex × TableBuilder :=
  match known : b.lookup.lookup text with
  | some i => (i, b)
  | none =>
    let i := .ofNat b.table.strings.length
    (i, ⟨{ b.table with strings := b.table.strings ++ [text] }, (text, i) :: b.lookup,
      b.places.insert known⟩)

/-- The places of several texts in the table, from first to last. -/
def internAll (b : TableBuilder) : List String → List StringIndex × TableBuilder
  | [] => ([], b)
  | text :: texts =>
    let (i, b) := b.intern text
    let (is, b) := b.internAll texts
    (i :: is, b)

/-- The builder before anything is added, even the name of the class. -/
def empty : TableBuilder where
  table :=
    { className := 0, superClass := none, strings := [], classInfo := [], methods := [],
      properties := [], enums := [] }
  lookup := []
  places := .empty

/-- The empty table of a class. -/
def start (className : String) (superName : Option String) : TableBuilder :=
  let (name, b) := empty.intern className
  match superName with
  | none => { b with table := { b.table with className := name } }
  | some text =>
    let (i, b) := b.intern text
    { b with table := { b.table with className := name, superClass := some i } }

/-! ## Members -/

/-- Adds a method. Its texts are kept in the order name, signature, return type, parameter types,
declared types, parameter names. -/
def addMethod (b : TableBuilder) (m : MethodSpec) : TableBuilder :=
  let signature := m.signature
  let (name, b) := b.intern m.name
  let (canonical, b) := b.intern signature.canonical
  let (returnType, b) := b.intern (TypeText.normalize m.returnType)
  let (parameterTypes, b) := b.internAll signature.parameters
  let (declaredTypes, b) := b.internAll (m.parameters.map (·.1))
  let (parameterNames, b) := b.internAll (m.parameters.map (·.2))
  let entry : MethodEntry :=
    { name := name
      signature := canonical
      digest := signature.digest
      returnType := returnType
      parameterTypes := parameterTypes
      declaredTypes := declaredTypes
      parameterNames := parameterNames
      kind := m.kind
      access := m.access
      cloned := m.cloned }
  { b with table := { b.table with methods := b.table.methods ++ [entry] } }

/-- The place of the first method with the given canonical signature. -/
def findMethod? (b : TableBuilder) (canonical : String) : Option Nat :=
  (b.lookup.lookup canonical).bind fun i => b.table.methods.findIdx? (·.signature = i)

/-- Adds a property. `notify` is the place of a signal among the methods. -/
def addProperty (b : TableBuilder) (name type : String) (flags : PropertyFlags)
    (notify : Option Nat) : TableBuilder :=
  let (name, b) := b.intern name
  let (typeName, b) := b.intern (TypeText.normalize type)
  let entry : PropertyEntry := ⟨name, typeName, flags, notify.map UInt32.ofNat⟩
  { b with table := { b.table with properties := b.table.properties ++ [entry] } }

/-- Adds an enumeration. The texts of the keys are kept before its own name. -/
def addEnum (b : TableBuilder) (name : String) (isFlag isScoped : Bool)
    (keys : List (String × Int64)) : TableBuilder :=
  let (names, b) := b.internAll (keys.map (·.1))
  let (name, b) := b.intern name
  let keys := List.zipWith EnumKey.mk names (keys.map (·.2))
  let entry : EnumEntry := ⟨name, isFlag, isScoped, keys⟩
  { b with table := { b.table with enums := b.table.enums ++ [entry] } }

/-- Adds a note on the class. -/
def addClassInfo (b : TableBuilder) (key value : String) : TableBuilder :=
  let (key, b) := b.intern key
  let (value, b) := b.intern value
  { b with table := { b.table with classInfo := b.table.classInfo ++ [⟨key, value⟩] } }

end TableBuilder
end Reflection

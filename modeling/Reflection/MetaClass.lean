import Reflection.Signature
import Reflection.Table
import Reflection.Text.Quoted
/-!
# Classes at run time

A class at run time is its table together with the tables of the classes it was linked to. Members
have absolute indices: those of the root class come first, and each class continues where the one
above it ends. So an index means the same member in a class and in all classes below it.
-/

namespace Reflection

/-- A class with the tables of its linked ancestors, the nearest first. -/
structure MetaClass where
  table : ClassTable
  ancestors : List ClassTable := []
deriving DecidableEq, Repr, Inhabited

namespace MetaClass

/-! ## Ancestry -/

/-- The class that this one is linked to. -/
def parent? (c : MetaClass) : Option MetaClass :=
  match c.ancestors with
  | [] => none
  | t :: ts => some ⟨t, ts⟩

/-- The class of a table below the classes of the tables `ancestors`, and those classes, the
nearest first. -/
def lineageOf (table : ClassTable) : List ClassTable → List MetaClass
  | [] => [⟨table, []⟩]
  | t :: ts => ⟨table, t :: ts⟩ :: lineageOf t ts

/-- The class itself and the classes that it is linked to, directly or through others. -/
def lineage (c : MetaClass) : List MetaClass :=
  lineageOf c.table c.ancestors

/-- A root class below `parent`, if one is given. -/
def linked (table : ClassTable) (parent : Option MetaClass) : MetaClass :=
  match parent with
  | none => ⟨table, []⟩
  | some p => ⟨table, p.table :: p.ancestors⟩

/-- The name of the class. -/
def name (c : MetaClass) : String :=
  c.table.name

/-- The declared name of the class that this one derives from, linked or not. -/
def superName? (c : MetaClass) : Option String :=
  c.table.superName?

/-- Is this class, or one it is linked to, named `className`? -/
def inherits (c : MetaClass) (className : String) : Bool :=
  c.lineage.any (·.name = className)

/-! ## Members of any sort -/

/-- The number of members of the classes above. -/
def offset {α : Type} (members : ClassTable → List α) (c : MetaClass) : Nat :=
  c.ancestors.foldr (fun t n => (members t).length + n) 0

/-- The number of members, inherited ones included. -/
def count {α : Type} (members : ClassTable → List α) (c : MetaClass) : Nat :=
  c.offset members + (members c.table).length

/-- A member in the class that declares it. -/
structure Member (α : Type) where
  owner : MetaClass
  entry : α
  /-- The absolute index. -/
  index : Nat
deriving Repr

/-- The member at an absolute index. -/
def memberAt? {α : Type} (members : ClassTable → List α) (c : MetaClass) (i : Nat) :
    Option (Member α) :=
  match c.lineage.find? fun m => m.offset members ≤ i with
  | none => none
  | some owner => (members owner.table)[i - owner.offset members]?.map (⟨owner, ·, i⟩)

/-- The place of the last item for which `p` holds. -/
def lastIndex? {α : Type} (p : α → Bool) : List α → Option Nat
  | [] => none
  | x :: xs =>
    match lastIndex? p xs with
    | some i => some (i + 1)
    | none => if p x then some 0 else none

/-- The absolute index of the member with a given text. The nearest class that has one decides; in
it the last one counts. -/
def indexOf? {α : Type} (members : ClassTable → List α) (textOf : ClassTable → α → String)
    (c : MetaClass) (text : String) : Option Nat :=
  c.lineage.findSome? fun m =>
    (lastIndex? (fun e => textOf m.table e = text) (members m.table)).map (m.offset members + ·)

/-! ## Methods -/

/-- A method in its class. -/
abbrev Method := Member MethodEntry

/-- The number of methods, inherited ones included. -/
def methodCount (c : MetaClass) : Nat :=
  c.count ClassTable.methods

/-- The absolute index of the first own method. -/
def methodOffset (c : MetaClass) : Nat :=
  c.offset ClassTable.methods

/-- The method at an absolute index. -/
def method? (c : MetaClass) (i : Nat) : Option Method :=
  c.memberAt? ClassTable.methods i

/-- The absolute index of the method with a canonical signature. -/
def indexOfCanonical? (c : MetaClass) (canonical : String) : Option Nat :=
  c.indexOf? ClassTable.methods ClassTable.signature canonical

/-- The absolute index of the method whose signature a text spells. -/
def indexOfMethod? (c : MetaClass) (text : String) : Option Nat :=
  match Signature.normalize text with
  | .ok canonical => c.indexOfCanonical? canonical
  | .error _ => none

/-- Is the method at an absolute index of the given kind? -/
def hasKind (c : MetaClass) (kind : MethodKind) (i : Nat) : Bool :=
  (c.method? i).any (·.entry.kind = kind)

/-- The absolute index of the signal whose signature a text spells. -/
def indexOfSignal? (c : MetaClass) (text : String) : Option Nat :=
  (c.indexOfMethod? text).filter (c.hasKind .signal)

/-- The absolute index of the slot whose signature a text spells. -/
def indexOfSlot? (c : MetaClass) (text : String) : Option Nat :=
  (c.indexOfMethod? text).filter (c.hasKind .slot)

namespace Member

/-- A string of the declaring class. -/
def string {α : Type} (m : Member α) (i : StringIndex) : String :=
  m.owner.table.string i

end Member

namespace Method

/-- The index within the declaring class. -/
def localIndex (m : Method) : Nat :=
  m.index - m.owner.methodOffset

/-- The name. -/
def name (m : Method) : String :=
  m.string m.entry.name

/-- The canonical signature. -/
def signature (m : Method) : String :=
  m.string m.entry.signature

/-- The return type. -/
def returnType (m : Method) : String :=
  m.string m.entry.returnType

/-- The parameter types. -/
def parameterTypes (m : Method) : List String :=
  m.entry.parameterTypes.map m.string

/-- The parameter names. -/
def parameterNames (m : Method) : List String :=
  m.entry.parameterNames.map m.string

/-- The type of one parameter. -/
def parameterType? (m : Method) (i : Nat) : Option String :=
  m.entry.parameterTypes[i]?.map m.string

/-- A text that names the method, its class and its index. -/
def description (m : Method) : String :=
  s!"{m.owner.name}::{m.signature} [{m.index}]"

end Method

/-! ## Properties -/

/-- A property in its class. -/
abbrev Property := Member PropertyEntry

/-- The number of properties, inherited ones included. -/
def propertyCount (c : MetaClass) : Nat :=
  c.count ClassTable.properties

/-- The absolute index of the first own property. -/
def propertyOffset (c : MetaClass) : Nat :=
  c.offset ClassTable.properties

/-- The property at an absolute index. -/
def property? (c : MetaClass) (i : Nat) : Option Property :=
  c.memberAt? ClassTable.properties i

/-- The absolute index of the property of a given name. -/
def indexOfProperty? (c : MetaClass) (name : String) : Option Nat :=
  c.indexOf? ClassTable.properties (fun t p => t.string p.name) name

namespace Property

/-- The name. -/
def name (p : Property) : String :=
  p.string p.entry.name

/-- The type. -/
def typeName (p : Property) : String :=
  p.string p.entry.typeName

/-- Has the property a reader? -/
def isReadable (p : Property) : Bool :=
  p.entry.flags.contains .readable

/-- Does the property never change? -/
def isConstant (p : Property) : Bool :=
  p.entry.flags.contains .constant

/-- Has the property a writer that may be used? -/
def isWritable (p : Property) : Bool :=
  p.entry.flags.contains .writable && !p.isConstant

/-- Can the property be reset? -/
def isResettable (p : Property) : Bool :=
  p.entry.flags.contains .resettable

/-- The signal that tells of changes, a method of the declaring class. -/
def notifySignal? (p : Property) : Option Method :=
  p.entry.notify.bind fun i => p.owner.method? (p.owner.methodOffset + i.toNat)

/-- A text that names the property, its type and its class. -/
def description (p : Property) : String :=
  s!"{p.typeName} {p.owner.name}::{p.name}"

end Property

/-! ## Enumerations -/

/-- An enumeration in its class. -/
abbrev Enumeration := Member EnumEntry

/-- The number of enumerations, inherited ones included. -/
def enumCount (c : MetaClass) : Nat :=
  c.count ClassTable.enums

/-- The absolute index of the first own enumeration. -/
def enumOffset (c : MetaClass) : Nat :=
  c.offset ClassTable.enums

/-- The enumeration at an absolute index. -/
def enum? (c : MetaClass) (i : Nat) : Option Enumeration :=
  c.memberAt? ClassTable.enums i

/-- The absolute index of the enumeration of a given name. -/
def indexOfEnum? (c : MetaClass) (name : String) : Option Nat :=
  c.indexOf? ClassTable.enums (fun t e => t.string e.name) name

namespace Enumeration

/-- The name. -/
def name (e : Enumeration) : String :=
  e.string e.entry.name

/-- The name of the key at an index. -/
def key? (e : Enumeration) (i : Nat) : Option String :=
  e.entry.keys[i]?.map fun k => e.string k.name

/-- The value of the key at an index. -/
def value? (e : Enumeration) (i : Nat) : Option Int64 :=
  e.entry.keys[i]?.map (·.value)

/-- The value of the first key of a name. -/
def valueOf? (e : Enumeration) (key : String) : Option Int64 :=
  (e.entry.keys.find? fun k => e.string k.name = key).map (·.value)

/-- The name of the first key with a value. -/
def keyOf? (e : Enumeration) (value : Int64) : Option String :=
  (e.entry.keys.find? (·.value = value)).map fun k => e.string k.name

/-- The names of all keys whose bits are set in a value, other bits being passed over. -/
def keysOf (e : Enumeration) (value : Int64) : String :=
  "|".intercalate
    ((e.entry.keys.filter fun k => k.value ≠ 0 && value &&& k.value = k.value).map fun k =>
      e.string k.name)

end Enumeration

/-! ## Notes and text -/

/-- The note on the class under a key. The nearest class that has one decides. -/
def classInfo? (c : MetaClass) (key : String) : Option String :=
  c.lineage.findSome? fun m =>
    (m.table.classInfo.find? fun i => m.table.string i.key = key).map fun i => m.table.string i.value

/-- A text that names the class, its base and the number of its own members. -/
def description (c : MetaClass) : String :=
  let base :=
    match c.superName? with
    | some name => "Some(" ++ Text.quoteString name ++ ")"
    | none => "None"
  "MetaObject \x7b class_name: " ++ Text.quoteString c.name ++ ", super_class: " ++ base
    ++ ", methods: " ++ toString c.table.methods.length
    ++ ", properties: " ++ toString c.table.properties.length ++ " \x7d"

end MetaClass
end Reflection

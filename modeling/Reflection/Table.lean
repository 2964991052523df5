import Reflection.Member
/-!
# Class tables

A table is the compiled description of one class. Every text in it is kept once, in a list of
strings, and referred to by its index there. `ClassTable.validate` says whether all references of a
table are in order.
-/

namespace Reflection

/-! ## Entries -/

/-- A place in the strings of a table. -/
abbrev StringIndex := UInt32

/-- A method. -/
structure MethodEntry where
  name : StringIndex
  /-- The canonical signature. -/
  signature : StringIndex
  /-- The hash of the canonical signature. -/
  digest : UInt64
  /-- The normal spelling of the return type. -/
  returnType : StringIndex
  /-- The normal spellings of the parameter types. -/
  parameterTypes : List StringIndex
  /-- The parameter types as declared. -/
  declaredTypes : List StringIndex
  /-- The parameter names, empty ones for parameters without. -/
  parameterNames : List StringIndex
  kind : MethodKind
  access : Access
  /-- Does the entry stand for a call that leaves default arguments out? -/
  cloned : Bool
deriving DecidableEq, Repr, Inhabited

/-- The attributes of a property, a bit for each. -/
structure PropertyFlags where
  bits : UInt32
deriving DecidableEq, Repr, Inhabited

namespace PropertyFlags

def none : PropertyFlags := ⟨0⟩

def readable : PropertyFlags := ⟨1⟩

def writable : PropertyFlags := ⟨2⟩

def resettable : PropertyFlags := ⟨4⟩

def stored : PropertyFlags := ⟨8⟩

def designable : PropertyFlags := ⟨16⟩

def constant : PropertyFlags := ⟨32⟩

def final : PropertyFlags := ⟨64⟩

/-- Is the property a data member by itself? -/
def member : PropertyFlags := ⟨128⟩

/-- Are all attributes of `other` among those of `flags`? -/
def contains (flags other : PropertyFlags) : Bool :=
  flags.bits &&& other.bits = other.bits

/-- Adds the attributes of `other`. -/
def insert (flags other : PropertyFlags) : PropertyFlags :=
  ⟨flags.bits ||| other.bits⟩

/-- Takes the attributes of `other` away. -/
def erase (flags other : PropertyFlags) : PropertyFlags :=
  ⟨flags.bits &&& ~~~other.bits⟩

end PropertyFlags

/-- A property. -/
structure PropertyEntry where
  name : StringIndex
  /-- The normal spelling of the property's type. -/
  typeName : StringIndex
  flags : PropertyFlags
  /-- The place among the methods of the signal that tells of changes. -/
  notify : Option UInt32
deriving DecidableEq, Repr, Inhabited

/-- A name for a value. -/
structure EnumKey where
  name : StringIndex
  value : Int64
deriving DecidableEq, Repr, Inhabited

/-- An enumeration, or a set of flags. -/
structure EnumEntry where
  name : StringIndex
  isFlag : Bool
  isScoped : Bool
  keys : List EnumKey
deriving DecidableEq, Repr, Inhabited

/-- A note on a class. -/
structure ClassInfoEntry where
  key : StringIndex
  value : StringIndex
deriving DecidableEq, Repr, Inhabited

/-- The compiled description of a class. -/
structure ClassTable where
  className : StringIndex
  /-- The name of the class that this one derives from. -/
  superClass : Option StringIndex
  strings : List String
  classInfo : List ClassInfoEntry
  methods : List MethodEntry
  properties : List PropertyEntry
  enums : List EnumEntry
deriving DecidableEq, Repr, Inhabited

/-- How many parameters a method has. -/
def MethodEntry.parameterCount (m : MethodEntry) : Nat :=
  m.parameterTypes.length

namespace ClassTable

/-! ## Texts -/

/-- The string at a place, empty if there is none. -/
def string (t : ClassTable) (i : StringIndex) : String :=
  (t.strings[i.toNat]?).getD ""

/-- The name of the class. -/
def name (t : ClassTable) : String :=
  t.string t.className

/-- The name of the class that this one derives from. -/
def superName? (t : ClassTable) : Option String :=
  t.superClass.map t.string

/-- The canonical signature of a method. -/
def signature (t : ClassTable) (m : MethodEntry) : String :=
  t.string m.signature

/-! ## Validity -/

/-- What a string is referred to as. -/
inductive StringRole where
  | className
  | superClass
  | classInfoKey
  | classInfoValue
  | methodName
  | methodSignature
  | returnType
  | parameter
  | propertyName
  | propertyType
  | enumName
  | enumKey
deriving DecidableEq, Repr

/-- The wording of a role. -/
def StringRole.text : StringRole → String
  | .className => "class name"
  | .superClass => "superclass"
  | .classInfoKey => "class info key"
  | .classInfoValue => "class info value"
  | .methodName => "method name"
  | .methodSignature => "method signature"
  | .returnType => "return type"
  | .parameter => "parameter"
  | .propertyName => "property name"
  | .propertyType => "property type"
  | .enumName => "enum name"
  | .enumKey => "enum key"

/-- What can be wrong with a table. -/
inductive Fault where
  | stringOutOfRange (role : StringRole) (index : StringIndex) (count : Nat)
  | parameterLists (signature : String)
  | notLocalSignal (property : String) (index : UInt32)
  /-- The class derives from itself. -/
  | cyclicInheritance
deriving DecidableEq, Repr

/-- The wording of a fault. -/
def Fault.message : Fault → String
  | .stringOutOfRange role index count =>
    s!"{role.text} string index {index.toNat} out of range ({count} strings)"
  | .parameterLists signature => s!"method `{signature}` has mismatched parameter lists"
  | .notLocalSignal property index =>
    s!"property `{property}` notifies method {index.toNat}, which is not a local signal"
  | .cyclicInheritance => "cyclic inheritance"

/-- Requires a string at the place `i`. -/
def checkString (t : ClassTable) (role : StringRole) (i : StringIndex) : Except Fault Unit :=
  if i.toNat < t.strings.length then .ok () else .error (.stringOutOfRange role i t.strings.length)

/-- Requires strings for a method, and as many names and declared types as parameters. -/
def checkMethod (t : ClassTable) (m : MethodEntry) : Except Fault Unit := do
  t.checkString .methodName m.name
  t.checkString .methodSignature m.signature
  t.checkString .returnType m.returnType
  if m.parameterNames.length ≠ m.parameterTypes.length
      || m.declaredTypes.length ≠ m.parameterTypes.length then
    throw (.parameterLists (t.signature m))
  (m.parameterTypes ++ m.declaredTypes ++ m.parameterNames).forM (t.checkString .parameter)

/-- Is there a signal at the place `i` among the methods? -/
def hasSignalAt (t : ClassTable) (i : UInt32) : Bool :=
  (t.methods[i.toNat]?).any (·.kind = .signal)

/-- Requires strings for a property, and a signal where it names one. -/
def checkProperty (t : ClassTable) (p : PropertyEntry) : Except Fault Unit := do
  t.checkString .propertyName p.name
  t.checkString .propertyType p.typeName
  match p.notify with
  | some i => if !t.hasSignalAt i then throw (.notLocalSignal (t.string p.name) i)
  | none => pure ()

/-- Requires strings for an enumeration and its keys. -/
def checkEnum (t : ClassTable) (e : EnumEntry) : Except Fault Unit := do
  t.checkString .enumName e.name
  e.keys.forM fun k => t.checkString .enumKey k.name

/-- Requires every reference of the table to be in order, and reports the first that is not. -/
def validate (t : ClassTable) : Except Fault Unit := do
  t.checkString .className t.className
  t.superClass.toList.forM (t.checkString .superClass)
  t.classInfo.forM fun info => do
    t.checkString .classInfoKey info.key
    t.checkString .classInfoValue info.value
  t.methods.forM t.checkMethod
  t.properties.forM t.checkProperty
  t.enums.forM t.checkEnum

end ClassTable
end Reflection

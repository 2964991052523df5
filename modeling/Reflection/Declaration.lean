import Reflection.Member
import Reflection.Source.Token
/-!
# Declarations

What a header says about its annotated classes, and what can be wrong with it.
-/

namespace Reflection

/-! ## Classes and their members -/

/-- A declared parameter. -/
structure Parameter where
  /-- The type as written. -/
  type : String
  name : Option String
  /-- The default argument as written. -/
  defaultArgument : Option String
deriving DecidableEq, Repr, Inhabited

/-- A declared member function. -/
structure FunctionDeclaration where
  name : String
  returnType : String
  parameters : List Parameter
  kind : MethodKind
  access : Access
  isConst : Bool
  line : Nat
deriving DecidableEq, Repr, Inhabited

/-- How many parameters at the end of the list have a default argument. -/
def FunctionDeclaration.defaultedCount (f : FunctionDeclaration) : Nat :=
  (f.parameters.reverse.takeWhile (·.defaultArgument.isSome)).length

/-- A declared property with the accessors that it names. -/
structure PropertyDeclaration where
  name : String
  type : String
  read : Option String := none
  write : Option String := none
  member : Option String := none
  reset : Option String := none
  notify : Option String := none
  designable : Bool := true
  stored : Bool := true
  constant : Bool := false
  isFinal : Bool := false
  line : Nat
deriving DecidableEq, Repr, Inhabited

/-- A named enumeration in a class body. -/
structure EnumDeclaration where
  name : String
  isScoped : Bool
  keys : List (String × Int64)
  line : Nat
deriving DecidableEq, Repr, Inhabited

/-- A request to make an enumeration known. -/
structure EnumRegistration where
  name : String
  isFlag : Bool
  line : Nat
deriving DecidableEq, Repr, Inhabited

/-- An annotated class. -/
structure ClassDeclaration where
  /-- The name with all its scopes. -/
  name : String
  /-- The enclosing namespaces and classes, empty where there are none. -/
  scope : String
  /-- The bases as written. -/
  bases : List String
  line : Nat
  methods : List FunctionDeclaration := []
  properties : List PropertyDeclaration := []
  enums : List EnumDeclaration := []
  enumRegistrations : List EnumRegistration := []
  classInfo : List (String × String) := []
deriving DecidableEq, Repr, Inhabited

/-! ## Errors -/

/-- What can be wrong with the declarations of a file. -/
inductive CompileFault where
  | lexical (error : Source.LexError)
  /-- Some mark had to come here, and something else or nothing did. -/
  | expected (mark : String) (found : Option String)
  | unbalanced (bracket : String)
  | unterminatedTemplate
  | unterminatedBases (className : String)
  | unterminatedBody (className : String)
  | annotatedTemplate (className : String)
  | argumentsExpected (marker : String)
  | enumNameExpected (marker : String)
  | classInfoExpected
  | unbalancedParameters (function : String)
  | variadicParameters
  | malformedParameter
  | signalReturns (signal type : String)
  | propertyHead
  | attributeValue (word property : String)
  | unknownAttribute (word property : String)
  | truthValueExpected (found : String)
  | unreadableProperty (property : String)
  | constantConflict (property : String)
  /-- An enumerator does not start with a name. -/
  | malformedEnumerators (enumName : String)
  /-- Something other than a value follows the name of an enumerator. -/
  | malformedEnumerator (key : String)
  | enumeratorValue (key : String)
  | unknownEnum (marker enumName className : String)
  | duplicateMethod (signature className : String)
  | unknownNotifySignal (signal property className : String)
deriving DecidableEq, Repr

namespace CompileFault

/-- The wording of a fault. -/
def message : CompileFault → String
  | .lexical e => e.message
  | .expected mark (some found) => s!"expected `{mark}`, found `{found}`"
  | .expected mark none => s!"expected `{mark}`, found end of file"
  | .unbalanced bracket => "unbalanced `" ++ bracket ++ "`"
  | .unterminatedTemplate => "unterminated template parameter list"
  | .unterminatedBases className => s!"unterminated base list of `{className}`"
  | .unterminatedBody className => s!"unterminated body of class `{className}`"
  | .annotatedTemplate className =>
    s!"template class `{className}` cannot be annotated with H_OBJECT"
  | .argumentsExpected marker => s!"{marker} expects an argument list"
  | .enumNameExpected marker => s!"{marker} expects an enum name"
  | .classInfoExpected => "H_CLASSINFO expects two string literals"
  | .unbalancedParameters function => s!"unbalanced parameter list of `{function}`"
  | .variadicParameters => "variadic parameter lists cannot be reflected"
  | .malformedParameter => "malformed parameter declaration"
  | .signalReturns signal type => s!"signal `{signal}` must return void, not `{type}`"
  | .propertyHead => "H_PROPERTY needs a type and a name"
  | .attributeValue word property =>
    s!"attribute `{word}` of property `{property}` needs a value"
  | .unknownAttribute word property =>
    s!"unknown attribute `{word}` in property `{property}`"
  | .truthValueExpected found => s!"expected `true` or `false`, found `{found}`"
  | .unreadableProperty property => s!"property `{property}` has neither READ nor MEMBER"
  | .constantConflict property => s!"CONSTANT property `{property}` cannot have WRITE or NOTIFY"
  | .malformedEnumerators enumName => s!"malformed enumerator in `{enumName}`"
  | .malformedEnumerator key => s!"malformed enumerator `{key}`"
  | .enumeratorValue key => s!"cannot evaluate value of enumerator `{key}`"
  | .unknownEnum marker enumName className =>
    s!"`{marker}` registers unknown enum `{enumName}` in class `{className}`"
  | .duplicateMethod signature className =>
    s!"`{signature}` is declared twice in class `{className}`"
  | .unknownNotifySignal signal property className =>
    s!"NOTIFY signal `{signal}` of property `{property}` is not declared in `{className}` or its bases"

end CompileFault

/-- A fault with the line that it is reported for. -/
structure LocatedFault where
  line : Nat
  fault : CompileFault
deriving DecidableEq, Repr

/-- A fault in a file of a batch. -/
structure CompileError where
  file : String
  line : Nat
  fault : CompileFault
deriving DecidableEq, Repr

/-- The wording of a compile error, with its place. -/
def CompileError.message (e : CompileError) : String :=
  s!"{e.file}:{e.line}: error: {e.fault.message}"

/-- The fault as an error of `file`. -/
def LocatedFault.inFile (f : LocatedFault) (file : String) : CompileError :=
  ⟨file, f.line, f.fault⟩

end Reflection

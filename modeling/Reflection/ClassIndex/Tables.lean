import Reflection.ClassIndex.Order
import Reflection.Table.Builder
/-!
# Tables of declared classes

Turns the declaration of a class into its table, within the batch that it stands in.
-/

namespace Reflection

/-! ## Methods -/

/-- The method of a function called with its first `arity` parameters. -/
def FunctionDeclaration.spec (f : FunctionDeclaration) (arity : Nat) (cloned : Bool) : MethodSpec :=
  { name := f.name
    returnType := f.returnType
    parameters := (f.parameters.take arity).map fun p => (p.type, p.name.getD "")
    kind := f.kind
    access := f.access
    cloned := cloned }

/-- The method of a function with all its parameters. -/
def FunctionDeclaration.fullSpec (f : FunctionDeclaration) : MethodSpec :=
  f.spec f.parameters.length false

/-- The canonical signature of a function with all its parameters. -/
def FunctionDeclaration.canonical (f : FunctionDeclaration) : String :=
  f.fullSpec.signature.canonical

/-- The shorter forms of a function: one, two and more defaulted parameters left out. -/
def FunctionDeclaration.shorter (f : FunctionDeclaration) : List MethodSpec :=
  (List.range f.defaultedCount).map fun dropped => f.spec (f.parameters.length - (dropped + 1)) true

/-- Adds to `added` each method whose canonical signature is not taken and that of none there. -/
def addNew (isTaken : String → Bool) (added : List MethodSpec) : List MethodSpec → List MethodSpec
  | [] => added
  | m :: ms =>
    let canonical := m.signature.canonical
    if isTaken canonical || added.any (·.signature.canonical = canonical) then addNew isTaken added ms
    else addNew isTaken (added ++ [m]) ms

/-- The methods of functions in the given order. Each function is followed by its shorter forms,
except those whose signature is declared or has been added before. -/
def methodsOf (isDeclared : String → Bool) (functions : List FunctionDeclaration) : List MethodSpec :=
  functions.foldl (fun added f => addNew isDeclared (added ++ [f.fullSpec]) f.shorter) []

/-- The functions of a class by kind: signals, slots, then other methods. -/
def ClassDeclaration.functionsByKind (d : ClassDeclaration) : List FunctionDeclaration :=
  [MethodKind.signal, .slot, .method].flatMap fun kind => d.methods.filter (·.kind = kind)

/-- The first function whose canonical signature comes earlier in the list or is in `seen`. -/
def firstDuplicate? (seen : List String) : List FunctionDeclaration → Option FunctionDeclaration
  | [] => none
  | f :: fs => if seen.contains f.canonical then some f else firstDuplicate? (f.canonical :: seen) fs

/-- The methods of a class. No two functions may have one signature. -/
def ClassDeclaration.methodSpecs (d : ClassDeclaration) : Except LocatedFault (List MethodSpec) :=
  match firstDuplicate? [] d.methods with
  | some f => .error ⟨f.line, .duplicateMethod f.canonical d.name⟩
  | none =>
    let declared := d.methods.map (·.canonical)
    .ok (methodsOf declared.contains d.functionsByKind)

/-! ## Properties -/

/-- The attributes of a property. -/
def PropertyDeclaration.flags (p : PropertyDeclaration) : PropertyFlags :=
  let attributes : List (Bool × PropertyFlags) :=
    [(p.read.isSome || p.member.isSome, .readable),
     (p.write.isSome || (p.member.isSome && !p.constant), .writable),
     (p.member.isSome, .member),
     (p.reset.isSome, .resettable),
     (p.stored, .stored),
     (p.designable, .designable),
     (p.constant, .constant),
     (p.isFinal, .final)]
  attributes.foldl (fun flags (on, flag) => if on then flags.insert flag else flags) .none

/-- The first signal of a name that a class declares itself. -/
def ClassDeclaration.signal? (d : ClassDeclaration) (name : String) : Option FunctionDeclaration :=
  d.methods.find? fun f => f.kind = .signal && f.name = name

namespace ClassIndex

/-- Does a class that this one derives from declare a signal of the name? -/
def inheritsSignal (x : ClassIndex) (d : ClassDeclaration) (name : String) : Bool :=
  match (x.find? d.name).bind x.get? with
  | none => false
  | some this => (x.ancestors this).any fun i => (x.get? i).any fun a => (a.signal? name).isSome

/-- The place of a property's notify signal among the methods of its class. One that is inherited
within the batch has no place there; one that is not declared at all is an error. -/
def notifyIndex? (x : ClassIndex) (b : TableBuilder) (d : ClassDeclaration) (p : PropertyDeclaration) :
    Except LocatedFault (Option Nat) :=
  match p.notify with
  | none => .ok none
  | some name =>
    match d.signal? name with
    | some f => .ok (b.findMethod? f.canonical)
    | none =>
      if x.inheritsSignal d name then .ok none
      else .error ⟨p.line, .unknownNotifySignal name p.name d.name⟩

/-! ## Tables -/

/-- Adds a property of a class to its table. -/
def addProperty (x : ClassIndex) (d : ClassDeclaration) (b : TableBuilder) (p : PropertyDeclaration) :
    Except LocatedFault TableBuilder := do
  return b.addProperty p.name p.type p.flags (← x.notifyIndex? b d p)

/-- Adds a registered enumeration of a class to its table. -/
def addEnum (d : ClassDeclaration) (b : TableBuilder) (r : EnumRegistration) :
    Except LocatedFault TableBuilder :=
  match d.enums.find? (·.name = r.name) with
  | some e => .ok (b.addEnum e.name r.isFlag e.isScoped e.keys)
  | none =>
    .error ⟨r.line, .unknownEnum (if r.isFlag then "H_FLAG" else "H_ENUM") r.name d.name⟩

/-- The table of a class. -/
def tableOf (x : ClassIndex) (d : ClassDeclaration) : Except LocatedFault ClassTable := do
  let b := d.classInfo.foldl (fun b (key, value) => b.addClassInfo key value)
    (TableBuilder.start d.name (x.superName? d))
  let b := (← d.methodSpecs).foldl TableBuilder.addMethod b
  let b ← d.properties.foldlM (x.addProperty d) b
  let b ← d.enumRegistrations.foldlM (addEnum d) b
  return b.table

/-- The tables of the classes of one file, in the given order of all classes. -/
def tablesOfFile (x : ClassIndex) (order : List Nat) (file : Nat) :
    Except LocatedFault (List ClassTable) :=
  (order.filterMap fun i => (x.entries[i]?).filter (·.file = file)).mapM fun e =>
    x.tableOf e.declaration

end ClassIndex
end Reflection

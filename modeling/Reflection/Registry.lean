import Reflection.Artifact
import Reflection.MetaClass
/-!
# The class registry

The registry knows classes by their names. It only grows: the first table of a name stays, and a
class keeps the link to its base that it got when it was registered. An artifact is registered
once, as told by its guard.
-/

namespace Reflection

/-- The registered classes, in the order of registration, and the guards of the registered
artifacts. -/
structure Registry where
  classes : List MetaClass := []
  guards : List String := []
deriving DecidableEq, Repr, Inhabited

namespace Registry

/-! ## Views -/

/-- The class of a name. -/
def get? (r : Registry) (className : String) : Option MetaClass :=
  r.classes.find? (·.name = className)

/-- Is there a class of this name? -/
def contains (r : Registry) (className : String) : Bool :=
  (r.get? className).isSome

/-- The names of the classes, sorted. -/
def names (r : Registry) : List String :=
  (r.classes.map (·.name)).mergeSort

/-! ## Checks -/

/-- Classes that are about to be registered, with the names of their declared bases. -/
abbrev Pending := List (String × Option String)

/-- The declared base of a class. What is pending counts before what is registered, and of two
pending tables of one name the later. -/
def declaredBase? (r : Registry) (pending : Pending) (className : String) : Option String :=
  match pending.reverse.lookup className with
  | some base => base
  | none => (r.get? className).bind (·.superName?)

/-- Does the chain of declared bases from `next` lead to `className`? It ends at a class without a
known base and at the first name that comes again. The number bounds its length. -/
def leadsTo (r : Registry) (pending : Pending) (className : String) :
    Nat → List String → Option String → Bool
  | 0, _, _ => false
  | _, _, none => false
  | n + 1, seen, some name =>
    if name = className then true
    else if seen.contains name then false
    else r.leadsTo pending className n (name :: seen) (r.declaredBase? pending name)

/-- Requires that a table does not derive from itself. A chain without repetition is not longer
than there are known classes. -/
def checkInheritance (r : Registry) (pending : Pending) (t : ClassTable) :
    Except RegistrationError Unit :=
  if r.leadsTo pending t.name (r.classes.length + pending.length + 2) [] t.superName? then
    .error (.invalidTable t.name .cyclicInheritance)
  else .ok ()

/-- Requires that all references in a table are in order. -/
def checkTable (t : ClassTable) : Except RegistrationError Unit :=
  t.validate.mapError (.invalidTable t.name)

/-! ## Registration -/

/-- Adds a class, linked to its declared base if that is known. -/
def add (r : Registry) (t : ClassTable) : MetaClass × Registry :=
  let c := MetaClass.linked t (t.superName?.bind r.get?)
  (c, { r with classes := r.classes ++ [c] })

/-- Registers a table. If its name is known, the known class stays. -/
def registerTable (r : Registry) (t : ClassTable) :
    Except RegistrationError (MetaClass × Registry) :=
  match r.get? t.name with
  | some known => .ok (known, r)
  | none => do
    checkTable t
    r.checkInheritance [] t
    return r.add t

/-- Registers the tables whose names are not known, and counts them. It stops at the first that is
refused; those before it stay. -/
def registerNew (r : Registry) : List ClassTable → Except RegistrationError Nat × Registry
  | [] => (.ok 0, r)
  | t :: ts =>
    if r.contains t.name then r.registerNew ts
    else
      match r.registerTable t with
      | .error e => (.error e, r)
      | .ok (_, r) =>
        let (added, r) := r.registerNew ts
        (added.map (· + 1), r)

/-- Requires the version and every table of an artifact to be in order. -/
def checkArtifact (r : Registry) (a : Artifact) : Except RegistrationError Unit := do
  if a.version ≠ formatVersion then throw (.version a.version)
  let pending := a.classes.map fun t => (t.name, t.superName?)
  a.classes.forM fun t => do
    checkTable t
    r.checkInheritance pending t

/-- Registers an artifact and counts the classes that were added: none if the guard is known. -/
def registerArtifact (r : Registry) (a : Artifact) : Except RegistrationError Nat × Registry :=
  match r.checkArtifact a with
  | .error e => (.error e, r)
  | .ok () =>
    if r.guards.contains a.guard then (.ok 0, r)
    else { r with guards := a.guard :: r.guards }.registerNew a.classes

/-- Registers an artifact that is given as a JSON text. -/
def registerText [Json.Library] (r : Registry) (text : String) : Except RegistrationError Nat × Registry :=
  match Artifact.ofText text with
  | .error e => (.error e, r)
  | .ok a => r.registerArtifact a

end Registry
end Reflection

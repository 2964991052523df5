import Reflection.Arena
import Reflection.Context
import Reflection.MetaClass
/-!
# Registered objects

An object is registered with a dispatcher under an id. The registration knows the object's class
and context and the connections at either end; the object itself is only referred to, not kept.
-/

namespace Reflection

/-- The id of a registered object. -/
abbrev ObjectId := Key

/-- The id of a connection. -/
abbrev ConnectionId := Key

/-- The number of an object as its owners know it. -/
abbrev InstanceId := Nat

/-- The stations of an object's life. -/
inductive ObjectState where
  /-- Not registered yet. -/
  | constructed
  | active
  /-- Its connections are being cut. -/
  | destroying
  | destroyed
deriving DecidableEq, Repr, Inhabited

/-- What a dispatcher knows about a registered object. -/
structure Registration where
  owner : InstanceId
  metaClass : MetaClass
  context : Context
  name : String := ""
  state : ObjectState := .active
  blocked : Bool := false
  /-- The connections from this object with their signals, in the order in which they were made. -/
  outgoing : List (Nat × ConnectionId) := []
  /-- The connections to this object, in the order in which they were made. -/
  incoming : List ConnectionId := []
deriving DecidableEq, Repr, Inhabited

namespace Registration

/-- May the object emit and receive? -/
def isActive (r : Registration) : Bool :=
  r.state = .active

/-- The connections of one signal, in the order in which they were made. -/
def outgoingOf (r : Registration) (signal : Nat) : List ConnectionId :=
  (r.outgoing.filter (·.1 = signal)).map (·.2)

/-- Connections signal by signal, the signals of `order` first. -/
def bySignal : List Nat → List (Nat × ConnectionId) → List ConnectionId
  | [], links => links.map (·.2)
  | signal :: order, links =>
    (links.filter (·.1 = signal)).map (·.2) ++ bySignal order (links.filter (·.1 ≠ signal))

/-- The connections from this object, signal by signal, those of each signal in the order in which they were
made. A hash map has the lists of the signals, so which signal comes first is open: `order` tells. -/
def outgoingBy (r : Registration) (order : List Nat) : List ConnectionId :=
  bySignal (order ++ r.outgoing.map (·.1)) r.outgoing

/-- Removes a connection at both ends. -/
def unlink (r : Registration) (id : ConnectionId) : Registration :=
  { r with
    outgoing := r.outgoing.filter (·.2 ≠ id)
    incoming := r.incoming.filter (· ≠ id) }

end Registration

/-- Why an operation on an object fails. -/
inductive ObjectError where
  | invalidObjectId
  | destroying
  | alreadyRegistered
  | unknownClass (name : String)
  | propertyNotFound (name : String)
  | propertyReadOnly (name : String)
  | propertyNotReadable (name : String)
  | propertyNotResettable (name : String)
  /-- The object did not take a value of type `got`. -/
  | propertyTypeMismatch (name got : String)
deriving DecidableEq, Repr

/-- The wording of an object error. -/
def ObjectError.message : ObjectError → String
  | .invalidObjectId => "Invalid or destroyed object ID"
  | .destroying => "Object is being destroyed"
  | .alreadyRegistered => "Object is already registered"
  | .unknownClass name => s!"No metadata registered for class `{name}`"
  | .propertyNotFound name => s!"Property `{name}` not found"
  | .propertyReadOnly name => s!"Property `{name}` is read-only"
  | .propertyNotReadable name => s!"Property `{name}` cannot be read"
  | .propertyNotResettable name => s!"Property `{name}` cannot be reset"
  | .propertyTypeMismatch name got => s!"Value of type {got} rejected by property `{name}`"

end Reflection

import Reflection.Context.Queue
import Reflection.Dispatcher.Invocation
/-!
# Dispatchers

A dispatcher holds the registered objects, the connections between them and the queues of work for
each context. This module has the state, its views and the operations on single objects.
-/

namespace Reflection

/-- The state of a dispatcher. -/
structure Dispatcher where
  objects : Arena Registration := .empty
  connections : Arena Connection := .empty
  queues : Queues Invocation := .empty
  /-- The number of milliseconds for which a caller waits at most, if there is a bound. -/
  timeout : Option Nat := none
deriving Repr

namespace Dispatcher

instance : Inhabited Dispatcher :=
  ⟨{}⟩

/-! ## Views -/

/-- The registration of an object. -/
def object? (d : Dispatcher) (id : ObjectId) : Option Registration :=
  d.objects.get? id

/-- The registration of an object that may emit and receive. -/
def active? (d : Dispatcher) (id : ObjectId) : Option Registration :=
  (d.object? id).filter (·.isActive)

/-- The registration of an object that is to be spoken to. -/
def receiver (d : Dispatcher) (id : ObjectId) : Except ObjectError Registration :=
  match d.object? id with
  | none => .error .invalidObjectId
  | some r => if r.isActive then .ok r else .error .destroying

/-- The state of an object. What is not registered counts as destroyed. -/
def state (d : Dispatcher) (id : ObjectId) : ObjectState :=
  ((d.object? id).map (·.state)).getD .destroyed

/-- May the object emit and receive? -/
def contains (d : Dispatcher) (id : ObjectId) : Bool :=
  (d.active? id).isSome

/-- The number of connections of the signal of an object whose signature a text spells. -/
def receivers (d : Dispatcher) (sender : ObjectId) (signal : String) : Nat :=
  match d.object? sender with
  | none => 0
  | some r =>
    match r.metaClass.indexOfSignal? signal with
    | none => 0
    | some i => (r.outgoingOf i).length

/-- How much waits for a context. -/
def pending (d : Dispatcher) (c : Context) : Nat :=
  d.queues.pending c

/-- A text that says how much there is. -/
def description (d : Dispatcher) : String :=
  let bound :=
    match d.timeout with
    | none => "None"
    | some t => "Some(" ++ Text.duration t ++ ")"
  "Runtime \x7b objects: " ++ toString d.objects.size ++ ", connections: "
    ++ toString d.connections.size ++ ", config: DispatchConfig \x7b blocking_timeout: " ++ bound
    ++ " \x7d \x7d"

/-! ## Single objects -/

/-- Changes the registration of an object. -/
def modifyObject (d : Dispatcher) (id : ObjectId) (f : Registration → Registration) : Dispatcher :=
  { d with objects := d.objects.modify id f }

/-- Registers an object in a context. -/
def register (d : Dispatcher) (owner : InstanceId) (metaClass : MetaClass) (context : Context) :
    ObjectId × Dispatcher :=
  let (id, objects) := d.objects.insert { owner, metaClass, context }
  (id, { d with objects })

/-- Takes an object to another context. What waits in the old one stays there. -/
def move (d : Dispatcher) (id : ObjectId) (context : Context) : Except ObjectError Dispatcher :=
  (d.receiver id).map fun _ => d.modifyObject id fun r => { r with context }

/-- Names an object. -/
def setName (d : Dispatcher) (id : ObjectId) (name : String) : Except ObjectError Dispatcher :=
  match d.object? id with
  | none => .error .invalidObjectId
  | some _ => .ok (d.modifyObject id fun r => { r with name })

/-- Stops an object from emitting, or lets it again. The answer holds what was so before. -/
def block (d : Dispatcher) (id : ObjectId) (blocked : Bool) :
    Except ObjectError (Bool × Dispatcher) :=
  match d.object? id with
  | none => .error .invalidObjectId
  | some r => .ok (r.blocked, d.modifyObject id fun r => { r with blocked })

end Dispatcher

/-- The property of a given name. -/
def MetaClass.propertyNamed (c : MetaClass) (name : String) : Except ObjectError Property :=
  match (c.indexOfProperty? name).bind c.property? with
  | none => .error (.propertyNotFound name)
  | some p => .ok p

end Reflection

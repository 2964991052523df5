import Reflection.Dispatcher
/-!
# Emissions and calls

What an emission or a call has to pass before anything is delivered, and the way that each delivery
takes. An emission goes to the connections that there are when it begins.
-/

namespace Reflection

/-- The way of one delivery. -/
inductive Route where
  /-- The receiver is gone. -/
  | skip
  | callNow (target : Target)
  | enqueue (context : Context) (target : Target)
  /-- Enqueue and wait. -/
  | wait (context : Context) (target : Target)
  | fail (error : DispatchError)
deriving DecidableEq, Repr

namespace Dispatcher

/-- The way to a target that runs in `context`, for a caller in `current`. -/
def route (type : ConnectionType) (current context : Context) (target : Target) : Route :=
  match type with
  | .direct | .auto =>
    if context = current then .callNow target else .enqueue context target
  | .queued => .enqueue context target
  | .blocking =>
    if context = current then .fail (.blockingSameContext context) else .wait context target

/-- The way of a delivery over a connection. -/
def routeOver (d : Dispatcher) (c : Connection) (current : Context) : Route :=
  match c.target with
  | .callback context _ => route c.type current context c.target
  | .method receiver _ =>
    match d.active? receiver with
    | none => .skip
    | some r => route c.type current r.context c.target

/-- Requires a number of arguments. -/
def requireArguments (expected got : Nat) : Except DispatchError Unit :=
  if got = expected then .ok () else .error (.argumentCount expected got)

/-- The object and the absolute index of its method whose signature a text spells. -/
def methodNamed (d : Dispatcher) (id : ObjectId) (text : String) :
    Except DispatchError (Registration × Nat) := do
  let s ← (Signature.parse text).mapError .invalidSignature
  match d.object? id with
  | none => throw (.object .invalidObjectId)
  | some r =>
    match r.metaClass.indexOfCanonical? s.canonical with
    | none => throw (.unknownMethod r.metaClass.name s.canonical)
    | some i => return (r, i)

/-- The connections of a signal that there are, in the order in which they were made. -/
def snapshot (d : Dispatcher) (r : Registration) (signal : Nat) :
    List (ConnectionId × Connection) :=
  (r.outgoingOf signal).filterMap fun id => (d.connections.get? id).map (id, ·)

/-- The deliveries that an emission of a signal, given by its absolute index, has to make. An object
that is not active or is blocked emits to no one. -/
def beginEmission (d : Dispatcher) (sender : ObjectId) (signal : Nat) (args : List Variant) :
    Except DispatchError (List (ConnectionId × Connection)) :=
  match d.object? sender with
  | none => .error (.object .invalidObjectId)
  | some r =>
    match r.metaClass.method? signal with
    | none => .error (.invalidMethodIndex r.metaClass.name signal)
    | some m => do
      if m.entry.kind ≠ .signal then throw (.notASignal r.metaClass.name signal)
      requireArguments m.entry.parameterCount args.length
      return if r.isActive && !r.blocked then d.snapshot r signal else []

/-- The deliveries that an emission of a signal, given by its signature, has to make. -/
def beginEmissionNamed (d : Dispatcher) (sender : ObjectId) (signal : String)
    (args : List Variant) : Except DispatchError (List (ConnectionId × Connection)) := do
  let (_, i) ← d.methodNamed sender signal
  d.beginEmission sender i args

/-- The way of a call of a method, given by its signature, for a caller in `current`. -/
def beginCall (d : Dispatcher) (id : ObjectId) (method : String) (type : ConnectionType)
    (args : List Variant) (current : Context) : Except DispatchError Route := do
  let (r, i) ← d.methodNamed id method
  requireArguments (((r.metaClass.method? i).map (·.entry.parameterCount)).getD 0) args.length
  if !r.isActive then throw (.object .destroying)
  return route type current r.context (.method id i)

/-- Puts a call into the queue of a context. -/
def enqueue (d : Dispatcher) (context : Context) (i : Invocation) : Dispatcher :=
  { d with queues := d.queues.post context (.work i) }

end Dispatcher
end Reflection

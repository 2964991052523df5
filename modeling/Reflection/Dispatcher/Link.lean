import Reflection.Dispatcher
/-!
# Making and cutting connections

A connection stands in three places: among all connections, with its signal in the list of its
sender and, if it leads to an object, in the list of its receiver. Making one adds it to all three
and cutting one removes it from all three. A connection that cannot be made changes nothing.
-/

namespace Reflection

namespace MetaClass

/-- The method at an absolute index, which has to be a signal. -/
def signal (c : MetaClass) (i : Nat) : Except ConnectionError Method :=
  match c.method? i with
  | none => .error (.unknownSignal c.name s!"#{i}")
  | some m => if m.entry.kind = .signal then .ok m else .error (.notASignal c.name i)

/-- The absolute index of a signal. -/
def signalIndex (c : MetaClass) (s : Signature) : Except ConnectionError Nat :=
  match c.indexOfCanonical? s.canonical with
  | none => .error (.unknownSignal c.name s.canonical)
  | some i => (c.signal i).map fun _ => i

/-- The absolute index of a method that is to be a slot. -/
def slotIndex (c : MetaClass) (s : Signature) : Except ConnectionError Nat :=
  match c.indexOfCanonical? s.canonical with
  | none => .error (.unknownSlot c.name s.canonical)
  | some i => .ok i

/-- The method at an absolute index, which is to be a slot. -/
def slot (c : MetaClass) (i : Nat) : Except ConnectionError Method :=
  match c.method? i with
  | none => .error (.unknownSlot c.name s!"#{i}")
  | some m => .ok m

end MetaClass

namespace Dispatcher

/-! ## Making connections -/

/-- Reads a signature for a connection. -/
def parseSignature (text : String) : Except ConnectionError Signature :=
  (Signature.parse text).mapError .invalidSignature

/-- The registration of an end of a connection. -/
def endpoint (d : Dispatcher) (id : ObjectId) : Except ConnectionError Registration :=
  match d.object? id with
  | none => .error (.object .invalidObjectId)
  | some r => .ok r

/-- Requires that an end of a connection may emit and receive. -/
def requireActive (r : Registration) : Except ConnectionError Unit :=
  if r.isActive then .ok () else .error (.object .destroying)

/-- Adds a connection. -/
def link (d : Dispatcher) (c : Connection) : ConnectionId × Dispatcher :=
  let (id, connections) := d.connections.insert c
  let d := { d with connections }
  let d := d.modifyObject c.sender fun r => { r with outgoing := r.outgoing ++ [(c.signal, id)] }
  match c.target.receiver? with
  | none => (id, d)
  | some receiver =>
    (id, d.modifyObject receiver fun r => { r with incoming := r.incoming ++ [id] })

/-- Connects two methods, given by their absolute indices. Their parameter types must agree. -/
def connectByIndex (d : Dispatcher) (sender : ObjectId) (signal : Nat) (receiver : ObjectId)
    (slot : Nat) (type : ConnectionType) : Except ConnectionError (ConnectionId × Dispatcher) := do
  let source ← d.endpoint sender
  let destination ← d.endpoint receiver
  let s ← source.metaClass.signal signal
  let t ← destination.metaClass.slot slot
  if !Signature.compatible s.parameterTypes t.parameterTypes then
    throw (.signatureMismatch s.signature t.signature)
  requireActive source
  requireActive destination
  return d.link { sender, signal, target := .method receiver slot, type }

/-- Connects two methods, given by their signatures. -/
def connect (d : Dispatcher) (sender : ObjectId) (signal : String) (receiver : ObjectId)
    (slot : String) (type : ConnectionType) : Except ConnectionError (ConnectionId × Dispatcher) :=
  do
  let signal ← parseSignature signal
  let slot ← parseSignature slot
  let source ← d.endpoint sender
  let destination ← d.endpoint receiver
  let i ← source.metaClass.signalIndex signal
  let j ← destination.metaClass.slotIndex slot
  d.connectByIndex sender i receiver j type

/-- Connects a signal, given by its signature, to a callback that will run in `context`. -/
def connectCallback (d : Dispatcher) (sender : ObjectId) (signal : String) (context : Context)
    (callback : CallbackId) (type : ConnectionType) :
    Except ConnectionError (ConnectionId × Dispatcher) := do
  let signal ← parseSignature signal
  let source ← d.endpoint sender
  let i ← source.metaClass.signalIndex signal
  requireActive source
  return d.link { sender, signal := i, target := .callback context callback, type }

/-! ## Cutting connections -/

/-- Removes a connection from the list of one end. -/
def unlink (d : Dispatcher) (object : ObjectId) (id : ConnectionId) : Dispatcher :=
  d.modifyObject object (·.unlink id)

/-- Cuts a connection, if there is one of this id, and says which it was. -/
def disconnect (d : Dispatcher) (id : ConnectionId) : Option Connection × Dispatcher :=
  match d.connections.get? id with
  | none => (none, d)
  | some c =>
    let d := { d with connections := d.connections.erase id }
    let d := d.unlink c.sender id
    match c.target.receiver? with
    | none => (some c, d)
    | some receiver => (some c, if receiver = c.sender then d else d.unlink receiver id)

/-- The connections from an object, the signals of `order` first. -/
def outgoing (d : Dispatcher) (order : List Nat) (sender : ObjectId) : List ConnectionId :=
  ((d.object? sender).map (·.outgoingBy order)).getD []

/-- Cuts connections and counts those that there were. -/
def disconnectEach (d : Dispatcher) : List ConnectionId → Nat × Dispatcher
  | [] => (0, d)
  | id :: ids =>
    let (cut, d) := d.disconnect id
    let (count, d) := d.disconnectEach ids
    (if cut.isSome then count + 1 else count, d)

/-- Cuts all connections from an object and counts them. -/
def disconnectAll (d : Dispatcher) (order : List Nat) (sender : ObjectId) : Nat × Dispatcher :=
  d.disconnectEach (d.outgoing order sender)

/-! ## Destroying objects

An object is destroyed in steps. It stops being active and its lists are taken from it; then its
connections are cut one by one; then its registration goes. -/

/-- The first step. Gives the connections to be cut, first those from the object, the signals of `order`
first. There are none of an object that is not active. -/
def beginDestroy? (d : Dispatcher) (order : List Nat) (id : ObjectId) :
    Option (List ConnectionId × Dispatcher) :=
  match d.active? id with
  | none => none
  | some r =>
    some (r.outgoingBy order ++ r.incoming,
      d.modifyObject id fun r => { r with state := .destroying, outgoing := [], incoming := [] })

/-- Cuts a connection of the object `gone`, whose own lists are empty already. -/
def sever (d : Dispatcher) (gone : ObjectId) (id : ConnectionId) : Option Connection × Dispatcher :=
  match d.connections.get? id with
  | none => (none, d)
  | some c =>
    let d := { d with connections := d.connections.erase id }
    let d := if c.sender = gone then d else d.unlink c.sender id
    match c.target.receiver? with
    | none => (some c, d)
    | some receiver => (some c, if receiver = gone then d else d.unlink receiver id)

/-- Cuts connections of the object `gone`. -/
def severEach (d : Dispatcher) (gone : ObjectId) (ids : List ConnectionId) : Dispatcher :=
  ids.foldl (fun d id => (d.sever gone id).2) d

/-- The last step. -/
def endDestroy (d : Dispatcher) (id : ObjectId) : Dispatcher :=
  { d with objects := d.objects.erase id }

/-- Destroys an object, with nothing in between the steps. Says whether it was active. -/
def destroy (d : Dispatcher) (order : List Nat) (id : ObjectId) : Bool × Dispatcher :=
  match d.beginDestroy? order id with
  | none => (false, d)
  | some (ids, d) => (true, (d.severEach id ids).endDestroy id)

end Dispatcher
end Reflection

import Reflection.Dispatcher
/-!
# Overviews

A text that lists the objects and the connections of a dispatcher.
-/

namespace Reflection

/-- The text of an object id. -/
def ObjectId.text (id : ObjectId) : String :=
  s!"ObjectId({Key.text id})"

namespace Dispatcher

/-- The line of an object. -/
def objectLine (id : ObjectId) (r : Registration) : String :=
  let label := if r.name.isEmpty then "" else " \"" ++ r.name ++ "\""
  s!"  {r.metaClass.name}{label} [{ObjectId.text id}] out={r.outgoing.length} in={r.incoming.length}\n"

/-- The signature of a method of an object, if both are known. -/
def signature? (d : Dispatcher) (id : ObjectId) (index : Nat) : Option String :=
  ((d.object? id).bind fun r => r.metaClass.method? index).map (·.signature)

/-- The text of a target. -/
def targetText (d : Dispatcher) : Target → String
  | .callback .. => "<callback>"
  | .method receiver index =>
    match d.signature? receiver index with
    | some signature => s!"{ObjectId.text receiver}.{signature}"
    | none => s!"{ObjectId.text receiver}#{index}"

/-- The line of a connection. -/
def connectionLine (d : Dispatcher) (c : Connection) : String :=
  let signal := (d.signature? c.sender c.signal).getD s!"#{c.signal}"
  s!"  {ObjectId.text c.sender}.{signal} -> {d.targetText c.target} ({c.type.name})\n"

/-- The overview, without the connections if only the objects are wanted. -/
def overview (d : Dispatcher) (objectsOnly : Bool) : String :=
  let objects := s!"objects ({d.objects.size}):\n"
    ++ String.join (d.objects.toList.map fun (id, r) => objectLine id r)
  if objectsOnly then objects
  else
    objects ++ s!"connections ({d.connections.size}):\n"
      ++ String.join (d.connections.toList.map fun (_, c) => d.connectionLine c)

end Dispatcher
end Reflection

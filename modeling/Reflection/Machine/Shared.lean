import Reflection.Dispatcher.Emission
import Reflection.Registry
/-!
# What threads share

Client code works on dispatchers, objects and callbacks that it holds. Each knows how many hold it,
and a dispatcher also how many of its handles are the client's own. Dispatchers refer to objects but
do not hold them; connections, queued calls and emissions under way hold the callbacks that they lead
to.
-/

namespace Reflection

/-- The number of a dispatcher. -/
abbrev DispatcherId := Nat

/-- A dispatcher and the number of its handles. It is gone when it has none. -/
structure Hosted where
  dispatcher : Dispatcher := {}
  handles : Nat := 0
  /-- The number of handles that client code has. Operations under way have the others. -/
  owned : Nat := 0
  /-- The number of these that loops of client code have, one each. -/
  loops : Nat := 0
deriving Repr, Inhabited

/-- The number of a quit handle. -/
abbrev QuitHandleId := Nat

/-- What client code asks loops to quit by. It holds the queue that they serve, but no dispatcher. -/
structure QuitHandle where
  dispatcher : DispatcherId
  context : Context
  queue : QueueId
deriving DecidableEq, Repr

/-- An object as its owners know it. -/
structure Instance where
  className : String
  /-- The number of references to it. -/
  owners : Nat := 1
  /-- The registration, once there was one. -/
  binding : Option (DispatcherId × ObjectId) := none
deriving DecidableEq, Repr

/-- Something held that is given back when it is no longer needed. -/
inductive Held where
  | dispatcher (d : DispatcherId)
  | object (i : InstanceId)
  | callback (c : CallbackId)
  /-- The duty to tell a waiting caller how its call ended. -/
  | completion (k : CompletionId)
deriving DecidableEq, Repr

/-- What all threads share. -/
structure Shared where
  registry : Registry := {}
  dispatchers : List Hosted := []
  instances : List Instance := []
  /-- The number of holders of each callback. -/
  callbacks : List Nat := []
  /-- What became of each call for which a caller waits. -/
  completions : List (Option Completion) := []
  /-- The quit handles, as long as client code has them. -/
  quitHandles : List (Option QuitHandle) := []
  /-- The signals that come first when all connections of an object are gone through. -/
  signalOrder : List Nat := []
  /-- The time in milliseconds. It only moves when every thread waits. -/
  now : Nat := 0
deriving Repr, Inhabited

/-- What is held for a call that waits in a queue. -/
def Invocation.held (i : Invocation) : List Held :=
  (i.target.callback?.map Held.callback).toList ++ (i.completion.map Held.completion).toList

namespace Dispatcher

/-- What a dispatcher holds. -/
def held (d : Dispatcher) : List Held :=
  (d.connections.toList.filterMap fun (_, c) => c.target.callback?.map .callback)
    ++ d.queues.allWork.flatMap Invocation.held

end Dispatcher

namespace Shared

/-! ## Views -/

/-- The state of a dispatcher. -/
def dispatcher (s : Shared) (d : DispatcherId) : Dispatcher :=
  (s.dispatchers[d]?.map (·.dispatcher)).getD {}

/-- Has a dispatcher a handle? -/
def isOpen (s : Shared) (d : DispatcherId) : Bool :=
  s.dispatchers[d]?.any (·.handles ≠ 0)

/-- Has client code a handle of a dispatcher, other than those of its loops? -/
def isOwned (s : Shared) (d : DispatcherId) : Bool :=
  s.dispatchers[d]?.any fun h => h.loops < h.owned

/-- A quit handle that client code has. -/
def quitHandle? (s : Shared) (h : QuitHandleId) : Option QuitHandle :=
  s.quitHandles[h]?.join

/-- Has an object an owner? -/
def isAlive (s : Shared) (i : InstanceId) : Bool :=
  s.instances[i]?.any (·.owners ≠ 0)

/-- The registration of an object, once there was one. -/
def binding? (s : Shared) (i : InstanceId) : Option (DispatcherId × ObjectId) :=
  s.instances[i]?.bind (·.binding)

/-- The registration of an object, if its dispatcher is not gone. -/
def openBinding? (s : Shared) (i : InstanceId) : Option (DispatcherId × ObjectId) :=
  (s.binding? i).filter fun (d, _) => s.isOpen d

/-- The state of an object as it knows it itself. -/
def stateOf (s : Shared) (i : InstanceId) : ObjectState :=
  match s.binding? i with
  | none => .constructed
  | some (d, id) => if s.isOpen d then (s.dispatcher d).state id else .destroyed

/-! ## Changes -/

/-- Replaces the state of a dispatcher. -/
def setDispatcher (s : Shared) (d : DispatcherId) (x : Dispatcher) : Shared :=
  { s with dispatchers := s.dispatchers.modify d fun h => { h with dispatcher := x } }

/-- A new dispatcher with one handle, which client code gets. -/
def addDispatcher (s : Shared) (timeout : Option Nat) : DispatcherId × Shared :=
  (s.dispatchers.length, { s with
    dispatchers := s.dispatchers ++ [{ dispatcher := { timeout }, handles := 1, owned := 1 }] })

/-- One more handle for client code. -/
def share (s : Shared) (d : DispatcherId) : Shared :=
  { s with
    dispatchers := s.dispatchers.modify d fun h =>
      { h with handles := h.handles + 1, owned := h.owned + 1 } }

/-- Client code hands over one of its handles. -/
def disown (s : Shared) (d : DispatcherId) : Shared :=
  { s with dispatchers := s.dispatchers.modify d fun h => { h with owned := h.owned - 1 } }

/-- A loop gets one of client code's handles. -/
def lend (s : Shared) (d : DispatcherId) : Shared :=
  { s with dispatchers := s.dispatchers.modify d fun h => { h with loops := h.loops + 1 } }

/-- A loop gives its handle back to client code. -/
def regain (s : Shared) (d : DispatcherId) : Shared :=
  { s with dispatchers := s.dispatchers.modify d fun h => { h with loops := h.loops - 1 } }

/-- Changes the queues of a dispatcher. -/
def modifyQueues (s : Shared) (d : DispatcherId) (f : Queues Invocation → Queues Invocation) :
    Shared :=
  s.setDispatcher d { s.dispatcher d with queues := f (s.dispatcher d).queues }

/-- A new quit handle. -/
def addQuitHandle (s : Shared) (h : QuitHandle) : QuitHandleId × Shared :=
  (s.quitHandles.length,
    { s.modifyQueues h.dispatcher (·.hold h.queue) with quitHandles := s.quitHandles ++ [some h] })

/-- A new object with one owner. -/
def addInstance (s : Shared) (className : String) : InstanceId × Shared :=
  (s.instances.length, { s with instances := s.instances ++ [{ className }] })

/-- A new callback with one holder. -/
def addCallback (s : Shared) : CallbackId × Shared :=
  (s.callbacks.length, { s with callbacks := s.callbacks ++ [1] })

/-- A new completion. -/
def addCompletion (s : Shared) : CompletionId × Shared :=
  (s.completions.length, { s with completions := s.completions ++ [none] })

/-- Tells how a call ended, if that was not told before. -/
def complete (s : Shared) (k : CompletionId) (c : Completion) : Shared :=
  { s with completions := s.completions.modify k fun x => some (x.getD c) }

/-- Registers an object in a context. An object is registered once in its life. -/
def register (s : Shared) (d : DispatcherId) (i : InstanceId) (context : Context) :
    Except ObjectError (ObjectId × Shared) :=
  match s.instances[i]? with
  | none => .error .invalidObjectId
  | some x =>
    if x.binding.isSome then .error .alreadyRegistered
    else
      match s.registry.get? x.className with
      | none => .error (.unknownClass x.className)
      | some c =>
        let (id, new) := (s.dispatcher d).register i c context
        let s := s.setDispatcher d new
        .ok (id, { s with instances := s.instances.modify i ({ · with binding := some (d, id) }) })

/-- One more holder. -/
def retain (s : Shared) : Held → Shared
  | .dispatcher d =>
    { s with dispatchers := s.dispatchers.modify d fun h => { h with handles := h.handles + 1 } }
  | .object i =>
    { s with instances := s.instances.modify i fun x => { x with owners := x.owners + 1 } }
  | .callback c => { s with callbacks := s.callbacks.modify c (· + 1) }
  | .completion _ => s

/-- One more holder of each. -/
def retainAll (s : Shared) (held : List Held) : Shared :=
  held.foldl retain s

/-- One holder less of a dispatcher, an object or a callback; a completion is told that its call was
given up. Says whether this was the last. -/
def letGo (s : Shared) : Held → Bool × Shared
  | .dispatcher d =>
    (s.dispatchers[d]?.any (·.handles = 1),
      { s with dispatchers := s.dispatchers.modify d fun h => { h with handles := h.handles - 1 } })
  | .object i =>
    (s.instances[i]?.any (·.owners = 1),
      { s with instances := s.instances.modify i fun x => { x with owners := x.owners - 1 } })
  | .callback c =>
    (s.callbacks[c]?.any (· = 1), { s with callbacks := s.callbacks.modify c (· - 1) })
  | .completion k => (false, s.complete k .dropped)

end Shared
end Reflection

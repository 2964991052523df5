import Reflection.Context.Loop
import Reflection.Machine.Shared
/-!
# What a thread is doing

A thread is either in client code or somewhere in an operation that client code asked for. Client
code runs as the program of the thread, in methods and callbacks that are called, in the accessors
of properties, and when an object or callback is disposed of. Operations may run client code and go
on after it, so what a thread has begun forms a stack of frames, the innermost first.
-/

namespace Reflection

/-! ## Client code -/

/-- Where client code begins. -/
inductive Entry where
  /-- The thread's own program. -/
  | program
  | method (object : InstanceId) (method : MetaClass.Method) (args : List Variant)
  | callback (number : CallbackId) (args : List Variant)
  | reader (object : InstanceId) (property : MetaClass.Property)
  | writer (object : InstanceId) (property : MetaClass.Property) (value : Variant)
  | resetter (object : InstanceId) (property : MetaClass.Property)
  /-- The last reference to the object is gone. -/
  | disposer (object : InstanceId)
  /-- The last holder of the callback is gone. -/
  | callbackDisposer (number : CallbackId)
deriving Repr

/-- How client code ends. -/
inductive Yield where
  | returned (value : Option Variant)
  | failed (error : InvokeError)
  /-- What the writer or resetter of a property says. -/
  | accepted (yes : Bool)
deriving Repr, Inhabited

/-- How long a loop runs. -/
inductive LoopMode where
  /-- As long as there is work. -/
  | whileWork
  | untilQuit
  /-- Until it is asked to quit or the time has come with nothing to do. -/
  | untilTime (deadline : Nat)
deriving DecidableEq, Repr

/-- The number of a loop of client code among those of its thread. -/
abbrev LoopId := Nat

/-- Why a loop ended. -/
inductive LoopExit where
  | empty
  | quit
  | timedOut
deriving DecidableEq, Repr

/-- What client code can ask for. -/
inductive Action where
  | newDispatcher (timeout : Option Nat)
  | shareDispatcher (d : DispatcherId)
  | dropDispatcher (d : DispatcherId)
  | newObject (className : String)
  | dropObject (i : InstanceId)
  | newCallback
  | register (d : DispatcherId) (i : InstanceId)
  | destroy (d : DispatcherId) (id : ObjectId)
  | move (d : DispatcherId) (id : ObjectId) (context : Context)
  | setName (d : DispatcherId) (id : ObjectId) (name : String)
  | block (d : DispatcherId) (id : ObjectId) (blocked : Bool)
  | connect (d : DispatcherId) (sender : ObjectId) (signal : String) (receiver : ObjectId)
      (slot : String) (type : ConnectionType)
  | connectByIndex (d : DispatcherId) (sender : ObjectId) (signal : Nat) (receiver : ObjectId)
      (slot : Nat) (type : ConnectionType)
  /-- Hands the callback over to the connection. -/
  | connectCallback (d : DispatcherId) (sender : ObjectId) (signal : String) (callback : CallbackId)
      (type : ConnectionType)
  | disconnect (d : DispatcherId) (id : ConnectionId)
  | disconnectAll (d : DispatcherId) (sender : ObjectId)
  | emit (d : DispatcherId) (sender : ObjectId) (signal : String) (args : List Variant)
  | emitByIndex (d : DispatcherId) (sender : ObjectId) (signal : Nat) (args : List Variant)
  /-- An object emits its own signal. -/
  | emitOwn (i : InstanceId) (signal : String) (args : List Variant)
  | emitOwnByIndex (i : InstanceId) (signal : Nat) (args : List Variant)
  | call (d : DispatcherId) (id : ObjectId) (method : String) (type : ConnectionType)
      (args : List Variant)
  | read (d : DispatcherId) (id : ObjectId) (property : String)
  | write (d : DispatcherId) (id : ObjectId) (property : String) (value : Variant)
  | reset (d : DispatcherId) (id : ObjectId) (property : String)
  /-- Asks the loop of a context to quit. -/
  | quit (d : DispatcherId) (context : Context)
  /-- Makes a loop for a context, runs it and ends it. -/
  | serve (d : DispatcherId) (context : Context) (mode : LoopMode)
  /-- Puts the thread into a context. -/
  | enter (context : Context)
  /-- Makes a loop for a context, which client code keeps. -/
  | newLoop (d : DispatcherId) (context : Context)
  | useLoop (l : LoopId) (mode : LoopMode)
  | dropLoop (l : LoopId)
  | newQuitHandle (l : LoopId)
  | copyQuitHandle (h : QuitHandleId)
  | quitBy (h : QuitHandleId)
  | dropQuitHandle (h : QuitHandleId)
deriving Repr

/-- The dispatcher that an action is about. -/
def Action.dispatcher? : Action → Option DispatcherId
  | .newDispatcher _ | .newObject _ | .dropObject _ | .newCallback | .emitOwn _ _ _
  | .emitOwnByIndex _ _ _ | .enter _ | .useLoop _ _ | .dropLoop _ | .newQuitHandle _
  | .copyQuitHandle _ | .quitBy _ | .dropQuitHandle _ => none
  | .shareDispatcher d | .dropDispatcher d | .register d _ | .destroy d _ | .move d _ _
  | .setName d _ _ | .block d _ _ | .connect d _ _ _ _ _ | .connectByIndex d _ _ _ _ _
  | .connectCallback d _ _ _ _ | .disconnect d _ | .disconnectAll d _ | .emit d _ _ _
  | .emitByIndex d _ _ _ | .call d _ _ _ _ | .read d _ _ | .write d _ _ _ | .reset d _ _
  | .quit d _ | .serve d _ _ | .newLoop d _ => some d

/-- What client code gets for an action. -/
inductive Answer where
  | done
  | flag (yes : Bool)
  | count (n : Nat)
  | dispatcher (d : DispatcherId)
  | object (i : InstanceId)
  | callback (c : CallbackId)
  | registered (result : Except ObjectError ObjectId)
  | changed (result : Except ObjectError Unit)
  | blocked (result : Except ObjectError Bool)
  | connected (result : Except ConnectionError ConnectionId)
  | emitted (result : Except DispatchError EmitReport)
  | returned (result : Except DispatchError (Option Variant))
  | property (result : Except ObjectError Variant)
  | served (exit : LoopExit) (executed : Nat)
  /-- The context that was left. -/
  | entered (previous : Context)
  | loop (l : LoopId)
  | quitHandle (h : QuitHandleId)
deriving Repr, Inhabited

/-! ## Operations under way -/

/-- How a call ended. -/
inductive CallResult where
  | returned (value : Option Variant)
  | failed (error : DispatchError)
  /-- The receiver was gone. -/
  | skipped
deriving Repr

/-- What a frame hands to the one below it when it ends. -/
inductive Reply where
  | nothing
  | yielded (y : Yield)
  | called (result : CallResult)
  /-- How the call ended that was waited for, if it ended in time. -/
  | completed (c : Option Completion)
  | answer (a : Answer)
deriving Repr

/-- An emission under way. -/
structure Emission where
  dispatcher : DispatcherId
  args : List Variant
  /-- The context of the emitting thread when the emission began. -/
  current : Context
  /-- The deliveries still to be made. -/
  remaining : List (ConnectionId × Connection)
  /-- The delivery whose slot runs now. -/
  delivering : Option (ConnectionId × Connection) := none
  /-- The deliveries that are waited for in the end. -/
  awaiting : List (ConnectionId × CompletionId) := []
  report : EmitReport := {}
  held : List Held
deriving Repr

namespace Emission

/-- Notes what became of a delivery. -/
def settle (e : Emission) (id : ConnectionId) (ending : Ending) : Emission :=
  { e with delivering := none, report := ⟨e.report.endings ++ [(id, ending)]⟩ }

end Emission

/-- A loop that runs. -/
structure Serving where
  dispatcher : DispatcherId
  loop : Loop
  mode : LoopMode
  executed : Nat := 0
  /-- The loop of client code that is used, unless the loop was made for this only. -/
  own : Option LoopId := none
deriving Repr

/-- An access to a property. -/
inductive PropertyAccess where
  | read (name : String)
  /-- The type of the value is `got`. -/
  | write (name got : String)
  | reset (name : String)
deriving DecidableEq, Repr

namespace PropertyAccess

/-- The answer to an access when the accessor has ended. -/
def answer : PropertyAccess → Yield → Answer
  | .read _, .returned (some v) => .property (.ok v)
  | .read name, _ => .property (.error (.propertyNotReadable name))
  | .write _ _, .accepted true => .changed (.ok ())
  | .write name got, _ => .changed (.error (.propertyTypeMismatch name got))
  | .reset _, .accepted true => .changed (.ok ())
  | .reset name, _ => .changed (.error (.propertyNotResettable name))

end PropertyAccess

/-- A frame of a thread. -/
inductive Frame where
  /-- Client code. -/
  | body (entry : Entry)
  /-- Client code that is to run now. No lock is held any more, so other threads may do something before
  it begins. -/
  | starting (entry : Entry)
  /-- A call, which holds the object until the method has ended. -/
  | calling (held : List Held)
  | accessing (access : PropertyAccess) (held : List Held)
  | emitting (emission : Emission)
  /-- A call that client code asked for. -/
  | invoking (dispatcher : DispatcherId) (held : List Held)
  /-- The caller waits. -/
  | waiting (completion : CompletionId) (deadline : Option Nat)
  | serving (serving : Serving)
  /-- A call that was taken from a queue. -/
  | executing (invocation : Invocation)
  /-- The destruction of an object, with the connections still to be cut. -/
  | severing (dispatcher : DispatcherId) (object : ObjectId) (remaining : List ConnectionId)
      (held : List Held) (reply : Reply)
  | disconnecting (dispatcher : DispatcherId) (remaining : List ConnectionId) (count : Nat)
      (held : List Held)
  /-- An object whose last reference is gone, before its registration goes. -/
  | disposing (object : InstanceId)
  /-- Gives back what was held, then hands the reply down. -/
  | releasing (held : List Held) (reply : Reply)
deriving Repr

/-- A loop that client code keeps on a thread. It has a handle of its dispatcher. -/
structure OwnLoop where
  dispatcher : DispatcherId
  loop : Loop
deriving DecidableEq, Repr

/-- A thread. -/
structure Thread where
  current : Context
  /-- What was begun and is not ended, the innermost first. -/
  frames : List Frame := [.body .program]
  /-- The answer to the last action, until client code takes it. -/
  answer : Option Answer := none
  /-- The loops that were made on the thread, as long as client code keeps them. -/
  loops : List (Option OwnLoop) := []
deriving Repr, Inhabited

namespace Thread

/-- A loop that client code keeps on the thread. -/
def loop? (th : Thread) (l : LoopId) : Option OwnLoop :=
  th.loops[l]?.join

/-- Does a loop of the thread run? -/
def uses (th : Thread) (l : LoopId) : Bool :=
  th.frames.any fun
    | .serving v => v.own = some l
    | _ => false

end Thread

end Reflection

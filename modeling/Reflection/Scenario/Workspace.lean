import Reflection.Machine
import Reflection.Scenario.Step
/-!
# What a client knows

The client of a scenario keeps references to the objects it made, the guards, the behaviour of
objects and callbacks, and the labels of everything. A label keeps its last id when the thing it
names is gone, and an id keeps the label it was given last.
-/

namespace Reflection.Scenario

/-- A property of an object. -/
structure Property where
  value : Option Variant
  accepts : List String
  notify : Option String
  reset : Option Variant
deriving Repr

/-- The behaviour of an object at work. -/
structure Scripted where
  label : String
  methods : List (String × Script Step)
  properties : List (String × Property)
  onDispose : List Step

/-- The behaviour of a callback at work. -/
structure ScriptedCallback where
  label : String
  script : Script Step
  onDispose : Option (List Step)

/-- A handle on a dispatcher with a connection that is cut when the guard is dropped, unless it was
released. -/
structure Guard where
  dispatcher : DispatcherId
  connection : ConnectionId
deriving DecidableEq, Repr

/-- What the client knows. -/
structure Workspace where
  /-- The dispatcher that the client works on. -/
  dispatcher : DispatcherId
  /-- The objects that the client refers to. -/
  objects : List (String × InstanceId) := []
  /-- Those without behaviour. -/
  bareObjects : List (String × InstanceId) := []
  objectIds : List (String × ObjectId) := []
  objectLabels : List (ObjectId × String) := []
  connectionIds : List (String × ConnectionId) := []
  connectionLabels : List (ConnectionId × String) := []
  guards : List (String × Guard) := []
  scripted : List (InstanceId × Scripted) := []
  callbacks : List (CallbackId × ScriptedCallback) := []
  /-- The threads that have entered contexts, with those they left, the last first. -/
  entered : List (Nat × Context) := []

/-- Adds an entry. An older one of the same key gives way. -/
def put {κ α : Type} [BEq κ] (key : κ) (value : α) (entries : List (κ × α)) : List (κ × α) :=
  (key, value) :: entries.filter fun (k, _) => !(k == key)

/-- Removes an entry. -/
def remove {κ α : Type} [BEq κ] (key : κ) (entries : List (κ × α)) : List (κ × α) :=
  entries.filter fun (k, _) => !(k == key)

namespace Workspace

/-- The id of a labelled object. An unknown label stands for an id that is never given out. -/
def objectId (w : Workspace) (label : String) : ObjectId :=
  (w.objectIds.lookup label).getD Key.null

/-- The label of an object id. -/
def objectLabel (w : Workspace) (id : ObjectId) : String :=
  (w.objectLabels.lookup id).getD "?"

/-- The id of a labelled connection. -/
def connectionId (w : Workspace) (label : String) : ConnectionId :=
  (w.connectionIds.lookup label).getD Key.null

/-- The label of a connection id. -/
def connectionLabel (w : Workspace) (id : ConnectionId) : String :=
  (w.connectionLabels.lookup id).getD "?"

/-- Gives an object a label. -/
def labelObject (w : Workspace) (label : String) (id : ObjectId) : Workspace :=
  { w with
    objectIds := put label id w.objectIds
    objectLabels := put id label w.objectLabels }

/-- Gives a connection a label. -/
def labelConnection (w : Workspace) (label : String) (id : ConnectionId) : Workspace :=
  { w with
    connectionIds := put label id w.connectionIds
    connectionLabels := put id label w.connectionLabels }

end Workspace

/-! ## Results -/

/-- What is known about an object. -/
structure ObjectView where
  state : ObjectState
  contains : Bool
  /-- Is the object itself alive? -/
  alive : Bool
  registration : Option Registration
deriving Repr

/-- What an object knows about its registration. -/
structure BaseView where
  state : ObjectState
  /-- Is the dispatcher still there? -/
  isOpen : Bool
  id : Option ObjectId
deriving Repr

/-- A connection, by labels. -/
structure ConnectionView where
  id : String
  sender : String
  signal : Nat
  receiver : Option String
  slot : Option Nat
  type : ConnectionType
deriving DecidableEq, Repr

/-- What a step tells. -/
inductive Result where
  | ok
  | null
  | flag (yes : Bool)
  | count (n : Nat)
  | text (text : String)
  | noSuchObject
  | objectError (error : ObjectError)
  | connectionError (error : ConnectionError)
  | dispatchError (error : DispatchError)
  | state (view : ObjectView)
  | base (view : BaseView)
  /-- The label if the object is scripted, and whether it is bare. -/
  | cast (label : Option String) (bare : Bool)
  | objects (labels : List String)
  | connection (view : Option ConnectionView)
  | connections (views : List ConnectionView)
  /-- A report with the labels of the connections that failed. -/
  | report (report : EmitReport) (failed : List String)
  | returned (value : Option Variant)
  | value (value : Variant)
  /-- The context, how much waited there and how much was executed. -/
  | processed (context : String) (pending executed : Nat)
  /-- How much was executed and how much waits still. -/
  | looped (executed pending : Nat)
  | loopedFor (exit : LoopExit) (executed : Nat)
  | description (text : String) (timeout : Option Nat)
deriving Repr, Inhabited

/-- What happens in a scenario. -/
inductive Event where
  | called (object : String) (method : String) (args : List Variant) (context : Context)
  | calledBack (callback : String) (args : List Variant) (context : Context)
  | disposed (label : String) (context : Context)
  | stepped (name : String) (result : Result) (context : Context)
deriving Repr

/-- Where an event happened. -/
def Event.context : Event → Context
  | .called _ _ _ context => context
  | .calledBack _ _ context => context
  | .disposed _ context => context
  | .stepped _ _ context => context

end Reflection.Scenario

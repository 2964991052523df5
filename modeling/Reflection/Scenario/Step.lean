import Reflection.Dispatcher.Connection
import Reflection.Scenario.Template
/-!
# Scenarios

A scenario is a list of steps that one client takes. It gives labels to the objects, connections and
contexts it makes and names them by their labels. Objects and callbacks may have scripts, lists of
steps that are taken when a slot runs.
-/

namespace Reflection.Scenario

/-- How a slot that has a script ends. -/
inductive Ending where
  | returns (value : Option Template)
  | notInvokable
  | argumentType (index : Nat) (expected : String)
  | fails (message : String)
deriving Repr, Inhabited

/-- What a slot does. -/
structure Script (σ : Type) where
  steps : List σ
  /-- How many more times the steps are taken, if there is a bound. -/
  runs : Option Nat := none
  ending : Ending := .returns none
deriving Repr

/-- A property as an object is made with it. -/
structure PropertyPlan where
  initial : Option Template
  /-- The types of the values that are taken. -/
  accepts : List String
  /-- The signal that tells of a change. -/
  notify : Option String
  reset : Option Template
deriving Repr

/-- What an object does. -/
structure Behaviour (σ : Type) where
  /-- The scripts of methods, under their canonical signatures. -/
  methods : List (String × Script σ) := []
  properties : List (String × PropertyPlan) := []
  /-- What is done when the last reference to the object goes. -/
  onDispose : List σ := []
deriving Repr

/-- What there is to do, with `σ` for the steps of scripts. -/
inductive Task (σ : Type) where
  | new (object className : String) (behaviour : Behaviour σ) (register : Bool)
  /-- An object without behaviour: its methods give no value, its properties refuse everything. -/
  | newBare (object className : String)
  | register (object : String)
  | drop (object : String)
  | dropBare (object : String)
  | destroy (object : String)
  | state (object : String)
  /-- What the object itself knows about its registration. -/
  | base (object : String)
  | cast (object : String)
  | objects
  | move (object context : String)
  | setName (object name : String)
  | block (object : String) (blocked : Bool)
  | connect (id sender signal receiver slot : String) (type : ConnectionType)
  | connectByIndex (id sender : String) (signal : Nat) (receiver : String) (slot : Nat)
      (type : ConnectionType)
  /-- Connects a callback. `onDispose` is what is done when its last holder goes, if that is to be
  told. -/
  | connectCallback (id sender signal : String) (type : ConnectionType) (script : Script σ)
      (onDispose : Option (List σ))
  | disconnect (id : String)
  | disconnectAll (object : String)
  | connection (id : String)
  | connections
  | receivers (object signal : String)
  /-- Makes a guard, which cuts the connection when it is dropped. -/
  | guard (id : String)
  | dropGuard (id : String)
  | releaseGuard (id : String)
  | emit (object signal : String) (args : Arguments)
  | emitByIndex (object : String) (signal : Nat) (args : Arguments)
  | emitOwn (object signal : String) (args : Arguments)
  | emitOwnByIndex (object : String) (signal : Nat) (args : Arguments)
  | call (object method : String) (type : ConnectionType) (args : Arguments)
  | read (object property : String)
  | write (object property : String) (value : Template)
  | reset (object property : String)
  | pending (context : String)
  | process (context : String)
  | processCurrent
  | quit (context : String)
  | loop (context : String)
  | loopFor (context : String) (milliseconds : Nat)
  | enter (context : String)
  | leave
  | overview (objectsOnly : Bool)
  | describe
  /-- Gives up the dispatcher for a new one. -/
  | replace (timeout : Option Nat)
  | nothing
deriving Repr

/-- A step and the name under which its result is reported. -/
inductive Step where
  | mk (name : String) (task : Task Step)

namespace Step

/-- The name under which the result is reported. -/
def name : Step → String
  | .mk name _ => name

/-- What there is to do. -/
def task : Step → Task Step
  | .mk _ task => task

end Step

instance : Inhabited Step :=
  ⟨.mk "" .nothing⟩

end Reflection.Scenario

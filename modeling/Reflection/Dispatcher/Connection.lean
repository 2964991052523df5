import Reflection.Dispatcher.Object
/-!
# Connections

A connection leads from a signal of a sender to a method of a receiver or to a callback. Its type
decides when and where the slot runs.
-/

namespace Reflection

/-- The number of a callback. -/
abbrev CallbackId := Nat

/-- When and where a slot runs. -/
inductive ConnectionType where
  /-- At once, unless the receiver is in another context. -/
  | direct
  /-- When the receiver's context gets to it. -/
  | queued
  /-- At once in the same context, otherwise queued. -/
  | auto
  /-- Queued, with the sender waiting for it. -/
  | blocking
deriving DecidableEq, Repr, Inhabited

/-- The name of a connection type. -/
def ConnectionType.name : ConnectionType → String
  | .direct => "Direct"
  | .queued => "Queued"
  | .auto => "Auto"
  | .blocking => "BlockingQueued"

/-- What is called. -/
inductive Target where
  /-- A method of an object, by its absolute index. -/
  | method (receiver : ObjectId) (index : Nat)
  /-- A callback, which runs in the context in which it was connected. -/
  | callback (context : Context) (number : CallbackId)
deriving DecidableEq, Repr

namespace Target

/-- The object that is called. -/
def receiver? : Target → Option ObjectId
  | .method receiver _ => some receiver
  | .callback .. => none

/-- The method that is called. -/
def index? : Target → Option Nat
  | .method _ index => some index
  | .callback .. => none

/-- The callback that is called. -/
def callback? : Target → Option CallbackId
  | .method .. => none
  | .callback _ number => some number

end Target

/-- A connection. -/
structure Connection where
  sender : ObjectId
  /-- The signal, by its absolute index. -/
  signal : Nat
  target : Target
  type : ConnectionType
deriving DecidableEq, Repr

/-- Why two methods cannot be connected. -/
inductive ConnectionError where
  | unknownSignal (className signature : String)
  | unknownSlot (className signature : String)
  | notASignal (className : String) (index : Nat)
  | signatureMismatch (signal slot : String)
  | invalidSignature (error : SignatureError)
  | object (error : ObjectError)
deriving DecidableEq, Repr

/-- The wording of a connection error. -/
def ConnectionError.message : ConnectionError → String
  | .unknownSignal className signature => s!"{className} has no signal `{signature}`"
  | .unknownSlot className signature => s!"{className} has no method `{signature}`"
  | .notASignal className index => s!"method {index} of {className} is not a signal"
  | .signatureMismatch signal slot =>
    s!"incompatible arguments: {signal} cannot be delivered to {slot}"
  | .invalidSignature error => error.message
  | .object error => error.message

end Reflection

import Reflection.Dispatcher.Connection
import Reflection.Text.Duration
import Reflection.Variant
/-!
# Invocations

A call that waits in a queue has its target, its arguments and, if the caller waits for it, a
completion. The errors here are those of calls, whether they are made at once or wait.
-/

namespace Reflection

/-- The number of a completion, on which a caller waits. -/
abbrev CompletionId := Nat

/-- How a call ended on which a caller waits. -/
inductive Completion where
  /-- It was made. -/
  | delivered
  /-- It was given up. -/
  | dropped
deriving DecidableEq, Repr

/-- A call that waits in a queue. -/
structure Invocation where
  target : Target
  args : List Variant
  /-- Set if the caller waits. -/
  completion : Option CompletionId := none
deriving Repr

/-- Why a method does not do what it was asked for. -/
inductive InvokeError where
  | notInvokable (signature : String)
  | argumentType (index : Nat) (expected got : String)
  | failed (message : String)
deriving DecidableEq, Repr

/-- The wording of an invoke error. -/
def InvokeError.message : InvokeError → String
  | .notInvokable signature => s!"method `{signature}` is not invokable"
  | .argumentType index expected got => s!"argument {index} has type {got}, expected {expected}"
  | .failed message => message

/-- Why a signal is not emitted or a call not made. -/
inductive DispatchError where
  | invalidMethodIndex (className : String) (index : Nat)
  | notASignal (className : String) (index : Nat)
  | unknownMethod (className signature : String)
  | argumentCount (expected got : Nat)
  /-- The caller would wait for itself. -/
  | blockingSameContext (context : Context)
  /-- The call was not made within this number of milliseconds. -/
  | timeout (milliseconds : Nat)
  | invalidSignature (error : SignatureError)
  | object (error : ObjectError)
  | invoke (error : InvokeError)
deriving DecidableEq, Repr

/-- The wording of a dispatch error. -/
def DispatchError.message : DispatchError → String
  | .invalidMethodIndex className index => s!"method index {index} is out of range for {className}"
  | .notASignal className index => s!"method {index} of {className} is not a signal"
  | .unknownMethod className signature => s!"{className} has no method `{signature}`"
  | .argumentCount expected got => s!"expected {expected} arguments, got {got}"
  | .blockingSameContext context =>
    s!"blocking delivery to {context.label} from the same context would deadlock"
  | .timeout milliseconds =>
    s!"blocking invocation did not complete within {Text.duration milliseconds}"
  | .invalidSignature error => error.message
  | .object error => error.message
  | .invoke error => "slot failed: " ++ error.message

/-- What became of one delivery of an emission. -/
inductive Ending where
  /-- The slot was called. -/
  | direct
  /-- The call waits in a queue. -/
  | queued
  /-- The call was waited for and made. -/
  | blocking
  /-- The receiver was gone. -/
  | skipped
  | failed (error : DispatchError)
deriving DecidableEq, Repr

/-- What became of all deliveries of an emission, in the order in which that was known. -/
structure EmitReport where
  endings : List (ConnectionId × Ending) := []
deriving DecidableEq, Repr, Inhabited

namespace EmitReport

/-- The number of deliveries that ended in a given way. -/
def count (r : EmitReport) (e : Ending) : Nat :=
  r.endings.countP (·.2 = e)

/-- The number of deliveries that reached the receiver or its queue. -/
def delivered (r : EmitReport) : Nat :=
  r.count .direct + r.count .queued + r.count .blocking

/-- The deliveries that failed. -/
def failures (r : EmitReport) : List (ConnectionId × DispatchError) :=
  r.endings.filterMap fun (id, e) =>
    match e with
    | .failed error => some (id, error)
    | _ => none

end EmitReport
end Reflection

import Reflection.Context.Queue
/-!
# Loops

A loop serves the queue of one context on the thread that made it. If the thread is elsewhere when
the loop is made, it enters the loop's context, and the end of the loop takes it back to where it
was.
-/

namespace Reflection

/-- A loop. -/
structure Loop where
  context : Context
  queue : QueueId
  /-- Where the thread was, if making the loop took it away from there. -/
  previous : Option Context
deriving DecidableEq, Repr

namespace Loop

variable {α : Type}

/-- Makes a loop for a context on a thread that is in `current`. The answer holds the context in
which the thread is now. -/
def start (qs : Queues α) (current : Context) (context : Context) : Loop × Context × Queues α :=
  let (q, qs) := qs.obtain context
  let previous := if context = current then none else some current
  (⟨context, q, previous⟩, context, qs.hold q)

/-- Ends a loop on a thread that is in `current`. -/
def stop (l : Loop) (qs : Queues α) (current : Context) : Context × Queues α :=
  (l.previous.getD current, qs.release l.context l.queue)

end Loop
end Reflection

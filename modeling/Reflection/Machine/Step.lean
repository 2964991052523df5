import Reflection.Dispatcher.Link
import Reflection.Machine.Frame
/-!
# The steps of a thread

`advance` takes the next step of the operation under way, `finish` ends the client code that runs,
and `expire` gives up waiting. None of them decides what client code does; `Thread.act` carries out
what it asks for.
-/

namespace Reflection

/-- How client code that ran as a called method ended the call. -/
def Yield.result : Yield → CallResult
  | .returned value => .returned value
  | .failed error => .failed (.invoke error)
  | .accepted _ => .returned none

namespace CallResult

/-- What a call at once means for a delivery. -/
def ending : CallResult → Ending
  | .returned _ => .direct
  | .failed error => .failed error
  | .skipped => .skipped

/-- The answer to client code that asked for a call. A receiver that is gone gives no value. -/
def answer : CallResult → Answer
  | .returned value => .returned (.ok value)
  | .failed error => .returned (.error error)
  | .skipped => .returned (.ok none)

end CallResult

/-- What can be done with a target. -/
inductive Callee where
  | gone
  | unknown (error : DispatchError)
  /-- Client code to run, and what is held while it runs. -/
  | code (entry : Entry) (held : List Held)
deriving Repr

namespace Shared

/-- Looks at the target of a call when the call is to be made. -/
def callee (s : Shared) (d : DispatcherId) (target : Target) (args : List Variant) : Callee :=
  match target with
  | .callback _ number => .code (.callback number args) []
  | .method receiver index =>
    match (s.dispatcher d).active? receiver with
    | none => .gone
    | some r =>
      if !s.isAlive r.owner then .gone
      else
        match r.metaClass.method? index with
        | none => .unknown (.invalidMethodIndex r.metaClass.name index)
        | some m => .code (.method r.owner m args) [.object r.owner]

/-- Puts a call into a queue. The call holds its callback. -/
def enqueue (s : Shared) (d : DispatcherId) (context : Context) (i : Invocation) : Shared :=
  (s.setDispatcher d ((s.dispatcher d).enqueue context i)).retainAll i.held

/-- Puts a call into a queue for a caller that will wait. -/
def enqueueWaiting (s : Shared) (d : DispatcherId) (context : Context) (target : Target)
    (args : List Variant) : CompletionId × Shared :=
  let (k, s) := s.addCompletion
  (k, s.enqueue d context { target, args, completion := some k })

/-- The error of a caller that has waited too long. -/
def timeoutError (s : Shared) (d : DispatcherId) : DispatchError :=
  .timeout ((s.dispatcher d).timeout.getD 0)

/-- The time until which a caller waits that begins now. -/
def deadline (s : Shared) (d : DispatcherId) : Option Nat :=
  (s.dispatcher d).timeout.map (s.now + ·)

end Shared

namespace Thread

/-- Puts frames on top of others that replace the present ones. -/
def withFrames (th : Thread) (frames : List Frame) : Thread :=
  { th with frames }

/-- The frames after a delivery over a connection: the emission's hold on the callback is given
back. -/
def afterDelivery (c : Connection) (frames : List Frame) : List Frame :=
  match c.target.callback? with
  | none => frames
  | some number => .releasing [.callback number] .nothing :: frames

/-! ## Replies -/

/-- Begins the destruction of a registered object, unless it is under way or over. -/
def beginSevering (s : Shared) (d : DispatcherId) (id : ObjectId) (held : List Held)
    (reply : Bool → Reply) : Shared × Frame :=
  match (s.dispatcher d).beginDestroy? s.signalOrder id with
  | none => (s, .releasing held (reply false))
  | some (ids, x) => (s.setDispatcher d x, .severing d id ids held (reply true))

/-- Hands a reply to the innermost frame. -/
def resume (s : Shared) (th : Thread) (reply : Reply) : Shared × Thread :=
  match th.frames, reply with
  | .body _ :: _, .answer a => (s, { th with answer := some a })
  | .calling held :: rest, .yielded y =>
    (s, th.withFrames (.releasing held (.called y.result) :: rest))
  | .accessing access held :: rest, .yielded y =>
    (s, th.withFrames (.releasing held (.answer (access.answer y)) :: rest))
  | .emitting e :: rest, .called r =>
    match e.delivering with
    | none => (s, th)
    | some (id, c) =>
      (s, th.withFrames (afterDelivery c (.emitting (e.settle id r.ending) :: rest)))
  | .emitting e :: rest, .completed c =>
    match e.awaiting with
    | [] => (s, th)
    | (id, _) :: more =>
      let ending :=
        match c with
        | some .delivered => .blocking
        | some .dropped => .skipped
        | none => .failed (s.timeoutError e.dispatcher)
      (s, th.withFrames (.emitting ({ e with awaiting := more }.settle id ending) :: rest))
  | .invoking _ held :: rest, .called r =>
    (s, th.withFrames (.releasing held (.answer r.answer) :: rest))
  | .invoking d held :: rest, .completed c =>
    let result :=
      match c with
      | some _ => .ok none
      | none => .error (s.timeoutError d)
    (s, th.withFrames (.releasing held (.answer (.returned result)) :: rest))
  | .executing i :: rest, .called r =>
    let s :=
      match r, i.completion with
      | .skipped, _ => s
      | _, none => s
      | _, some k => s.complete k .delivered
    (s, th.withFrames (.releasing i.held .nothing :: rest))
  | .disposing i :: rest, .yielded _ =>
    match s.openBinding? i with
    | none => (s, th.withFrames rest)
    | some (d, id) =>
      let (s, frame) :=
        beginSevering (s.retain (.dispatcher d)) d id [.dispatcher d] fun _ => .nothing
      (s, th.withFrames (frame :: rest))
  | _, _ => (s, th)

/-- Ends the client code that runs. -/
def finish (s : Shared) (th : Thread) (y : Yield) : Shared × Thread :=
  match th.frames with
  | .body _ :: rest => resume s { th with frames := rest, answer := none } (.yielded y)
  | _ => (s, th)

/-! ## Steps -/

/-- The frames that make a call whose outcome goes to the innermost of `frames`. That the target is there
was seen just now; its code begins with the next step. -/
def callFrames (entry : Entry) (held : List Held) (frames : List Frame) : List Frame :=
  .starting entry :: .calling held :: frames

/-- Makes the next delivery of an emission. -/
def deliver (s : Shared) (th : Thread) (e : Emission) (id : ConnectionId) (c : Connection)
    (rest : List Frame) : Shared × Thread :=
  let settled (s : Shared) (e : Emission) :=
    (s, th.withFrames (afterDelivery c (.emitting e :: rest)))
  match (s.dispatcher e.dispatcher).routeOver c e.current with
  | .skip => settled s (e.settle id .skipped)
  | .fail error => settled s (e.settle id (.failed error))
  | .enqueue context target =>
    settled (s.enqueue e.dispatcher context { target, args := e.args }) (e.settle id .queued)
  | .wait context target =>
    let (k, s) := s.enqueueWaiting e.dispatcher context target e.args
    settled s { e with awaiting := e.awaiting ++ [(id, k)] }
  | .callNow target =>
    match s.callee e.dispatcher target e.args with
    | .gone => settled s (e.settle id .skipped)
    | .unknown error => settled s (e.settle id (.failed error))
    | .code entry held =>
      (s.retainAll held, th.withFrames
        (callFrames entry held (.emitting { e with delivering := some (id, c) } :: rest)))

/-- Executes a call that was taken from a queue. -/
def execute (s : Shared) (th : Thread) (d : DispatcherId) (i : Invocation) (rest : List Frame) :
    Shared × Thread :=
  match s.callee d i.target i.args with
  | .gone => resume s (th.withFrames (.executing i :: rest)) (.called .skipped)
  | .unknown error => resume s (th.withFrames (.executing i :: rest)) (.called (.failed error))
  | .code entry held =>
    (s.retainAll held, th.withFrames (callFrames entry held (.executing i :: rest)))

/-- Ends a loop. -/
def stopServing (s : Shared) (th : Thread) (v : Serving) (exit : LoopExit) (rest : List Frame) :
    Shared × Thread :=
  let x := s.dispatcher v.dispatcher
  let (current, queues) := v.loop.stop x.queues th.current
  (s.setDispatcher v.dispatcher { x with queues },
    { th with
      current
      frames := .releasing [.dispatcher v.dispatcher] (.answer (.served exit v.executed)) :: rest })

/-- Takes the next item of a loop's queue. There is no step if the loop has to wait. -/
def serveNext (s : Shared) (th : Thread) (v : Serving) (rest : List Frame) :
    Option (Shared × Thread) :=
  let x := s.dispatcher v.dispatcher
  match x.queues.pop? v.loop.queue with
  | none =>
    match v.mode with
    | .whileWork => some (stopServing s th v .empty rest)
    | _ => none
  | some (item, queues) =>
    let s := s.setDispatcher v.dispatcher { x with queues }
    match item with
    | .work i =>
      some (execute s th v.dispatcher i (.serving { v with executed := v.executed + 1 } :: rest))
    | .quit =>
      match v.mode with
      | .whileWork => some (s, th)
      | _ => some (stopServing s th v .quit rest)

/-- Gives back one thing that was held. What nobody holds any longer is disposed of. -/
def release (s : Shared) (th : Thread) (h : Held) (held : List Held) (reply : Reply)
    (rest : List Frame) : Shared × Thread :=
  let (last, s) := s.letGo h
  let frames := .releasing held reply :: rest
  if !last then (s, th.withFrames frames)
  else
    match h with
    | .completion _ => (s, th.withFrames frames)
    | .callback c => (s, th.withFrames (.body (.callbackDisposer c) :: frames))
    | .object i => (s, th.withFrames (.body (.disposer i) :: .disposing i :: frames))
    | .dispatcher d =>
      (s.setDispatcher d {},
        th.withFrames (.releasing ((s.dispatcher d).held ++ held) reply :: rest))

/-- The frames after a connection was cut: its hold on the callback is given back. -/
def afterCut (c : Option Connection) (frames : List Frame) : List Frame :=
  match c with
  | none => frames
  | some c => afterDelivery c frames

/-- The next step of the operation under way. There is none while client code runs and while the
thread has to wait. -/
def advance (s : Shared) (th : Thread) : Option (Shared × Thread) :=
  match th.frames with
  | .starting entry :: rest => some (s, th.withFrames (.body entry :: rest))
  | .emitting e :: rest =>
    match e.remaining, e.awaiting with
    | (id, c) :: more, _ => some (deliver s th { e with remaining := more } id c rest)
    | [], (_, k) :: _ =>
      some (s, th.withFrames (.waiting k (s.deadline e.dispatcher) :: .emitting e :: rest))
    | [], [] =>
      some (s, th.withFrames (.releasing e.held (.answer (.emitted (.ok e.report))) :: rest))
  | .waiting k _ :: rest =>
    match s.completions[k]?.join with
    | none => none
    | some c => some (resume s (th.withFrames rest) (.completed (some c)))
  | .serving v :: rest => serveNext s th v rest
  | .severing d id (next :: remaining) held reply :: rest =>
    let (cut, x) := (s.dispatcher d).sever id next
    some (s.setDispatcher d x,
      th.withFrames (afterCut cut (.severing d id remaining held reply :: rest)))
  | .severing d id [] held reply :: rest =>
    some (s.setDispatcher d ((s.dispatcher d).endDestroy id),
      th.withFrames (.releasing held reply :: rest))
  | .disconnecting d (next :: remaining) count held :: rest =>
    let (cut, x) := (s.dispatcher d).disconnect next
    let count := if cut.isSome then count + 1 else count
    some (s.setDispatcher d x,
      th.withFrames (afterCut cut (.disconnecting d remaining count held :: rest)))
  | .disconnecting _ [] count held :: rest =>
    some (s, th.withFrames (.releasing held (.answer (.count count)) :: rest))
  | .releasing [] reply :: rest => some (resume s (th.withFrames rest) reply)
  | .releasing (h :: held) reply :: rest => some (release s th h held reply rest)
  | _ => none

/-- The time at which a waiting thread gives up, if it does. -/
def deadline? (th : Thread) : Option Nat :=
  match th.frames with
  | .waiting _ deadline :: _ => deadline
  | .serving v :: _ =>
    match v.mode with
    | .untilTime deadline => some deadline
    | _ => none
  | _ => none

/-- Gives up waiting, if the thread still has to wait. -/
def expire (s : Shared) (th : Thread) : Shared × Thread :=
  match advance s th, th.frames with
  | some next, _ => next
  | none, .waiting _ _ :: rest => resume s (th.withFrames rest) (.completed none)
  | none, .serving v :: rest => stopServing s th v .timedOut rest
  | none, _ => (s, th)

end Thread
end Reflection

import Reflection.Machine.Step
/-!
# What client code asks for

`Thread.act` carries out an action of the client code that a thread runs. Most actions are answered
at once. Those that run other client code, or may have to, begin an operation whose last step gives
the answer; it holds its dispatcher until then.
-/

namespace Reflection
namespace Thread

/-- Answers at once. -/
def reply (s : Shared) (th : Thread) (a : Answer) : Shared × Thread :=
  (s, { th with answer := some a })

/-- Begins an operation. -/
def push (s : Shared) (th : Thread) (f : Frame) : Shared × Thread :=
  (s, th.withFrames (f :: th.frames))

/-- Answers with the new state of a dispatcher, if there is one. -/
def replyChange (s : Shared) (th : Thread) (d : DispatcherId)
    (result : Except ObjectError Dispatcher) : Shared × Thread :=
  match result with
  | .error e => reply s th (.changed (.error e))
  | .ok x => reply (s.setDispatcher d x) th (.changed (.ok ()))

/-- Answers whether a connection was made. -/
def replyConnected (s : Shared) (th : Thread) (d : DispatcherId)
    (result : Except ConnectionError (ConnectionId × Dispatcher)) : Shared × Thread :=
  match result with
  | .error e => reply s th (.connected (.error e))
  | .ok (id, x) => reply (s.setDispatcher d x) th (.connected (.ok id))

/-- Begins an emission, unless it does not pass the checks. -/
def beginEmitting (s : Shared) (th : Thread) (d : DispatcherId) (args : List Variant)
    (held : List Held) (deliveries : Except DispatchError (List (ConnectionId × Connection))) :
    Shared × Thread :=
  match deliveries with
  | .error e => push (s.retainAll held) th (.releasing held (.answer (.emitted (.error e))))
  | .ok remaining =>
    let callbacks := remaining.filterMap fun (_, c) => c.target.callback?.map Held.callback
    push ((s.retainAll held).retainAll callbacks) th
      (.emitting { dispatcher := d, args, current := th.current, remaining, held })

/-- Emits for an object, which is held until the emission is over, unless it is being disposed of. An
object that is not registered, or with a dispatcher that is gone, emits to no one. -/
def emitOwn (s : Shared) (th : Thread) (i : InstanceId) (args : List Variant)
    (deliveries : Dispatcher → ObjectId →
      Except DispatchError (List (ConnectionId × Connection))) : Shared × Thread :=
  match s.openBinding? i with
  | none => reply s th (.emitted (.ok {}))
  | some (d, id) =>
    let others := if s.isAlive i then [Held.object i] else []
    beginEmitting s th d args (.dispatcher d :: others) (deliveries (s.dispatcher d) id)

/-- Calls a method along a route. -/
def beginCalling (s : Shared) (th : Thread) (d : DispatcherId) (args : List Variant) :
    Route → Shared × Thread
  | .skip => reply s th (.returned (.ok none))
  | .fail e => reply s th (.returned (.error e))
  | .enqueue context target =>
    reply (s.enqueue d context { target, args }) th (.returned (.ok none))
  | .wait context target =>
    let (k, s) := s.enqueueWaiting d context target args
    let frame := Frame.invoking d [.dispatcher d]
    (s.retain (.dispatcher d),
      th.withFrames (.waiting k (s.deadline d) :: frame :: th.frames))
  | .callNow target =>
    match s.callee d target args with
    | .gone => reply s th (.returned (.ok none))
    | .unknown e => reply s th (.returned (.error e))
    | .code entry held =>
      let frame := Frame.invoking d [.dispatcher d]
      (s.retainAll (.dispatcher d :: held),
        th.withFrames (callFrames entry held (frame :: th.frames)))

/-- Accesses a property of an object, which is held until the accessor has ended. `code` gives the
accessor, unless the property does not allow the access. -/
def beginAccess (s : Shared) (th : Thread) (d : DispatcherId) (id : ObjectId) (name : String)
    (access : PropertyAccess) (refuse : ObjectError → Answer)
    (code : InstanceId → MetaClass.Property → Except ObjectError Entry) : Shared × Thread :=
  match (s.dispatcher d).receiver id with
  | .error e => reply s th (refuse e)
  | .ok r =>
    if !s.isAlive r.owner then reply s th (refuse .invalidObjectId)
    else
      match r.metaClass.propertyNamed name >>= code r.owner with
      | .error e => reply s th (refuse e)
      | .ok entry =>
        let held := [Held.object r.owner, .dispatcher d]
        (s.retainAll held, th.withFrames (.starting entry :: .accessing access held :: th.frames))

/-- Runs a loop that client code keeps. It serves the same queue as a further loop would that does not
take the thread to another context. -/
def useLoop (s : Shared) (th : Thread) (l : LoopId) (mode : LoopMode) : Shared × Thread :=
  match th.loop? l with
  | none => (s, th)
  | some ⟨d, loop⟩ =>
    if !s.isOpen d then (s, th)
    else
      push ((s.retain (.dispatcher d)).modifyQueues d (·.hold loop.queue)) th
        (.serving { dispatcher := d, loop := { loop with previous := none }, mode, own := some l })

/-- Ends a loop that client code keeps, unless it runs. The thread goes back to where it was when the
loop was made. -/
def dropLoop (s : Shared) (th : Thread) (l : LoopId) : Shared × Thread :=
  match th.loop? l with
  | none => (s, th)
  | some ⟨d, loop⟩ =>
    let x := s.dispatcher d
    let (current, queues) := loop.stop x.queues th.current
    let s' := (s.setDispatcher d { x with queues }).regain d
    if th.uses l || !s'.isOwned d then (s, th)
    else
      push (s'.disown d) { th with current, loops := th.loops.set l none }
        (.releasing [.dispatcher d] (.answer .done))

/-- Carries out an action. -/
def perform (s : Shared) (th : Thread) (a : Action) : Shared × Thread :=
  match a with
  | .newDispatcher timeout => let (d, s) := s.addDispatcher timeout; reply s th (.dispatcher d)
  | .shareDispatcher d => reply (s.share d) th .done
  | .dropDispatcher d => push (s.disown d) th (.releasing [.dispatcher d] (.answer .done))
  | .newObject className => let (i, s) := s.addInstance className; reply s th (.object i)
  | .dropObject i => push s th (.releasing [.object i] (.answer .done))
  | .newCallback => let (c, s) := s.addCallback; reply s th (.callback c)
  | .register d i =>
    match s.register d i th.current with
    | .error e => reply s th (.registered (.error e))
    | .ok (id, s) => reply s th (.registered (.ok id))
  | .destroy d id =>
    let (s, frame) :=
      beginSevering (s.retain (.dispatcher d)) d id [.dispatcher d] fun b => .answer (.flag b)
    push s th frame
  | .move d id context => replyChange s th d ((s.dispatcher d).move id context)
  | .setName d id name => replyChange s th d ((s.dispatcher d).setName id name)
  | .block d id blocked =>
    match (s.dispatcher d).block id blocked with
    | .error e => reply s th (.blocked (.error e))
    | .ok (before, x) => reply (s.setDispatcher d x) th (.blocked (.ok before))
  | .connect d sender signal receiver slot type =>
    replyConnected s th d ((s.dispatcher d).connect sender signal receiver slot type)
  | .connectByIndex d sender signal receiver slot type =>
    replyConnected s th d ((s.dispatcher d).connectByIndex sender signal receiver slot type)
  | .connectCallback d sender signal callback type =>
    match (s.dispatcher d).connectCallback sender signal th.current callback type with
    | .error e => push s th (.releasing [.callback callback] (.answer (.connected (.error e))))
    | .ok (id, x) => reply (s.setDispatcher d x) th (.connected (.ok id))
  | .disconnect d id =>
    let (cut, x) := (s.dispatcher d).disconnect id
    let s := (s.retain (.dispatcher d)).setDispatcher d x
    let held := [Held.dispatcher d]
    (s, th.withFrames
      (afterCut cut (.releasing held (.answer (.flag cut.isSome)) :: th.frames)))
  | .disconnectAll d sender =>
    push (s.retain (.dispatcher d)) th
      (.disconnecting d ((s.dispatcher d).outgoing s.signalOrder sender) 0 [.dispatcher d])
  | .emit d sender signal args =>
    beginEmitting s th d args [.dispatcher d] ((s.dispatcher d).beginEmissionNamed sender signal args)
  | .emitByIndex d sender signal args =>
    beginEmitting s th d args [.dispatcher d] ((s.dispatcher d).beginEmission sender signal args)
  | .emitOwn i signal args =>
    emitOwn s th i args fun x id => x.beginEmissionNamed id signal args
  | .emitOwnByIndex i signal args =>
    emitOwn s th i args fun x id => x.beginEmission id signal args
  | .call d id method type args =>
    match (s.dispatcher d).beginCall id method type args th.current with
    | .error e => reply s th (.returned (.error e))
    | .ok route => beginCalling s th d args route
  | .read d id name =>
    beginAccess s th d id name (.read name) (fun e => .property (.error e)) fun i p =>
      if p.isReadable then .ok (.reader i p) else .error (.propertyNotReadable name)
  | .write d id name value =>
    beginAccess s th d id name (.write name value.typeName) (fun e => .changed (.error e))
      fun i p => if p.isWritable then .ok (.writer i p value) else .error (.propertyReadOnly name)
  | .reset d id name =>
    beginAccess s th d id name (.reset name) (fun e => .changed (.error e)) fun i p =>
      if p.isResettable then .ok (.resetter i p) else .error (.propertyNotResettable name)
  | .quit d context =>
    let x := s.dispatcher d
    reply (s.setDispatcher d { x with queues := x.queues.post context .quit }) th .done
  | .serve d context mode =>
    let x := s.dispatcher d
    let (loop, current, queues) := Loop.start x.queues th.current context
    let s := (s.retain (.dispatcher d)).setDispatcher d { x with queues }
    (s, { th with
      current
      frames := .serving { dispatcher := d, loop, mode } :: th.frames })
  | .enter context => reply s { th with current := context } (.entered th.current)
  | .newLoop d context =>
    let x := s.dispatcher d
    let (loop, current, queues) := Loop.start x.queues th.current context
    let s := ((s.share d).lend d).setDispatcher d { x with queues }
    reply s { th with current, loops := th.loops ++ [some ⟨d, loop⟩] } (.loop th.loops.length)
  | .useLoop l mode => useLoop s th l mode
  | .dropLoop l => dropLoop s th l
  | .newQuitHandle l =>
    match th.loop? l with
    | none => (s, th)
    | some o =>
      let (h, s) := s.addQuitHandle ⟨o.dispatcher, o.loop.context, o.loop.queue⟩
      reply s th (.quitHandle h)
  | .copyQuitHandle h =>
    match s.quitHandle? h with
    | none => (s, th)
    | some x => let (h, s) := s.addQuitHandle x; reply s th (.quitHandle h)
  | .quitBy h =>
    match s.quitHandle? h with
    | none => (s, th)
    | some x => reply (s.modifyQueues x.dispatcher (·.push x.queue .quit)) th .done
  | .dropQuitHandle h =>
    match s.quitHandle? h with
    | none => (s, th)
    | some x =>
      let s := s.modifyQueues x.dispatcher (·.letGo x.queue)
      reply { s with quitHandles := s.quitHandles.set h none } th .done

/-- Can client code ask for an action? It has to have the handle of a dispatcher that it drops, and a
dispatcher on which it acts is not gone. -/
def permits (s : Shared) (a : Action) : Bool :=
  match a with
  | .dropDispatcher d => s.isOwned d
  | a => a.dispatcher?.all s.isOpen

/-- Carries out an action of the client code that runs, if any does and it can ask for it. -/
def act (s : Shared) (th : Thread) (a : Action) : Shared × Thread :=
  match th.frames with
  | .body _ :: _ => if permits s a then perform s { th with answer := none } a else (s, th)
  | _ => (s, th)

end Thread
end Reflection

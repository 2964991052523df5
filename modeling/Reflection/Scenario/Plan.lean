import Reflection.Dispatcher.Overview
import Reflection.Scenario.Workspace
/-!
# Carrying out steps

A plan is what remains to be done for a step: to ask the machine for an action and go on with its
answer, or to tell the result.
-/

namespace Reflection.Scenario

/-- What client code sees when it decides what to do next. -/
structure Scene where
  shared : Shared
  /-- The thread that runs the code and the context that it is in. -/
  thread : Nat
  current : Context
  workspace : Workspace

namespace Scene

/-- The dispatcher that the client works on. -/
def dispatcher (s : Scene) : Dispatcher :=
  s.shared.dispatcher s.workspace.dispatcher

end Scene

/-- What remains to be done for a step. -/
inductive Plan where
  | tell (result : Result)
  | ask (action : Action) (next : Answer → Scene → Workspace × Plan)

namespace Plan

/-! ## Answers as results -/

/-- Tells a result and keeps the workspace. -/
def done (s : Scene) (r : Result) : Workspace × Plan :=
  (s.workspace, .tell r)

/-- Asks for an action and tells the result. -/
def simply (a : Action) (tell : Answer → Scene → Result) : Plan :=
  .ask a fun answer s => done s (tell answer s)

/-- The result of an emission. -/
def reportResult (w : Workspace) : Except DispatchError EmitReport → Result
  | .ok r => .report r (r.failures.map fun (id, _) => w.connectionLabel id)
  | .error e => .dispatchError e

/-- The result of an action that is answered alike in all steps that ask for it. -/
def resultOf (answer : Answer) (s : Scene) : Result :=
  match answer with
  | .flag yes => .flag yes
  | .count n => .count n
  | .changed (.ok ()) => .ok
  | .changed (.error e) => .objectError e
  | .blocked (.ok before) => .flag before
  | .blocked (.error e) => .objectError e
  | .registered (.error e) => .objectError e
  | .connected (.error e) => .connectionError e
  | .emitted r => reportResult s.workspace r
  | .returned (.ok value) => .returned value
  | .returned (.error e) => .dispatchError e
  | .property (.ok value) => .value value
  | .property (.error e) => .objectError e
  | .served _ executed => .count executed
  | _ => .ok

/-! ## Objects -/

/-- Registers an object, gives it its label, and goes on. -/
def registering (w : Workspace) (label : String) (i : InstanceId)
    (next : Result → Scene → Workspace × Plan) : Plan :=
  .ask (.register w.dispatcher i) fun answer s =>
    let s :=
      match answer with
      | .registered (.ok id) => { s with workspace := s.workspace.labelObject label id }
      | _ => s
    next (resultOf answer s) s

/-- Drops a reference, if there is one, and tells a result. -/
def dropping (s : Scene) (old : Option InstanceId) (r : Result) : Workspace × Plan :=
  match old with
  | none => done s r
  | some i => (s.workspace, simply (.dropObject i) fun _ _ => r)

/-- Keeps a reference under a label and drops the one that was there. -/
def keep (s : Scene) (label : String) (i : InstanceId) (r : Result) : Workspace × Plan :=
  let w := s.workspace
  let old := w.objects.lookup label
  dropping { s with workspace := { w with objects := put label i w.objects } } old r

/-- Keeps a reference to an object without behaviour. -/
def keepBare (s : Scene) (label : String) (i : InstanceId) (r : Result) : Workspace × Plan :=
  let w := s.workspace
  let old := w.bareObjects.lookup label
  dropping { s with workspace := { w with bareObjects := put label i w.bareObjects } } old r

/-- The property that a plan describes. -/
def propertyOf (args : List Variant) (p : PropertyPlan) : Property where
  value := p.initial.map (·.fill args)
  accepts := p.accepts
  notify := p.notify
  reset := p.reset.map (·.fill args)

/-- Makes an object. -/
def newObject (label className : String) (b : Behaviour Step) (args : List Variant)
    (register : Bool) : Plan :=
  .ask (.newObject className) fun answer s =>
    match answer with
    | .object i =>
      let w := s.workspace
      let properties := b.properties.map fun (name, p) => (name, propertyOf args p)
      let scripted := { label, methods := b.methods, properties, onDispose := b.onDispose }
      let w := { w with scripted := put i scripted w.scripted }
      if register then (w, registering w label i fun r s => keep s label i r)
      else keep { s with workspace := w } label i .ok
    | _ => done s .null

/-- Makes an object without behaviour. -/
def newBareObject (label className : String) : Plan :=
  .ask (.newObject className) fun answer s =>
    match answer with
    | .object i => (s.workspace, registering s.workspace label i fun r s => keepBare s label i r)
    | _ => done s .null

/-- What is known about an object. -/
def objectView (s : Scene) (id : ObjectId) : ObjectView :=
  let d := s.dispatcher
  let r := d.object? id
  ⟨d.state id, d.contains id, r.any fun r => s.shared.isAlive r.owner, r⟩

/-- What an object knows about its registration. -/
def baseView (s : Scene) (i : InstanceId) : BaseView :=
  ⟨s.shared.stateOf i, (s.shared.openBinding? i).isSome, (s.shared.binding? i).map (·.2)⟩

/-- What an object turns out to be. -/
def castResult (s : Scene) (id : ObjectId) : Result :=
  match (s.dispatcher.object? id).filter fun r => s.shared.isAlive r.owner with
  | none => .null
  | some r =>
    match s.workspace.scripted.lookup r.owner with
    | some x => .cast (some x.label) false
    | none => .cast none true

/-! ## Connections -/

/-- Tells whether a connection was made, which then gets its label. -/
def connected (label : String) (answer : Answer) (s : Scene) : Workspace × Plan :=
  match answer with
  | .connected (.ok id) => (s.workspace.labelConnection label id, .tell .ok)
  | _ => done s (resultOf answer s)

/-- A connection, by labels. -/
def connectionView (w : Workspace) (id : ConnectionId) (c : Connection) : ConnectionView where
  id := w.connectionLabel id
  sender := w.objectLabel c.sender
  signal := c.signal
  receiver := c.target.receiver?.map w.objectLabel
  slot := c.target.index?
  type := c.type

/-- Connects a callback. -/
def connectCallback (label : String) (sender : ObjectId) (signal : String) (type : ConnectionType)
    (c : ScriptedCallback) : Plan :=
  .ask .newCallback fun answer s =>
    match answer with
    | .callback number =>
      let w := { s.workspace with callbacks := put number c s.workspace.callbacks }
      (w, .ask (.connectCallback w.dispatcher sender signal number type) (connected label))
    | _ => done s .null

/-- Cuts the connection of a guard, gives up its handle and tells a result. -/
def droppingGuard (g : Guard) (r : Result) : Plan :=
  .ask (.disconnect g.dispatcher g.connection) fun _ s =>
    (s.workspace, simply (.dropDispatcher g.dispatcher) fun _ _ => r)

/-- Makes a guard and drops the one that was kept under the same label. -/
def newGuard (w : Workspace) (label : String) : Plan :=
  let g : Guard := ⟨w.dispatcher, w.connectionId label⟩
  .ask (.shareDispatcher g.dispatcher) fun _ s =>
    let old := s.workspace.guards.lookup label
    let w := { s.workspace with guards := put label g s.workspace.guards }
    let r := Result.text (w.connectionLabel g.connection)
    match old with
    | none => (w, .tell r)
    | some old => (w, droppingGuard old r)

/-! ## Contexts -/

/-- Serves a context as long as there is work. -/
def process (w : Workspace) (context : Context) (tell : Nat → Result) : Plan :=
  simply (.serve w.dispatcher context .whileWork) fun answer _ =>
    match answer with
    | .served _ executed => tell executed
    | _ => .null

/-- Asks the loop of a context to quit and then runs it. -/
def loop (w : Workspace) (context : Context) : Plan :=
  .ask (.quit w.dispatcher context) fun _ s =>
    (s.workspace, simply (.serve w.dispatcher context .untilQuit) fun answer s =>
      match answer with
      | .served _ executed => .looped executed ((s.shared.dispatcher w.dispatcher).pending context)
      | _ => .null)

/-- Runs the loop of a context for some time. -/
def loopFor (s : Scene) (context : Context) (milliseconds : Nat) : Plan :=
  let deadline := s.shared.now + milliseconds
  simply (.serve s.workspace.dispatcher context (.untilTime deadline)) fun answer _ =>
    match answer with
    | .served exit executed => .loopedFor exit executed
    | _ => .null

/-- Enters a context. -/
def enter (context : Context) : Plan :=
  .ask (.enter context) fun answer s =>
    let w := s.workspace
    match answer with
    | .entered previous =>
      ({ w with entered := (s.thread, previous) :: w.entered }, .tell (.text s.current.label))
    | _ => done s .null

/-- Goes back to where the thread was before it last entered a context. -/
def leave (s : Scene) : Workspace × Plan :=
  let w := s.workspace
  match w.entered.find? (·.1 = s.thread) with
  | none => done s (.text s.current.label)
  | some (t, previous) =>
    ({ w with entered := w.entered.erase (t, previous) },
      simply (.enter previous) fun _ s => .text s.current.label)

/-- Gives up the dispatcher for a new one. -/
def replace (timeout : Option Nat) : Plan :=
  .ask (.newDispatcher timeout) fun answer s =>
    match answer with
    | .dispatcher d =>
      let old := s.workspace.dispatcher
      ({ s.workspace with dispatcher := d }, simply (.dropDispatcher old) fun _ _ => .ok)
    | _ => done s .null

/-! ## Steps -/

/-- The plan for a task in a slot with arguments `args`. -/
def ofTask (args : List Variant) (s : Scene) (t : Task Step) : Workspace × Plan :=
  let w := s.workspace
  let d := w.dispatcher
  let ask (a : Action) := (w, simply a resultOf)
  match t with
  | .new label className b register => (w, newObject label className b args register)
  | .newBare label className => (w, newBareObject label className)
  | .register label =>
    match w.objects.lookup label with
    | none => done s .noSuchObject
    | some i => (w, registering w label i fun r s => done s r)
  | .drop label =>
    match w.objects.lookup label with
    | none => done s (.flag false)
    | some i =>
      dropping { s with workspace := { w with objects := remove label w.objects } } (some i)
        (.flag true)
  | .dropBare label =>
    match w.bareObjects.lookup label with
    | none => done s (.flag false)
    | some i =>
      dropping { s with workspace := { w with bareObjects := remove label w.bareObjects } } (some i)
        (.flag true)
  | .destroy label => ask (.destroy d (w.objectId label))
  | .state label => done s (.state (objectView s (w.objectId label)))
  | .base label =>
    match w.objects.lookup label with
    | none => done s .noSuchObject
    | some i => done s (.base (baseView s i))
  | .cast label => done s (castResult s (w.objectId label))
  | .objects => done s (.objects (s.dispatcher.objects.keys.map w.objectLabel))
  | .move label context => ask (.move d (w.objectId label) (.named context))
  | .setName label name => ask (.setName d (w.objectId label) name)
  | .block label blocked => ask (.block d (w.objectId label) blocked)
  | .connect id sender signal receiver slot type =>
    (w, .ask (.connect d (w.objectId sender) signal (w.objectId receiver) slot type) (connected id))
  | .connectByIndex id sender signal receiver slot type =>
    (w, .ask (.connectByIndex d (w.objectId sender) signal (w.objectId receiver) slot type)
      (connected id))
  | .connectCallback id sender signal type script onDispose =>
    (w, connectCallback id (w.objectId sender) signal type ⟨id, script, onDispose⟩)
  | .disconnect id => ask (.disconnect d (w.connectionId id))
  | .disconnectAll label => ask (.disconnectAll d (w.objectId label))
  | .connection id =>
    let id := w.connectionId id
    done s (.connection ((s.dispatcher.connections.get? id).map (connectionView w id)))
  | .connections =>
    done s (.connections (s.dispatcher.connections.toList.map fun (id, c) => connectionView w id c))
  | .receivers label signal => done s (.count (s.dispatcher.receivers (w.objectId label) signal))
  | .guard id => (w, newGuard w id)
  | .dropGuard id =>
    match w.guards.lookup id with
    | none => done s (.flag false)
    | some g => ({ w with guards := remove id w.guards }, droppingGuard g (.flag true))
  | .releaseGuard id =>
    match w.guards.lookup id with
    | none => done s .null
    | some g =>
      ({ w with guards := remove id w.guards },
        simply (.dropDispatcher g.dispatcher) fun _ s =>
          .text (s.workspace.connectionLabel g.connection))
  | .emit label signal as => ask (.emit d (w.objectId label) signal (as.fill args))
  | .emitByIndex label signal as => ask (.emitByIndex d (w.objectId label) signal (as.fill args))
  | .emitOwn label signal as =>
    match w.objects.lookup label with
    | none => done s .noSuchObject
    | some i => ask (.emitOwn i signal (as.fill args))
  | .emitOwnByIndex label signal as =>
    match w.objects.lookup label with
    | none => done s .noSuchObject
    | some i => ask (.emitOwnByIndex i signal (as.fill args))
  | .call label method type as => ask (.call d (w.objectId label) method type (as.fill args))
  | .read label name => ask (.read d (w.objectId label) name)
  | .write label name value => ask (.write d (w.objectId label) name (value.fill args))
  | .reset label name => ask (.reset d (w.objectId label) name)
  | .pending context => done s (.count (s.dispatcher.pending (.named context)))
  | .process context => (w, process w (.named context) .count)
  | .processCurrent =>
    (w, process w s.current (.processed s.current.label (s.dispatcher.pending s.current)))
  | .quit context =>
    (w, simply (.quit d (.named context)) fun _ s =>
      .count ((s.shared.dispatcher d).pending (.named context)))
  | .loop context => (w, loop w (.named context))
  | .loopFor context milliseconds => (w, loopFor s (.named context) milliseconds)
  | .enter context => (w, enter (.named context))
  | .leave => leave s
  | .overview objectsOnly => done s (.text (s.dispatcher.overview objectsOnly))
  | .describe => done s (.description s.dispatcher.description s.dispatcher.timeout)
  | .replace timeout => (w, replace timeout)
  | .nothing => done s .null

end Plan
end Reflection.Scenario

import Reflection.Scenario.Plan
/-!
# Sessions

A session runs a scenario. For each thread it keeps the client code that the thread is in, in step
with the bodies on the thread's stack, and lets the first thread move that can: the client's own
before the workers, which serve contexts while a step is taken. When every thread waits, time goes
on to the first deadline.
-/

namespace Reflection.Scenario

/-- Client code at work. -/
structure Running where
  /-- The arguments of the slot. -/
  args : List Variant := []
  /-- The steps still to be taken. -/
  steps : List Step := []
  /-- The step under way, with its name. -/
  plan : Option (String × Plan) := none
  /-- Was the action asked for that the plan begins with? -/
  asked : Bool := false
  ending : Yield := .returned none
  /-- The last result, which a program keeps and does not report as an event. -/
  result : Option Result := none

/-- A scenario at work. -/
structure Session where
  machine : Machine
  workspace : Workspace
  /-- The client code of each thread, the innermost first. -/
  running : List (List Running)
  /-- What happened since the step began. -/
  events : List Event := []

namespace Session

/-- A session with one dispatcher and one thread. -/
def start (registry : Registry) (timeout : Option Nat) : Session where
  machine :=
    { shared := (({ registry } : Shared).addDispatcher timeout).2
      threads := [{ current := .named "main" }] }
  workspace := { dispatcher := 0 }
  running := [[{}]]

/-! ## Views and changes -/

/-- What client code on a thread sees. -/
def scene (x : Session) (t : Nat) : Scene where
  shared := x.machine.shared
  thread := t
  current := (x.machine.threads[t]?.map (·.current)).getD default
  workspace := x.workspace

/-- Adds an event. -/
def note (x : Session) (e : Event) : Session :=
  { x with events := x.events ++ [e] }

/-- Replaces the client code of a thread. -/
def setRunning (x : Session) (t : Nat) (rs : List Running) : Session :=
  { x with running := x.running.set t rs }

/-! ## Client code begins -/

/-- How a slot ends that was called with `args`. -/
def endingOf (args : List Variant) : Ending → String → Yield
  | .returns value, _ => .returned (value.map (·.fill args))
  | .notInvokable, signature => .failed (.notInvokable signature)
  | .argumentType i expected, _ =>
    .failed (.argumentType i expected ((args[i]?.map (·.typeName)).getD "nothing"))
  | .fails message, _ => .failed (.failed message)

/-- Takes one run of a script, with its steps unless all runs are used up. -/
def useRun (s : Script Step) : List Step × Script Step :=
  match s.runs with
  | some 0 => ([], s)
  | some (n + 1) => (s.steps, { s with runs := some n })
  | none => (s.steps, s)

/-- Replaces the behaviour of an object. -/
def setScripted (x : Session) (i : InstanceId) (s : Scripted) : Session :=
  { x with workspace := { x.workspace with scripted := put i s x.workspace.scripted } }

/-- A method of a scripted object is called. -/
def beginMethod (x : Session) (context : Context) (i : InstanceId) (s : Scripted)
    (m : MetaClass.Method) (args : List Variant) : Running × Session :=
  let x := x.note (.called s.label m.description args context)
  match s.methods.lookup m.signature with
  | some script =>
    let (steps, script) := useRun script
    ({ args, steps, ending := endingOf args script.ending m.signature },
      x.setScripted i { s with methods := put m.signature script s.methods })
  | none =>
    let ending :=
      if m.entry.kind = .signal then .failed (.notInvokable m.signature) else .returned none
    ({ args, ending }, x)

/-- A property of a scripted object is written. A change is told with the notify signal. -/
def beginWrite (x : Session) (i : InstanceId) (s : Scripted) (name : String) (v : Variant) :
    Running × Session :=
  match s.properties.lookup name with
  | none => ({ ending := .accepted false }, x)
  | some p =>
    if !p.accepts.contains v.typeName then ({ ending := .accepted false }, x)
    else
      let x := x.setScripted i
        { s with properties := put name { p with value := some v } s.properties }
      let changed := p.value.all fun old => !old.equal v
      match p.notify with
      | some signal =>
        if changed then
          let plan := Plan.simply (.emitOwn i signal [v]) Plan.resultOf
          ({ plan := some ("notify", plan), ending := .accepted true }, x)
        else ({ ending := .accepted true }, x)
      | none => ({ ending := .accepted true }, x)

/-- A property of a scripted object is reset. -/
def beginReset (x : Session) (i : InstanceId) (s : Scripted) (name : String) : Running × Session :=
  match s.properties.lookup name with
  | none => ({ ending := .accepted false }, x)
  | some p =>
    match p.reset with
    | none => ({ ending := .accepted false }, x)
    | some v =>
      ({ ending := .accepted true },
        x.setScripted i { s with properties := put name { p with value := some v } s.properties })

/-- A callback is called. -/
def beginCallback (x : Session) (context : Context) (number : CallbackId) (c : ScriptedCallback)
    (args : List Variant) : Running × Session :=
  let x := x.note (.calledBack c.label args context)
  let (steps, script) := useRun c.script
  let callbacks := put number { c with script } x.workspace.callbacks
  ({ args, steps }, { x with workspace := { x.workspace with callbacks } })

/-- Something is disposed of, which is told if there are steps for it. -/
def beginDisposal (x : Session) (context : Context) (label : String) (steps : Option (List Step)) :
    Running × Session :=
  match steps with
  | none => ({}, x)
  | some steps => ({ steps }, x.note (.disposed label context))

/-- Client code begins on a thread. Objects without behaviour do nothing. -/
def beginEntry (x : Session) (context : Context) (e : Entry) : Running × Session :=
  let w := x.workspace
  match e with
  | .program => ({}, x)
  | .method i m args =>
    match w.scripted.lookup i with
    | none => ({}, x)
    | some s => x.beginMethod context i s m args
  | .callback number args =>
    match w.callbacks.lookup number with
    | none => ({}, x)
    | some c => x.beginCallback context number c args
  | .reader i p =>
    let property := (w.scripted.lookup i).bind fun s => s.properties.lookup p.name
    ({ ending := .returned (property.bind (·.value)) }, x)
  | .writer i p v =>
    match w.scripted.lookup i with
    | none => ({ ending := .accepted false }, x)
    | some s => x.beginWrite i s p.name v
  | .resetter i p =>
    match w.scripted.lookup i with
    | none => ({ ending := .accepted false }, x)
    | some s => x.beginReset i s p.name
  | .disposer i =>
    match w.scripted.lookup i with
    | none => ({}, x)
    | some s => x.beginDisposal context s.label ((some s.onDispose).filter (!·.isEmpty))
  | .callbackDisposer number =>
    match w.callbacks.lookup number with
    | none => ({}, x)
    | some c => x.beginDisposal context c.label c.onDispose

/-! ## Client code goes on -/

/-- The bodies on a thread's stack. -/
def bodies (th : Thread) : Nat :=
  th.frames.countP fun
    | .body _ => true
    | _ => false

/-- Lets the innermost client code of a thread do something. There is nothing to do for a program
whose plan is over. -/
def proceed (x : Session) (t : Nat) (th : Thread) (e : Entry) (r : Running)
    (outer : List Running) : Option Session :=
  let goOn (x : Session) (r : Running) := some (x.setRunning t (r :: outer))
  match r.plan with
  | some (name, .tell result) =>
    let r := { r with plan := none }
    match e with
    | .program => goOn x { r with result := some result }
    | _ => goOn (x.note (.stepped name result th.current)) r
  | some (name, .ask action next) =>
    if r.asked then
      match th.answer with
      | none => none
      | some answer =>
        let (workspace, plan) := next answer (x.scene t)
        goOn { x with workspace } { r with plan := some (name, plan), asked := false }
    else goOn { x with machine := x.machine.act t action } { r with asked := true }
  | none =>
    match r.steps, e with
    | step :: steps, _ =>
      let (workspace, plan) := Plan.ofTask r.args (x.scene t) step.task
      goOn { x with workspace } { r with steps, plan := some (step.name, plan) }
    | [], .program => none
    | [], _ => some ({ x with machine := x.machine.finish t r.ending }.setRunning t outer)

/-- The next thing that happens on a thread, if it need not wait. -/
def tick (x : Session) (t : Nat) : Option Session :=
  match x.machine.threads[t]?, x.running[t]? with
  | some th, some rs =>
    match th.frames with
    | .body e :: _ =>
      if rs.length < bodies th then
        let (r, x) := x.beginEntry th.current e
        some (x.setRunning t (r :: rs))
      else
        match rs with
        | [] => none
        | r :: outer => x.proceed t th e r outer
    | _ => (x.machine.advance? t).map fun machine => { x with machine }
  | _, _ => none

/-! ## Threads -/

/-- The numbers of the threads. -/
def threads (x : Session) : List Nat :=
  List.range x.machine.threads.length

/-- Lets the thread give up waiting that does so first. -/
def expire (x : Session) : Option Session :=
  let waiting := x.threads.filterMap fun t => (x.machine.deadline? t).map (·, t)
  let first := waiting.foldl (fun best (d, t) =>
    match best with
    | none => some (d, t)
    | some (least, _) => if d < least then some (d, t) else best) none
  first.map fun (_, t) => { x with machine := x.machine.expire t }

/-- What happens next, if anything can. -/
def next (x : Session) : Option Session :=
  (x.threads.findSome? x.tick).or x.expire

/-- Is the program of a thread over? -/
def isIdle (x : Session) (t : Nat) : Bool :=
  match x.running[t]? with
  | some [r] => r.plan.isNone
  | _ => false

/-- Goes on until the program of a thread is over, nothing more can happen, or so many things have
happened. -/
def runUntilIdle (t : Nat) : Nat → Session → Session
  | 0, x => x
  | n + 1, x =>
    if x.isIdle t then x
    else
      match x.next with
      | none => x
      | some x => runUntilIdle t n x

/-- The number of things that may happen in one step. Only scripts that keep calling each other
reach it. -/
def patience : Nat :=
  4000000

/-- Gives the program of a thread a plan. -/
def assign (x : Session) (t : Nat) (plan : Plan) : Session :=
  x.setRunning t [{ plan := some ("", plan) }]

/-- The result of the program of a thread. -/
def resultOf (x : Session) (t : Nat) : Result :=
  ((x.running[t]?.bind (·.head?)).bind (·.result)).getD .null

/-- Starts a thread that serves a context of a dispatcher until it is asked to quit. -/
def hire (x : Session) (d : DispatcherId) (context : Context) : Session :=
  let t := x.machine.threads.length
  let action := Action.serve d context .untilQuit
  let r : Running := { plan := some ("", .simply action Plan.resultOf), asked := true }
  { x with machine := x.machine.spawn.act t action, running := x.running ++ [[r]] }

/-- Asks a worker to quit and waits until it has. -/
def dismiss (x : Session) (d : DispatcherId) (t : Nat) (context : Context) : Session :=
  let action := Action.quit d context
  runUntilIdle t patience { x with machine := x.machine.act 0 action }

/-- The session without workers. What they have entered is forgotten. -/
def alone (x : Session) : Session where
  machine := { x.machine with threads := x.machine.threads.take 1 }
  workspace := { x.workspace with entered := x.workspace.entered.filter (·.1 = 0) }
  running := x.running.take 1

/-- What one step led to. -/
structure Outcome where
  result : Result
  events : List Event
  /-- How much each worker executed. -/
  ran : List (String × Result)
deriving Repr

/-- Takes a step, with workers for some contexts. With workers, events are told context by
context. -/
def take (x : Session) (step : Step) (workers : List String) : Outcome × Session :=
  let d := x.workspace.dispatcher
  let x := workers.foldl (fun x label => x.hire d (.named label)) { x with events := [] }
  let (workspace, plan) := Plan.ofTask [] (x.scene 0) step.task
  let x := runUntilIdle 0 patience ({ x with workspace }.assign 0 plan)
  let numbered := workers.zipIdx.map fun (label, i) => (label, i + 1)
  let x := numbered.foldl (fun x (label, t) => x.dismiss d t (.named label)) x
  let ran := numbered.map fun (label, t) => (label, x.resultOf t)
  let events :=
    if workers.isEmpty then x.events
    else x.events.mergeSort fun a b => a.context.label ≤ b.context.label
  ({ result := x.resultOf 0, events, ran }, x.alone)

/-- Takes steps one after the other. -/
def takeAll (x : Session) : List (Step × List String) → List Outcome
  | [] => []
  | (step, workers) :: rest =>
    let (outcome, x) := x.take step workers
    outcome :: x.takeAll rest

end Session
end Reflection.Scenario

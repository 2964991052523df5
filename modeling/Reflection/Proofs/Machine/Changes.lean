import Reflection.Proofs.Dispatcher.Typing
import Reflection.Proofs.Machine.Order
/-!
# What a step does

A step of a thread changes what threads share by a few operations on dispatchers (`Change`). It keeps
some of the outer frames, and those that it puts on top arise from frames that were there (`Grows`,
`Arises`). It may call client code (`Outcome`): a method only by a call that was due, which is the next
delivery of an emission, a call that is taken from a queue, or one that client code asks for (`Due`). What
was called begins in a later step, on top of all that runs. `Moves.outcome` says this of all that can
happen on a thread.
-/

namespace Reflection

open Relation (ReflTransGen)

namespace Dispatcher

/-- What an operation makes of a dispatcher, other than to register an object or to put a call into a
queue. -/
inductive Alters (x : Dispatcher) : Dispatcher → Prop
  | describe (o : ObjectId) {f : Registration → Registration}
      (same : ∀ r, ∃ context name blocked, f r = { r with context, name, blocked }) :
      Alters x (x.modifyObject o f)
  | connect {sender receiver : ObjectId} {signal slot : Nat} {type : ConnectionType}
      {p : ConnectionId × Dispatcher}
      (h : x.connectByIndex sender signal receiver slot type = .ok p) : Alters x p.2
  | connectCallback {sender : ObjectId} {signal : String} {context : Context} {callback : CallbackId}
      {type : ConnectionType} {p : ConnectionId × Dispatcher}
      (h : x.connectCallback sender signal context callback type = .ok p) : Alters x p.2
  | disconnect (id : ConnectionId) : Alters x (x.disconnect id).2
  | beginDestroy {order : List Nat} {o : ObjectId} {ids : List ConnectionId} {y : Dispatcher}
      (h : x.beginDestroy? order o = some (ids, y)) : Alters x y
  | sever (gone : ObjectId) (id : ConnectionId) : Alters x (x.sever gone id).2
  | endDestroy (o : ObjectId) : Alters x (x.endDestroy o)
  | quit (context : Context) : Alters x { x with queues := x.queues.post context .quit }
  | take {q : QueueId} {item : QueueItem Invocation} {queues : Queues Invocation}
      (h : x.queues.pop? q = some (item, queues)) : Alters x { x with queues }
  | start (current context : Context) :
      Alters x { x with queues := (Loop.start x.queues current context).2.2 }
  | stop (loop : Loop) (current : Context) :
      Alters x { x with queues := (loop.stop x.queues current).2 }
  | hold (q : QueueId) : Alters x { x with queues := x.queues.hold q }
  | letGo (q : QueueId) : Alters x { x with queues := x.queues.letGo q }
  | push (q : QueueId) : Alters x { x with queues := x.queues.push q .quit }

end Dispatcher

/-- An object stays of its class, and registered once it is. -/
structure Instance.Keeps (x x' : Instance) : Prop where
  className : x'.className = x.className
  binding : ∀ p, x.binding = some p → x'.binding = some p

namespace Shared

/-- No dispatcher changes, and objects that there are keep their class names and registrations. -/
structure Steady (s s' : Shared) : Prop where
  registry : s'.registry = s.registry
  instances : ∀ (i : InstanceId) (x : Instance), s.instances[i]? = some x →
    ∃ x' : Instance, s'.instances[i]? = some x' ∧ x.Keeps x'
  dispatcher : ∀ d, s'.dispatcher d = s.dispatcher d

variable {s s' s'' : Shared} {d : DispatcherId}

theorem Steady.of_eq (registry : s'.registry = s.registry) (instances : s'.instances = s.instances)
    (dispatcher : ∀ d, s'.dispatcher d = s.dispatcher d) : s.Steady s' :=
  ⟨registry, fun _ x hx => ⟨x, instances ▸ hx, rfl, fun _ h => h⟩, dispatcher⟩

theorem Steady.refl (s : Shared) : s.Steady s :=
  .of_eq rfl rfl fun _ => rfl

theorem Steady.trans (h : s.Steady s') (h' : s'.Steady s'') : s.Steady s'' := by
  refine ⟨h'.registry.trans h.registry, fun i x hx => ?_,
    fun d => (h'.dispatcher d).trans (h.dispatcher d)⟩
  obtain ⟨x', hx', keeps⟩ := h.instances i x hx
  obtain ⟨x'', hx'', keeps'⟩ := h'.instances i x' hx'
  exact ⟨x'', hx'', keeps'.className.trans keeps.className,
    fun p hp => keeps'.binding p (keeps.binding p hp)⟩

theorem steady_modify_instance (i : InstanceId) {f : Instance → Instance}
    (hf : ∀ x : Instance, s.instances[i]? = some x → x.Keeps (f x)) :
    s.Steady { s with instances := s.instances.modify i f } := by
  refine ⟨rfl, fun i' x hx => ?_, fun _ => rfl⟩
  refine ⟨if i = i' then f x else x, ?_, ?_⟩
  · rw [List.getElem?_modify, hx]
    split <;> rfl
  · split
    · rename_i e
      exact hf x (e ▸ hx)
    · exact ⟨rfl, fun _ h => h⟩

theorem steady_retain (h : Held) : s.Steady (s.retain h) := by
  cases h with
  | object i => exact steady_modify_instance i fun _ _ => ⟨rfl, fun _ h => h⟩
  | dispatcher d => exact .of_eq rfl rfl fun _ => dispatcher_retain _
  | callback c => exact .of_eq rfl rfl fun _ => rfl
  | completion k => exact .refl s

theorem steady_retainAll (held : List Held) : s.Steady (s.retainAll held) := by
  induction held generalizing s with
  | nil => exact .refl s
  | cons h held ih => exact (steady_retain h).trans ih

theorem steady_letGo (h : Held) : s.Steady (s.letGo h).2 := by
  cases h with
  | object i => exact steady_modify_instance i fun _ _ => ⟨rfl, fun _ h => h⟩
  | dispatcher d => exact .of_eq rfl rfl fun _ => dispatcher_letGo _
  | callback c => exact .of_eq rfl rfl fun _ => rfl
  | completion k => exact .of_eq rfl rfl fun _ => rfl

theorem steady_addInstance (className : String) : s.Steady (s.addInstance className).2 := by
  refine ⟨rfl, fun i x hx => ⟨x, ?_, rfl, fun _ h => h⟩, fun _ => rfl⟩
  exact (List.getElem?_append_left (List.getElem?_eq_some_iff.1 hx).1).trans hx

end Shared

namespace Thread

/-! ## Calls that are due -/

/-- A call that a thread makes next, or puts into a queue: the next delivery of an emission, a call
that waits in a queue that is served, or one for which client code may ask. -/
inductive Due (s : Shared) (th : Thread) : DispatcherId → Target → List Variant → Prop
  | delivery {e : Emission} {rest : List Frame} {id : ConnectionId} {c : Connection}
      {more : List (ConnectionId × Connection)} (top : th.frames = .emitting e :: rest)
      (remaining : e.remaining = (id, c) :: more) : Due s th e.dispatcher c.target e.args
  | queued {v : Serving} {rest : List Frame} {i : Invocation} {queues : Queues Invocation}
      (top : th.frames = .serving v :: rest)
      (pop : (s.dispatcher v.dispatcher).queues.pop? v.loop.queue = some (.work i, queues)) :
      Due s th v.dispatcher i.target i.args
  | asked {entry : Entry} {rest : List Frame} {d : DispatcherId} {o : ObjectId} {method : String}
      {type : ConnectionType} {args : List Variant} {route : Route} {target : Target}
      (top : th.frames = .body entry :: rest) (permitted : permits s (.call d o method type args))
      (passes : (s.dispatcher d).beginCall o method type args th.current = .ok route)
      (leads : route.target? = some target) : Due s th d target args

end Thread

namespace Frame

/-- Neither client code, which runs or is called, nor an emission. -/
def Plain : Frame → Prop
  | .body _ | .starting _ | .emitting _ => False
  | _ => True

/-- The client code that a frame runs. -/
def code : Frame → List Entry
  | .body entry => [entry]
  | _ => []

/-- A frame other than client code that a step of the thread `th` makes, by what it comes from. -/
inductive Arises (s : Shared) (th : Thread) : Frame → Prop
  | plain {f : Frame} (h : f.Plain) : Arises s th f
  /-- An emission goes on. -/
  | emission {e e' : Emission} (h : .emitting e ∈ th.frames) (dispatcher : e'.dispatcher = e.dispatcher)
      (args : e'.args = e.args) (remaining : e'.remaining <:+ e.remaining) :
      Arises s th (.emitting e')
  /-- An emission has begun. -/
  | begun {o : ObjectId} {signal : Nat} {e : Emission} {all : List (ConnectionId × Connection)}
      (passes : (s.dispatcher e.dispatcher).beginEmission o signal e.args = .ok all)
      (remaining : e.remaining <:+ all) : Arises s th (.emitting e)

end Frame

/-- Client code is called in a step of the thread `th`. -/
inductive Entry.Called (s : Shared) (th : Thread) : Entry → Prop
  | due {d : DispatcherId} {target : Target} {args : List Variant} {entry : Entry}
      {held : List Held} (due : th.Due s d target args)
      (code : s.callee d target args = .code entry held) : Called s th entry
  /-- Client code other than methods and callbacks. -/
  | other {entry : Entry} (h : ∀ i m args, entry ≠ .method i m args) : Called s th entry

/-- Client code begins to run in a step of the thread `th`. -/
inductive Entry.Begins (th : Thread) : Entry → Prop
  /-- It was called. -/
  | called {entry : Entry} {rest : List Frame} (top : th.frames = .starting entry :: rest) :
      Begins th entry
  /-- Client code that disposes of something. -/
  | other {entry : Entry} (h : ∀ i m args, entry ≠ .method i m args) : Begins th entry

/-- The stack after a step of the thread `th` in which no client code is called or begins: frames that arise,
on top of outer ones that were there. -/
inductive Thread.Grows (s : Shared) (th : Thread) : List Frame → Prop
  | kept {fs : List Frame} (h : fs <:+ th.frames) : Grows s th fs
  | cons {f : Frame} {fs : List Frame} (arises : f.Arises s th) (below : Grows s th fs) :
      Grows s th (f :: fs)

/-- A change of what threads share, in a step of the thread `th` that begins in `s₀`. -/
inductive Change (s₀ : Shared) (th : Thread) : Shared → Shared → Prop
  | steady {s s' : Shared} (h : s.Steady s') : Change s₀ th s s'
  | host (s : Shared) (timeout : Option Nat) : Change s₀ th s (s.addDispatcher timeout).2
  | register {s s' : Shared} {d : DispatcherId} {i : InstanceId} {context : Context} {o : ObjectId}
      (h : s.register d i context = .ok (o, s')) : Change s₀ th s s'
  | alter {s : Shared} {d : DispatcherId} {x : Dispatcher} (h : (s.dispatcher d).Alters x) :
      Change s₀ th s (s.setDispatcher d x)
  | post {s : Shared} {d : DispatcherId} {i : Invocation} (context : Context)
      (same : s.dispatcher d = s₀.dispatcher d) (due : th.Due s₀ d i.target i.args) :
      Change s₀ th s (s.setDispatcher d ((s.dispatcher d).enqueue context i))

/-- Changes one after the other. -/
abbrev Changes (s₀ : Shared) (th : Thread) : Shared → Shared → Prop :=
  ReflTransGen (Change s₀ th)

/-! ## Frames -/

namespace Thread.Grows

variable {s : Shared} {th : Thread} {f : Frame} {fs : List Frame}

theorem tail (h : Grows s th (f :: fs)) : Grows s th fs := by
  cases h with
  | kept h => exact .kept ((List.suffix_cons f fs).trans h)
  | cons _ below => exact below

theorem outer (hf : th.frames = f :: fs) : Grows s th fs :=
  .kept (hf ▸ List.suffix_cons f fs)

/-- A frame that says nothing takes the place of the innermost one. -/
theorem replace {g : Frame} (h : Grows s th (f :: fs)) (plain : g.Plain) : Grows s th (g :: fs) :=
  .cons (.plain plain) h.tail

/-- What is left of an emission comes from what the emission came from. -/
theorem goesOn {e e' : Emission} (h : Grows s th (.emitting e :: fs))
    (dispatcher : e'.dispatcher = e.dispatcher) (args : e'.args = e.args)
    (remaining : e'.remaining <:+ e.remaining) : Grows s th (.emitting e' :: fs) := by
  refine .cons ?_ h.tail
  cases h with
  | kept h => exact .emission (h.subset List.mem_cons_self) dispatcher args remaining
  | cons arises =>
    cases arises with
    | plain h => exact h.elim
    | emission h dispatcher' args' remaining' =>
      exact .emission h (dispatcher.trans dispatcher') (args.trans args') (remaining.trans remaining')
    | begun passes remaining' =>
      rw [← dispatcher, ← args] at passes
      exact .begun passes (remaining.trans remaining')

/-- The client code that runs is outer code that ran before. -/
theorem code (h : Grows s th fs) : fs.flatMap (·.code) <:+ th.frames.flatMap (·.code) := by
  induction h with
  | kept h =>
    obtain ⟨top, e⟩ := h
    rw [← e, List.flatMap_append]
    exact List.suffix_append _ _
  | @cons f fs arises _ ih =>
    have silent : f.code = [] := by
      cases arises with
      | plain h => cases f <;> first | rfl | exact h.elim
      | emission | begun => rfl
    rwa [List.flatMap_cons, silent]

theorem afterDelivery (h : Grows s th fs) (c : Connection) :
    Grows s th (Thread.afterDelivery c fs) := by
  unfold Thread.afterDelivery
  split
  · exact h
  · exact .cons (.plain trivial) h

theorem afterCut (h : Grows s th fs) (c : Option Connection) : Grows s th (Thread.afterCut c fs) := by
  cases c with
  | none => exact h
  | some c => exact h.afterDelivery c

end Thread.Grows

namespace Thread

variable {s₀ s s' : Shared} {th th' : Thread} {f : Frame} {rest : List Frame}

/-- There are changes, and frames that arise, from `s₀` and the thread `th`. -/
structure Reaches (s₀ : Shared) (th : Thread) (p : Shared × Thread) : Prop where
  changes : Changes s₀ th s₀ p.1
  frames : Grows s₀ th p.2.frames

/-- What a step comes to. -/
inductive Outcome (s : Shared) (th : Thread) (p : Shared × Thread) : Prop
  | reaches (h : Reaches s th p)
  /-- Client code is called. -/
  | calls {entry : Entry} {fs : List Frame} (changes : Changes s th s p.1)
      (frames : p.2.frames = .starting entry :: fs) (called : entry.Called s th) (below : Grows s th fs)
  /-- Client code begins to run on top of all that runs. -/
  | begins {entry : Entry} {fs : List Frame} (changes : Changes s th s p.1)
      (frames : p.2.frames = .body entry :: fs) (begins : entry.Begins th) (below : Grows s th fs)
      (whole : fs.flatMap (·.code) = th.frames.flatMap (·.code))
  /-- The last handle of a dispatcher is given back. -/
  | closes {d : DispatcherId} (last : s.handles d = 1)
      (closed : p.1 = (s.letGo (.dispatcher d)).2.setDispatcher d {})
      (frames : Grows s th p.2.frames)

theorem Reaches.start (s₀ : Shared) (th : Thread) : Reaches s₀ th (s₀, th) :=
  ⟨.refl, .kept List.suffix_rfl⟩

/-! ## Replies -/

theorem Reaches.change (h : Reaches s₀ th (s, th')) (change : Change s₀ th s s') :
    Reaches s₀ th (s', th') :=
  ⟨h.changes.tail change, h.frames⟩

theorem Reaches.steady (h : Reaches s₀ th (s, th')) (steady : s.Steady s') :
    Reaches s₀ th (s', th') :=
  h.change (.steady steady)

theorem Reaches.alter (h : Reaches s₀ th (s, th')) {d : DispatcherId} {x : Dispatcher}
    (alters : (s.dispatcher d).Alters x) : Reaches s₀ th (s.setDispatcher d x, th') :=
  h.change (.alter alters)

theorem Reaches.withFrames (h : Reaches s₀ th (s, th')) {fs : List Frame}
    (frames : Grows s₀ th fs) : Reaches s₀ th (s, th'.withFrames fs) :=
  ⟨h.changes, frames⟩

theorem Reaches.beginSevering (h : Reaches s₀ th (s, th')) (hf : Grows s₀ th rest)
    (d : DispatcherId) (id : ObjectId) (held : List Held) (reply : Bool → Reply) :
    Reaches s₀ th ((Thread.beginSevering s d id held reply).1,
      th'.withFrames ((Thread.beginSevering s d id held reply).2 :: rest)) := by
  unfold Thread.beginSevering
  split
  · exact h.withFrames (.cons (.plain trivial) hf)
  · rename_i ids x begun
    exact (h.alter (.beginDestroy begun)).withFrames (.cons (.plain trivial) hf)

theorem Reaches.resume (h : Reaches s₀ th (s, th')) (reply : Reply) :
    Reaches s₀ th (Thread.resume s th' reply) := by
  -- The innermost frame goes on as the same emission, or gives way to one that says nothing.
  have all := h.frames
  have settles : ∀ {e : Emission} {rest : List Frame} (id : ConnectionId) (ending : Ending)
      (awaiting : List (ConnectionId × CompletionId)), th'.frames = .emitting e :: rest →
      Grows s₀ th (.emitting ({ e with awaiting }.settle id ending) :: rest) :=
    fun id ending awaiting hf => (hf ▸ all).goesOn rfl rfl List.suffix_rfl
  have plain : ∀ {f g : Frame} {rest : List Frame}, th'.frames = f :: rest → g.Plain →
      Grows s₀ th (g :: rest) := fun hf hg => (hf ▸ all).replace hg
  unfold Thread.resume
  split
  case h_1 => exact ⟨h.changes, h.frames⟩
  case h_2 hf => exact h.withFrames (plain hf trivial)
  case h_3 hf => exact h.withFrames (plain hf trivial)
  case h_4 e rest r hf =>
    split
    · exact h
    · exact h.withFrames ((settles _ _ _ hf).afterDelivery _)
  case h_5 e rest c hf =>
    split
    · exact h
    · exact h.withFrames (settles _ _ _ hf)
  case h_6 hf => exact h.withFrames (plain hf trivial)
  case h_7 hf => exact h.withFrames (plain hf trivial)
  case h_8 i rest r hf =>
    have told : ∀ k, s.Steady (s.complete k .delivered) := fun k => .of_eq rfl rfl fun _ => rfl
    dsimp only
    split
    · exact h.withFrames (plain hf trivial)
    · exact h.withFrames (plain hf trivial)
    · exact (h.steady (told _)).withFrames (plain hf trivial)
  case h_9 i rest y hf =>
    have below : Grows s₀ th rest := (hf ▸ all).tail
    split
    · exact h.withFrames below
    · rename_i d id _
      exact (h.steady (Shared.steady_retain _)).beginSevering below d id _ fun _ => .nothing
  case h_10 => exact h

theorem reaches_finish (s : Shared) (th : Thread) (y : Yield) : Reaches s th (finish s th y) := by
  unfold finish
  split
  · rename_i rest hf
    have below : Reaches s th (s, { th with frames := rest, answer := none }) :=
      ⟨.refl, .outer hf⟩
    exact below.resume _
  · exact .start s th

/-! ## Calls -/

theorem Reaches.enqueue (h : Reaches s₀ th (s, th')) {d : DispatcherId} {i : Invocation}
    (same : s.dispatcher d = s₀.dispatcher d) (due : th.Due s₀ d i.target i.args)
    (context : Context) : Reaches s₀ th (s.enqueue d context i, th') :=
  (h.change (.post context same due)).steady (Shared.steady_retainAll _)

theorem Reaches.enqueueWaiting (h : Reaches s₀ th (s, th')) {d : DispatcherId} {target : Target}
    {args : List Variant} (same : s.dispatcher d = s₀.dispatcher d) (due : th.Due s₀ d target args)
    (context : Context) : Reaches s₀ th ((s.enqueueWaiting d context target args).2, th') := by
  have counted : Reaches s₀ th (s.addCompletion.2, th') := h.steady (.of_eq rfl rfl fun _ => rfl)
  exact counted.enqueue same due context

/-- A call that is due is made. -/
theorem Reaches.call (h : Reaches s₀ th (s, th')) {d : DispatcherId} {target : Target}
    {args : List Variant} {entry : Entry} {held : List Held} {fs : List Frame}
    (due : th.Due s₀ d target args) (code : s₀.callee d target args = .code entry held)
    (below : Grows s₀ th fs) : Outcome s₀ th (s, th'.withFrames (callFrames entry held fs)) :=
  .calls h.changes rfl (.due due code) (.cons (.plain trivial) below)

theorem outcome_deliver {e : Emission} {id : ConnectionId} {c : Connection}
    {more : List (ConnectionId × Connection)} (hf : th.frames = .emitting e :: rest)
    (remaining : e.remaining = (id, c) :: more) :
    Outcome s th (deliver s th { e with remaining := more } id c rest) := by
  -- Whichever way the delivery takes, the others remain and the emission goes on with them.
  have goesOn : ∀ e' : Emission, e'.dispatcher = e.dispatcher → e'.args = e.args →
      e'.remaining = more → Grows s th (.emitting e' :: rest) := by
    intro e' dispatcher args left
    have suffix : e'.remaining <:+ e.remaining := by
      rw [remaining, left]
      exact List.suffix_cons _ more
    exact .cons (.emission (hf ▸ List.mem_cons_self) dispatcher args suffix) (.outer hf)
  have settled : ∀ {s' : Shared} (e' : Emission), Reaches s th (s', th) →
      e'.dispatcher = e.dispatcher → e'.args = e.args → e'.remaining = more →
      Outcome s th (s', th.withFrames (afterDelivery c (.emitting e' :: rest))) :=
    fun e' h dispatcher args left =>
      .reaches (h.withFrames ((goesOn e' dispatcher args left).afterDelivery c))
  have due : ∀ {route : Route} {target : Target},
      (s.dispatcher e.dispatcher).routeOver c e.current = route → route.target? = some target →
      th.Due s e.dispatcher target e.args := by
    intro route target h leads
    rw [← h] at leads
    rw [Dispatcher.target?_routeOver leads]
    exact .delivery hf remaining
  have start := Reaches.start s th
  unfold deliver
  dsimp only
  split
  · exact settled _ start rfl rfl rfl
  · exact settled _ start rfl rfl rfl
  · rename_i context target route
    have due := due route rfl
    exact settled _ (start.enqueue rfl due context) rfl rfl rfl
  · rename_i context target route
    have due := due route rfl
    exact settled _ (start.enqueueWaiting rfl due context) rfl rfl rfl
  · rename_i target route
    have due := due route rfl
    split
    · exact settled _ start rfl rfl rfl
    · exact settled _ start rfl rfl rfl
    · rename_i entry held code
      exact (start.steady (Shared.steady_retainAll held)).call due code (goesOn _ rfl rfl rfl)

theorem Reaches.execute (h : Reaches s₀ th (s, th')) {d : DispatcherId} {i : Invocation}
    (due : th.Due s₀ d i.target i.args)
    (same : s.callee d i.target i.args = s₀.callee d i.target i.args) (below : Grows s₀ th rest) :
    Outcome s₀ th (execute s th' d i rest) := by
  have executing : Grows s₀ th (.executing i :: rest) := .cons (.plain trivial) below
  unfold Thread.execute
  split
  · exact .reaches ((h.withFrames executing).resume _)
  · exact .reaches ((h.withFrames executing).resume _)
  · rename_i entry held code
    exact (h.steady (Shared.steady_retainAll held)).call due (same ▸ code) executing

theorem Reaches.stopServing (h : Reaches s₀ th (s, th')) (v : Serving) (exit : LoopExit)
    (below : Grows s₀ th rest) : Reaches s₀ th (stopServing s th' v exit rest) := by
  have stopped := h.alter (.stop (x := s.dispatcher v.dispatcher) v.loop th'.current)
  exact ⟨stopped.changes, .cons (.plain trivial) below⟩

theorem outcome_serveNext {v : Serving} {p : Shared × Thread} (hf : th.frames = .serving v :: rest)
    (h : serveNext s th v rest = some p) : Outcome s th p := by
  have start := Reaches.start s th
  have below : Grows s th rest := .outer hf
  unfold serveNext at h
  dsimp only at h
  split at h
  · split at h
    · cases h
      exact .reaches (start.stopServing v .empty below)
    · cases h
  · rename_i item queues pop
    have taken := start.alter (.take pop)
    split at h
    · cases h
      exact taken.execute (.queued hf pop) (callee_setDispatcher_queues queues _ _)
        (.cons (.plain trivial) below)
    · split at h
      · cases h
        exact .reaches taken
      · cases h
        exact .reaches (taken.stopServing v .quit below)

/-! ## Client code -/

theorem Reaches.reply (h : Reaches s₀ th (s, th')) (a : Answer) : Reaches s₀ th (reply s th' a) :=
  ⟨h.changes, h.frames⟩

theorem Reaches.push (h : Reaches s₀ th (s, th')) (plain : f.Plain) :
    Reaches s₀ th (push s th' f) :=
  h.withFrames (.cons (.plain plain) h.frames)

theorem reaches_replyChange {d : DispatcherId} {result : Except ObjectError Dispatcher}
    (h : Reaches s₀ th (s, th')) (alters : ∀ x, result = .ok x → (s.dispatcher d).Alters x) :
    Reaches s₀ th (replyChange s th' d result) := by
  cases result with
  | error => exact h.reply _
  | ok x => exact (h.alter (alters x rfl)).reply _

theorem reaches_replyConnected {d : DispatcherId}
    {result : Except ConnectionError (ConnectionId × Dispatcher)} (h : Reaches s₀ th (s, th'))
    (alters : ∀ p, result = .ok p → (s.dispatcher d).Alters p.2) :
    Reaches s₀ th (replyConnected s th' d result) := by
  cases result with
  | error => exact h.reply _
  | ok p =>
    exact (h.alter (alters p rfl)).reply _

theorem reaches_beginEmitting {d : DispatcherId} {args : List Variant} {held : List Held}
    {deliveries : Except DispatchError (List (ConnectionId × Connection))}
    (h : Reaches s₀ th (s₀, th'))
    (passes : ∀ all, deliveries = .ok all →
      ∃ o signal, (s₀.dispatcher d).beginEmission o signal args = .ok all) :
    Reaches s₀ th (beginEmitting s₀ th' d args held deliveries) := by
  have holds := h.steady (Shared.steady_retainAll held)
  unfold beginEmitting
  cases deliveries with
  | error => exact holds.push trivial
  | ok remaining =>
    obtain ⟨o, signal, passes⟩ := passes remaining rfl
    exact (holds.steady (Shared.steady_retainAll _)).withFrames
      (.cons (.begun passes List.suffix_rfl) h.frames)

theorem reaches_emitOwn {i : InstanceId} {args : List Variant}
    {deliveries : Dispatcher → ObjectId →
      Except DispatchError (List (ConnectionId × Connection))}
    (h : Reaches s₀ th (s₀, th'))
    (passes : ∀ x id all, deliveries x id = .ok all →
      ∃ o signal, x.beginEmission o signal args = .ok all) :
    Reaches s₀ th (emitOwn s₀ th' i args deliveries) := by
  unfold emitOwn
  split
  · exact h.reply _
  · exact reaches_beginEmitting h (passes _ _)

theorem outcome_beginCalling {d : DispatcherId} {args : List Variant} {route : Route}
    (h : Reaches s₀ th (s₀, th'))
    (due : ∀ target, route.target? = some target → th.Due s₀ d target args) :
    Outcome s₀ th (beginCalling s₀ th' d args route) := by
  have invoking : Grows s₀ th (.invoking d [.dispatcher d] :: th'.frames) :=
    .cons (.plain trivial) h.frames
  cases route with
  | skip => exact .reaches (h.reply _)
  | fail => exact .reaches (h.reply _)
  | enqueue context target =>
    exact .reaches ((h.enqueue (i := { target, args }) rfl (due target rfl) context).reply _)
  | wait context target =>
    have queued := h.enqueueWaiting rfl (due target rfl) context
    exact .reaches ((queued.steady (Shared.steady_retain _)).withFrames
      (.cons (.plain trivial) invoking))
  | callNow target =>
    unfold beginCalling
    dsimp only
    split
    · exact .reaches (h.reply _)
    · exact .reaches (h.reply _)
    · rename_i entry held code
      exact (h.steady (Shared.steady_retainAll _)).call (due target rfl) code invoking

theorem outcome_beginAccess {d : DispatcherId} {id : ObjectId} {name : String}
    {access : PropertyAccess} {refuse : ObjectError → Answer}
    {code : InstanceId → MetaClass.Property → Except ObjectError Entry}
    (h : Reaches s₀ th (s, th'))
    (accessor : ∀ i p entry, code i p = .ok entry → ∀ j m args, entry ≠ .method j m args) :
    Outcome s₀ th (beginAccess s th' d id name access refuse code) := by
  unfold beginAccess
  split
  · exact .reaches (h.reply _)
  · split
    · exact .reaches (h.reply _)
    · split
      · exact .reaches (h.reply _)
      · rename_i r _ _ _ entry found
        obtain ⟨p, -, found⟩ := bind_eq_ok_iff.1 found
        exact .calls (h.steady (Shared.steady_retainAll _)).changes rfl
          (.other (accessor _ p entry found)) (.cons (.plain trivial) h.frames)

theorem Reaches.useLoop (h : Reaches s₀ th (s, th')) (l : LoopId) (mode : LoopMode) :
    Reaches s₀ th (useLoop s th' l mode) := by
  unfold Thread.useLoop
  split
  · exact h
  · split
    · exact h
    · exact ((h.steady (Shared.steady_retain _)).alter (.hold _)).push trivial

theorem Reaches.dropLoop (h : Reaches s₀ th (s, th')) (l : LoopId) :
    Reaches s₀ th (dropLoop s th' l) := by
  unfold Thread.dropLoop
  split
  · exact h
  · rename_i d loop _
    dsimp only
    split
    · exact h
    · have disowned : ∀ s : Shared, s.Steady ((s.regain d).disown d) := fun _ =>
        .of_eq rfl rfl fun _ => Shared.dispatcher_disown.trans Shared.dispatcher_regain
      have stopped := h.alter (.stop (x := s.dispatcher d) loop th'.current)
      exact ⟨(stopped.steady (disowned _)).changes, .cons (.plain trivial) h.frames⟩

theorem Reaches.addQuitHandle (h : Reaches s₀ th (s, th')) (x : QuitHandle) :
    Reaches s₀ th ((s.addQuitHandle x).2, th') :=
  (h.alter (.hold x.queue)).steady (.of_eq rfl rfl fun _ => rfl)

theorem outcome_perform {e : Entry} (a : Action) (permitted : permits s a)
    (hb : th.frames = .body e :: rest) : Outcome s th (perform s { th with answer := none } a) := by
  have start : Reaches s th (s, { th with answer := none }) := ⟨.refl, .kept List.suffix_rfl⟩
  have same : ({ th with answer := none } : Thread).current = th.current := rfl
  generalize ({ th with answer := none } : Thread) = th' at start same ⊢
  have retained : ∀ d, Reaches s th (s.retain (.dispatcher d), th') :=
    fun d => start.steady (Shared.steady_retain _)
  -- Only the name, the context and the blocking of an object can be set.
  have describes : ∀ {x : Dispatcher} {o : ObjectId} {f : Registration → Registration},
      (∀ r, ∃ context name blocked, f r = { r with context, name, blocked }) →
      x.Alters (x.modifyObject o f) := fun same => .describe _ same
  cases a with
  | newDispatcher timeout => exact .reaches ((start.change (.host s timeout)).reply _)
  | shareDispatcher d =>
    refine .reaches ?_
    have shared : s.Steady (s.share d) := .of_eq rfl rfl fun _ => Shared.dispatcher_share
    exact (start.steady shared).reply _
  | dropDispatcher d =>
    refine .reaches ?_
    have disowned : s.Steady (s.disown d) := .of_eq rfl rfl fun _ => Shared.dispatcher_disown
    exact (start.steady disowned).push trivial
  | newObject className => exact .reaches ((start.steady (Shared.steady_addInstance _)).reply _)
  | dropObject i => exact .reaches (start.push trivial)
  | newCallback =>
    refine .reaches ?_
    have counted : s.Steady s.addCallback.2 := .of_eq rfl rfl fun _ => rfl
    exact (start.steady counted).reply _
  | register d i =>
    refine .reaches ?_
    unfold perform
    dsimp only
    split
    · exact start.reply _
    · rename_i h
      exact (start.change (.register h)).reply _
  | destroy d id =>
    exact .reaches ((retained d).beginSevering start.frames d id _ fun b => .answer (.flag b))
  | move d id context =>
    refine .reaches ?_
    refine reaches_replyChange start fun x hx => ?_
    obtain ⟨r, -, hx⟩ := bind_eq_ok_iff.1 hx
    cases hx
    exact describes fun r => ⟨_, _, _, rfl⟩
  | setName d id name =>
    refine .reaches ?_
    refine reaches_replyChange start fun x hx => ?_
    unfold Dispatcher.setName at hx
    split at hx
    · cases hx
    · cases hx
      exact describes fun r => ⟨_, _, _, rfl⟩
  | block d id blocked =>
    refine .reaches ?_
    unfold perform
    dsimp only
    split
    · exact start.reply _
    · rename_i hx
      unfold Dispatcher.block at hx
      split at hx
      · cases hx
      · cases hx
        exact (start.alter (describes fun r => ⟨_, _, _, rfl⟩)).reply _
  | connect d sender signal receiver slot type =>
    refine .reaches ?_
    refine reaches_replyConnected start fun p hp => ?_
    obtain ⟨i, j, h⟩ := Dispatcher.connectByIndex_of_connect hp
    exact .connect h
  | connectByIndex d sender signal receiver slot type =>
    exact .reaches (reaches_replyConnected start fun p hp => .connect hp)
  | connectCallback d sender signal callback type =>
    refine .reaches ?_
    unfold perform
    dsimp only
    split
    · exact start.push trivial
    · rename_i h
      exact (start.alter (.connectCallback h)).reply _
  | disconnect d id =>
    refine .reaches ?_
    have cut : Reaches s th ((s.retain (.dispatcher d)).setDispatcher d
        ((s.dispatcher d).disconnect id).2, th') := by
      refine (retained d).alter ?_
      rw [Shared.dispatcher_retain]
      exact .disconnect id
    let frame := Frame.releasing [.dispatcher d]
      (.answer (.flag ((s.dispatcher d).disconnect id).1.isSome))
    have frames : Grows s th (frame :: th'.frames) := .cons (.plain trivial) start.frames
    exact cut.withFrames (frames.afterCut _)
  | disconnectAll d sender => exact .reaches ((retained d).push trivial)
  | emit d sender signal args =>
    refine .reaches ?_
    refine reaches_beginEmitting start fun all h => ?_
    obtain ⟨⟨_, signal⟩, -, passes⟩ := bind_eq_ok_iff.1 h
    exact ⟨sender, signal, passes⟩
  | emitByIndex d sender signal args =>
    exact .reaches (reaches_beginEmitting start fun all passes => ⟨sender, signal, passes⟩)
  | emitOwn i signal args =>
    refine .reaches ?_
    unfold perform
    refine reaches_emitOwn start fun x id all h => ?_
    obtain ⟨⟨_, signal⟩, -, passes⟩ := bind_eq_ok_iff.1 h
    exact ⟨id, signal, passes⟩
  | emitOwnByIndex i signal args =>
    refine .reaches ?_
    unfold perform
    exact reaches_emitOwn start fun x id all passes => ⟨id, signal, passes⟩
  | call d id method type args =>
    unfold perform
    dsimp only
    split
    · exact .reaches (start.reply _)
    · rename_i route passes
      exact outcome_beginCalling start fun target leads => .asked hb permitted (same ▸ passes) leads
  | read d id name =>
    unfold perform
    refine outcome_beginAccess start fun i p entry h => ?_
    split at h <;> cases h
    exact fun _ _ _ => nofun
  | write d id name value =>
    unfold perform
    refine outcome_beginAccess start fun i p entry h => ?_
    split at h <;> cases h
    exact fun _ _ _ => nofun
  | reset d id name =>
    unfold perform
    refine outcome_beginAccess start fun i p entry h => ?_
    split at h <;> cases h
    exact fun _ _ _ => nofun
  | quit d context => exact .reaches ((start.alter (.quit context)).reply _)
  | serve d context mode =>
    refine .reaches ?_
    have served : Reaches s th ((s.retain (.dispatcher d)).setDispatcher d
        { s.dispatcher d with queues := (Loop.start (s.dispatcher d).queues th'.current context).2.2 },
        th') := by
      refine (retained d).alter ?_
      rw [Shared.dispatcher_retain]
      exact .start th'.current context
    exact ⟨served.changes, .cons (.plain trivial) start.frames⟩
  | enter context => exact .reaches ⟨.refl, start.frames⟩
  | newLoop d context =>
    refine .reaches ?_
    have lent : s.Steady ((s.share d).lend d) :=
      .of_eq rfl rfl fun _ => Shared.dispatcher_lend.trans Shared.dispatcher_share
    have started : Reaches s th (((s.share d).lend d).setDispatcher d
        { s.dispatcher d with queues := (Loop.start (s.dispatcher d).queues th'.current context).2.2 },
        th') := by
      refine (start.steady lent).alter ?_
      rw [lent.dispatcher d]
      exact .start th'.current context
    exact ⟨started.changes, start.frames⟩
  | useLoop l mode => exact .reaches (start.useLoop l mode)
  | dropLoop l => exact .reaches (start.dropLoop l)
  | newQuitHandle l =>
    refine .reaches ?_
    unfold perform
    dsimp only
    split
    · exact start
    · exact (start.addQuitHandle _).reply _
  | copyQuitHandle h =>
    refine .reaches ?_
    unfold perform
    dsimp only
    split
    · exact start
    · exact (start.addQuitHandle _).reply _
  | quitBy h =>
    refine .reaches ?_
    unfold perform
    dsimp only
    split
    · exact start
    · exact (start.alter (.push _)).reply _
  | dropQuitHandle h =>
    refine .reaches ?_
    unfold perform
    dsimp only
    split
    · exact start
    · rename_i x _
      have given := start.alter (.letGo (x := s.dispatcher x.dispatcher) x.queue)
      have dropped : Reaches s th ({ s.modifyQueues x.dispatcher (·.letGo x.queue) with
          quitHandles := s.quitHandles.set h none }, th') :=
        given.steady (.of_eq rfl rfl fun _ => rfl)
      exact dropped.reply _

/-! ## All steps -/

theorem outcome_release {h : Held} {held : List Held} {reply : Reply}
    (hf : th.frames = .releasing (h :: held) reply :: rest) :
    Outcome s th (release s th h held reply rest) := by
  have below : Grows s th rest := .outer hf
  have releasing : ∀ held', Grows s th (.releasing held' reply :: rest) :=
    fun held' => .cons (.plain trivial) below
  have gone : Reaches s th ((s.letGo h).2, th) :=
    (Reaches.start s th).steady (Shared.steady_letGo h)
  unfold release
  dsimp only
  split
  · exact .reaches (gone.withFrames (releasing held))
  · rename_i last
    cases h with
    | completion k => exact .reaches (gone.withFrames (releasing held))
    | callback c =>
      refine .begins gone.changes rfl (.other fun _ _ _ => nofun) (releasing held) ?_
      rw [hf]
      rfl
    | object i =>
      refine .begins gone.changes rfl (.other fun _ _ _ => nofun)
        (.cons (.plain trivial) (releasing held)) ?_
      rw [hf]
      rfl
    | dispatcher d =>
      have last : s.handles d = 1 := by
        apply Shared.letGo_last.1
        simpa using last
      exact .closes last rfl (releasing _)

theorem outcome_advance {p : Shared × Thread} (h : advance s th = some p) : Outcome s th p := by
  have start := Reaches.start s th
  have plain : ∀ {f g : Frame} {rest : List Frame}, th.frames = f :: rest → g.Plain →
      Grows s th (g :: rest) := fun hf hg => .cons (.plain hg) (.outer hf)
  unfold advance at h
  split at h
  case h_1 entry rest hf =>
    cases h
    refine .begins start.changes rfl (.called hf) (.outer hf) ?_
    rw [hf]
    rfl
  case h_2 e rest hf =>
    split at h
    · rename_i id c more remaining
      cases h
      exact outcome_deliver hf remaining
    · cases h
      have emitting : Grows s th (.emitting e :: rest) := hf ▸ start.frames
      exact .reaches (start.withFrames (.cons (.plain trivial) emitting))
    · cases h
      exact .reaches (start.withFrames (plain hf trivial))
  case h_3 k deadline rest hf =>
    split at h
    · cases h
    · cases h
      exact .reaches ((start.withFrames (.outer hf)).resume _)
  case h_4 v rest hf => exact outcome_serveNext hf h
  case h_5 d id next remaining held reply rest hf =>
    cases h
    have goesOn := plain (g := .severing d id remaining held reply) hf trivial
    exact .reaches ((start.alter (.sever id next)).withFrames (goesOn.afterCut _))
  case h_6 d id held reply rest hf =>
    cases h
    exact .reaches ((start.alter (.endDestroy id)).withFrames (plain hf trivial))
  case h_7 d next remaining count held rest hf =>
    cases h
    have goesOn := fun count => plain (g := .disconnecting d remaining count held) hf trivial
    exact .reaches ((start.alter (.disconnect next)).withFrames ((goesOn _).afterCut _))
  case h_8 d count held rest hf =>
    cases h
    exact .reaches (start.withFrames (plain hf trivial))
  case h_9 reply rest hf =>
    cases h
    exact .reaches ((start.withFrames (.outer hf)).resume _)
  case h_10 first held reply rest hf =>
    cases h
    exact outcome_release hf
  case h_11 => cases h

theorem outcome_expire (s : Shared) (th : Thread) : Outcome s th (expire s th) := by
  have start := Reaches.start s th
  unfold expire
  split
  · rename_i h
    exact outcome_advance h
  · rename_i hf
    exact .reaches ((start.withFrames (.outer hf)).resume _)
  · rename_i v rest _ hf
    exact .reaches (start.stopServing v .timedOut (.outer hf))
  · exact .reaches start

theorem outcome_act (s : Shared) (th : Thread) (a : Action) : Outcome s th (act s th a) := by
  unfold act
  split
  · rename_i hb
    split
    · rename_i permitted
      exact outcome_perform a permitted hb
    · exact .reaches (.start s th)
  · exact .reaches (.start s th)

/-- What can happen on a thread, maybe after some time, makes changes or closes a dispatcher, and the
frames that are there then arise from those before. -/
theorem Moves.outcome (h : Moves s th s' th') : ∃ now, Outcome { s with now } th (s', th') := by
  cases h with
  | act a => exact ⟨s.now, outcome_act s th a⟩
  | finish y => exact ⟨s.now, .reaches (reaches_finish s th y)⟩
  | advance h => exact ⟨s.now, outcome_advance h⟩
  | expire now => exact ⟨now, outcome_expire _ th⟩

end Thread
end Reflection

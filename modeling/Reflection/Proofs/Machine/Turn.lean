import Mathlib.Logic.Relation
import Reflection.Proofs.Dispatcher.Connecting
import Reflection.Proofs.Machine.Views
/-!
# What a thread can do

A step of a thread replaces the innermost frames of its stack and changes what threads share.
`Turn` lists the ways in which it does so, as far as handles, connections and awaited calls are
concerned; every step is a few turns one after the other, or makes a connection (`Connects`), or gives
up a call whose receiver is gone (`Skips`). What all of these keep is therefore kept by every step of
every thread, whatever client code asks for (`Moves.turns`).
-/

namespace Reflection

open Relation (ReflTransGen)

/-! ## Frames -/

/-- The dispatcher of a handle. -/
def Held.dispatcher? : Held → Option DispatcherId
  | .dispatcher d => some d
  | _ => none

/-- The completion that is to be told how its call ended. -/
def Held.completion? : Held → Option CompletionId
  | .completion k => some k
  | _ => none

namespace Held

@[simp] theorem dispatcher?_dispatcher (d : DispatcherId) : (dispatcher d).dispatcher? = some d := rfl

@[simp] theorem dispatcher?_object (i : InstanceId) : (object i).dispatcher? = none := rfl

@[simp] theorem dispatcher?_callback (c : CallbackId) : (callback c).dispatcher? = none := rfl

@[simp] theorem dispatcher?_completion (k : CompletionId) : (completion k).dispatcher? = none := rfl

@[simp] theorem completion?_dispatcher (d : DispatcherId) : (dispatcher d).completion? = none := rfl

@[simp] theorem completion?_object (i : InstanceId) : (object i).completion? = none := rfl

@[simp] theorem completion?_callback (c : CallbackId) : (callback c).completion? = none := rfl

@[simp] theorem completion?_completion (k : CompletionId) : (completion k).completion? = some k := rfl

end Held

@[simp] theorem Invocation.filterMap_dispatcher?_held (i : Invocation) :
    i.held.filterMap (·.dispatcher?) = [] := by
  rw [held]
  cases i.target.callback? <;> cases i.completion <;> rfl

@[simp] theorem Invocation.filterMap_completion?_held (i : Invocation) :
    i.held.filterMap (·.completion?) = i.completion.toList := by
  rw [held]
  cases i.target.callback? <;> cases i.completion <;> rfl

namespace Frame

/-- What a frame holds, other than the callbacks of deliveries still to be made. -/
def held : Frame → List Held
  | .body _ | .starting _ | .waiting _ _ | .disposing _ => []
  | .calling held | .accessing _ held | .invoking _ held | .severing _ _ _ held _
  | .disconnecting _ _ _ held | .releasing held _ => held
  | .emitting e => e.held
  | .serving v => [.dispatcher v.dispatcher]
  | .executing i => i.held

/-- The dispatchers that a frame holds. -/
def handles (f : Frame) : List DispatcherId :=
  f.held.filterMap (·.dispatcher?)

/-- The completion of the call that a frame executes. -/
def executes : Frame → List CompletionId
  | .executing i => i.completion.toList
  | _ => []

/-- The completions that a frame will tell that their calls were given up, unless they were told
something else before. -/
def dismisses : Frame → List CompletionId
  | .executing _ => []
  | f => f.held.filterMap (·.completion?)

/-- The destruction that a frame is about, with the connections still to be cut. -/
def severings : Frame → List (DispatcherId × ObjectId × List ConnectionId)
  | .severing d o ids _ _ => [(d, o, ids)]
  | _ => []

/-- An emission and a destruction hold their dispatcher, and a call that was made is never told to be
skipped. -/
def Sound : Frame → Prop
  | .emitting e => e.dispatcher ∈ e.held.filterMap (·.dispatcher?)
  | .severing d _ _ held reply =>
    d ∈ held.filterMap (·.dispatcher?) ∧ reply ≠ .called .skipped
  | .releasing _ reply => reply ≠ .called .skipped
  | _ => True

end Frame

/-- Frames that are replaced by others with the same handles and destructions. -/
structure Carries (old new : List Frame) : Prop where
  handles : new.flatMap (·.handles) = old.flatMap (·.handles)
  severings : new.flatMap (·.severings) = old.flatMap (·.severings)
  sound : (∀ f ∈ old, f.Sound) → ∀ f ∈ new, f.Sound

theorem Carries.refl (fs : List Frame) : Carries fs fs :=
  ⟨rfl, rfl, fun h => h⟩

/-- Frames that are replaced by others with one more handle. -/
structure Opens (d : DispatcherId) (old new : List Frame) : Prop where
  handles : new.flatMap (·.handles) = d :: old.flatMap (·.handles)
  severings : new.flatMap (·.severings) = old.flatMap (·.severings)
  sound : (∀ f ∈ old, f.Sound) → ∀ f ∈ new, f.Sound

/-! ## Turns -/

/-- A stack from some frame inwards, and what threads share. -/
abbrev Scope := Shared × List Frame

/-- What happens to calls for which a caller waits. -/
inductive Work : Scope → Scope → Prop
  /-- No such call is made, taken from a queue or told about. -/
  | idle {s s' : Shared} {old new : List Frame}
      (awaited : ∀ d, (s'.dispatcher d).awaited ≤ (s.dispatcher d).awaited)
      (completions : s'.completions = s.completions)
      (executes : new.flatMap (·.executes) = old.flatMap (·.executes))
      (dismisses : ∀ k ∈ new.flatMap (·.dismisses), k ∈ old.flatMap (·.dismisses)) :
      Work (s, old) (s', new)
  | await {s : Shared} {fs : List Frame} (d : DispatcherId) (context : Context) (target : Target)
      (args : List Variant) :
      Work (s, fs) ((s.enqueueWaiting d context target args).2, fs)
  | take {s : Shared} {v : Serving} {i : Invocation} {queues : Queues Invocation} {n : Nat}
      {fs : List Frame}
      (h : (s.dispatcher v.dispatcher).queues.pop? v.loop.queue = some (.work i, queues)) :
      Work (s, .serving v :: fs)
        (s.setDispatcher v.dispatcher { s.dispatcher v.dispatcher with queues },
          .executing i :: .serving { v with executed := n } :: fs)
  /-- A call that was taken has ended. -/
  | deliver {s : Shared} {i : Invocation} {fs : List Frame} :
      Work (s, .executing i :: fs)
        (i.completion.elim s fun k => s.complete k .delivered, .releasing i.held .nothing :: fs)
  | dismiss {s : Shared} {k : CompletionId} {held : List Held} {reply : Reply} {fs : List Frame} :
      Work (s, .releasing (.completion k :: held) reply :: fs)
        (s.complete k .dropped, .releasing held reply :: fs)

/-- What a thread does without making a connection. -/
inductive Turn : Scope → Scope → Prop
  /-- Handles, links and connections stay what they are. -/
  | work {s s' : Shared} {old new : List Frame} (alike : s.Alike s') (carries : Carries old new)
      (work : Work (s, old) (s', new)) : Turn (s, old) (s', new)
  | host {s : Shared} {fs : List Frame} (timeout : Option Nat) :
      Turn (s, fs) ((s.addDispatcher timeout).2, fs)
  | share {s : Shared} {d : DispatcherId} {fs : List Frame} (h : 0 < s.handles d) :
      Turn (s, fs) (s.share d, fs)
  | disown {s : Shared} {d : DispatcherId} {fs : List Frame} (h : 0 < s.owned d) :
      Turn (s, fs) (s.disown d, .releasing [.dispatcher d] (.answer .done) :: fs)
  /-- An operation begins that holds its dispatcher. -/
  | hold {s : Shared} {d : DispatcherId} {old new : List Frame} (h : 0 < s.handles d)
      (opens : Opens d old new)
      (executes : new.flatMap (·.executes) = old.flatMap (·.executes))
      (dismisses : ∀ k ∈ new.flatMap (·.dismisses), k ∈ old.flatMap (·.dismisses)) :
      Turn (s, old) (s.retain (.dispatcher d), new)
  | release {s : Shared} {d : DispatcherId} {held : List Held} {reply : Reply} {fs : List Frame}
      (h : s.handles d ≠ 1) :
      Turn (s, .releasing (.dispatcher d :: held) reply :: fs)
        ((s.letGo (.dispatcher d)).2, .releasing held reply :: fs)
  /-- The last handle is given back. -/
  | close {s : Shared} {d : DispatcherId} {held : List Held} {reply : Reply} {fs : List Frame}
      (h : s.handles d = 1) :
      Turn (s, .releasing (.dispatcher d :: held) reply :: fs)
        ((s.letGo (.dispatcher d)).2.setDispatcher d {},
          .releasing ((s.dispatcher d).held ++ held) reply :: fs)
  | register {s s' : Shared} {d : DispatcherId} {i : InstanceId} {context : Context} {o : ObjectId}
      {fs : List Frame} (opened : 0 < s.handles d) (h : s.register d i context = .ok (o, s')) :
      Turn (s, fs) (s', fs)
  | cut {s : Shared} {fs : List Frame} (d : DispatcherId) (id : ConnectionId) :
      Turn (s, fs) (s.setDispatcher d ((s.dispatcher d).disconnect id).2, fs)
  /-- The destruction of an object begins. -/
  | destroy {s : Shared} {d : DispatcherId} {order : List Nat} {o : ObjectId} {ids : List ConnectionId}
      {x : Dispatcher} {held : List Held} {reply : Reply} {fs : List Frame}
      (h : (s.dispatcher d).beginDestroy? order o = some (ids, x))
      (holds : d ∈ held.filterMap (·.dispatcher?)) :
      Turn (s, .releasing held reply :: fs)
        (s.setDispatcher d x, .severing d o ids held reply :: fs)
  | sever {s : Shared} {d : DispatcherId} {o : ObjectId} {id : ConnectionId}
      {ids : List ConnectionId} {held : List Held} {reply : Reply} {fs : List Frame} :
      Turn (s, .severing d o (id :: ids) held reply :: fs)
        (s.setDispatcher d ((s.dispatcher d).sever o id).2, .severing d o ids held reply :: fs)
  | severed {s : Shared} {d : DispatcherId} {o : ObjectId} {held : List Held} {reply : Reply}
      {fs : List Frame} :
      Turn (s, .severing d o [] held reply :: fs)
        (s.setDispatcher d ((s.dispatcher d).endDestroy o), .releasing held reply :: fs)

/-- Turns one after the other. -/
abbrev Turns : Scope → Scope → Prop :=
  ReflTransGen Turn

/-- A call is taken from a queue whose receiver is gone. It is given up. -/
inductive Skips : Scope → Scope → Prop
  | intro {s : Shared} {v : Serving} {i : Invocation} {queues : Queues Invocation} {n now : Nat}
      (h : (s.dispatcher v.dispatcher).queues.pop? v.loop.queue = some (.work i, queues))
      (gone : s.callee v.dispatcher i.target i.args = .gone) :
      Skips (s, [.serving v])
        ({ s.setDispatcher v.dispatcher { s.dispatcher v.dispatcher with queues } with now },
          [.releasing i.held .nothing, .serving { v with executed := n }])

namespace Skips

variable {a b : Scope}

theorem alike (h : Skips a b) : a.1.Alike b.1 := by
  cases h with
  | @intro s v i queues n now pop gone =>
    have alike := Shared.alike_take (s := s) (d := v.dispatcher) queues
    exact ⟨alike.handles, alike.owned, alike.dispatcher, alike.size⟩

theorem carries (h : Skips a b) : Carries a.2 b.2 := by
  cases h with
  | @intro s v i queues n now pop gone =>
    have sound : (Frame.releasing i.held .nothing).Sound := by simp [Frame.Sound]
    refine ⟨?_, rfl, fun _ => List.forall_mem_cons.2 ⟨sound, List.forall_mem_singleton.2 trivial⟩⟩
    simp [Frame.handles, Frame.held]

end Skips

/-- Giving up a call does not depend on the time. -/
theorem Skips.at_now {s s' : Shared} {now : Nat} {old new : List Frame}
    (h : Skips ({ s with now }, old) (s', new)) : Skips (s, old) (s', new) := by
  generalize ha : (({ s with now }, old) : Scope) = a at h
  cases h with
  | @intro s₀ v i queues n now' pop gone =>
    cases ha
    exact .intro pop gone

/-- A connection is made between active objects. -/
inductive Connects (s : Shared) : Shared → Prop
  | link {d : DispatcherId} {c : Connection} (opened : 0 < s.handles d)
      (admits : (s.dispatcher d).Admits c) :
      Connects s (s.setDispatcher d ((s.dispatcher d).link c).2)

end Reflection

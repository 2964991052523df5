import Reflection.Proofs.Machine.Completions
import Reflection.Proofs.Machine.Stack
/-!
# The steps of an emission

An emission lies on the stack of its thread, alone at the top or below the frames that make one of its
deliveries (`Emission.On`). Whatever happens on the thread, it attempts the next delivery, notes how
one has ended, goes on waiting or is over (`Emission.Step`).
-/

namespace Reflection

variable {s s' : Shared} {e : Emission} {base : List Frame}

/-! ## Where an emission stands -/

namespace Ending

/-- How a delivery has ended whose call was waited for, by what was heard of the call until the time of
waiting was over. -/
def waited (late : DispatchError) : Option Completion → Ending
  | some .delivered => .blocking
  | some .dropped => .skipped
  | none => .failed late

end Ending

/-- The context in which a target runs, unless its receiver is not active any more. -/
def Dispatcher.contextOf? (x : Dispatcher) : Target → Option Context
  | .callback context _ => some context
  | .method receiver _ => (x.active? receiver).map (·.context)

/-- What somebody who waits for a completion may have heard. -/
def Shared.Heard (s : Shared) (k : CompletionId) (heard : Option Completion) : Prop :=
  ∀ c, heard = some c → s.completions[k]? = some (some c)

namespace Emission

/-- The frame right above an emission runs a slot, waits for a call, or gives back what was held. -/
def ServedBy (e : Emission) : Frame → Prop
  | .calling _ | .releasing _ (.called _) => e.delivering.isSome
  | .waiting k _ =>
    e.remaining = [] ∧ e.delivering = none ∧ ∃ id more, e.awaiting = (id, k) :: more
  | .releasing _ .nothing => e.delivering = none
  | _ => False

/-- An emission stands on a stack above the frames `base`. -/
inductive On (e : Emission) (base : List Frame) : List Frame → Prop
  | idle (rests : e.delivering = none) : On e base (.emitting e :: base)
  | busy (top : List Frame) {g : Frame} (serves : e.ServedBy g) :
      On e base (top ++ g :: .emitting e :: base)

/-- A delivery ends in the step that attempts it, which leads from `s` to `s'`. -/
inductive AtOnce (e : Emission) (c : Connection) (s s' : Shared) : Ending → Prop
  | skipped (gone : s.IsGone e.dispatcher c.target) (same : s' = s) : AtOnce e c s s' .skipped
  /-- The emission would have to wait for its own context. -/
  | refused (blocks : c.type = .blocking)
      (here : (s.dispatcher e.dispatcher).contextOf? c.target = some e.current) (same : s' = s) :
      AtOnce e c s s' (.failed (.blockingSameContext e.current))
  | queued {context : Context} (goesOn : c.type ≠ .blocking)
      (way : (s.dispatcher e.dispatcher).routeOver c e.current = .enqueue context c.target)
      (posted : s' = s.enqueue e.dispatcher context { target := c.target, args := e.args }) :
      AtOnce e c s s' .queued
  /-- The receiver has no such method. -/
  | unknown {error : DispatchError}
      (way : (s.dispatcher e.dispatcher).routeOver c e.current = .callNow c.target)
      (unknown : s.callee e.dispatcher c.target e.args = .unknown error) :
      AtOnce e c s s' (.failed error)

/-- What a step of its thread means for an emission above the frames `base`, and which delivery it
attempts. -/
inductive Step (e : Emission) (base : List Frame) :
    Scope → Scope → Option (ConnectionId × Connection) → Emission → Prop
  | rest {a b : Scope} : Step e base a b none e
  /-- The slot of a delivery was called and has ended. -/
  | returned {a b : Scope} {id : ConnectionId} {c : Connection} {r : CallResult}
      (delivering : e.delivering = some (id, c)) (made : Reply.called r ≠ .called .skipped) :
      Step e base a b none (e.settle id r.ending)
  /-- A call that was waited for has ended, or the wait is over. -/
  | told {a b : Scope} {id : ConnectionId} {k : CompletionId}
      {more : List (ConnectionId × CompletionId)} {heard : Option Completion} (last : e.remaining = [])
      (rests : e.delivering = none) (awaiting : e.awaiting = (id, k) :: more)
      (told : a.1.Heard k heard) :
      Step e base a b none
        ({ e with awaiting := more }.settle id (.waited (a.1.timeoutError e.dispatcher) heard))
  /-- A delivery has ended at once. -/
  | settled {s s' : Shared} {fs : List Frame} {id : ConnectionId} {c : Connection}
      {more : List (ConnectionId × Connection)} {ending : Ending} {e' : Emission}
      (remaining : e.remaining = (id, c) :: more) (rests : e.delivering = none)
      (atOnce : e.AtOnce c s s' ending) (becomes : e' = { e with remaining := more }.settle id ending)
      (after : fs = Thread.afterDelivery c (.emitting e' :: base)) :
      Step e base (s, .emitting e :: base) (s', fs) (some (id, c)) e'
  /-- A call was put into a queue, and is waited for in the end. -/
  | awaits {s : Shared} {fs : List Frame} {id : ConnectionId} {c : Connection}
      {more : List (ConnectionId × Connection)} {context : Context} {e' : Emission}
      (remaining : e.remaining = (id, c) :: more) (rests : e.delivering = none)
      (blocks : c.type = .blocking)
      (way : (s.dispatcher e.dispatcher).routeOver c e.current = .wait context c.target)
      (becomes : e' = { e with
        remaining := more, awaiting := e.awaiting ++ [(id, s.completions.length)] })
      (after : fs = Thread.afterDelivery c (.emitting e' :: base)) :
      Step e base (s, .emitting e :: base)
        ((s.enqueueWaiting e.dispatcher context c.target e.args).2, fs) (some (id, c)) e'
  /-- The slot of a delivery is called. -/
  | calls {s s' : Shared} {fs : List Frame} {id : ConnectionId} {c : Connection}
      {more : List (ConnectionId × Connection)} {entry : Entry} {held : List Held} {e' : Emission}
      (remaining : e.remaining = (id, c) :: more) (rests : e.delivering = none)
      (way : (s.dispatcher e.dispatcher).routeOver c e.current = .callNow c.target)
      (code : s.callee e.dispatcher c.target e.args = .code entry held)
      (becomes : e' = { e with remaining := more, delivering := some (id, c) })
      (after : fs = Thread.callFrames entry held (.emitting e' :: base)) :
      Step e base (s, .emitting e :: base) (s', fs) (some (id, c)) e'

theorem On.afterDelivery (rests : e.delivering = none) (c : Connection) :
    e.On base (Thread.afterDelivery c (.emitting e :: base)) := by
  unfold Thread.afterDelivery
  split
  · exact .idle rests
  · exact .busy [] rests

theorem ServedBy.becomes {g g' : Frame} (serves : e.ServedBy g) (h : g.Becomes g') :
    e.ServedBy g' := by
  cases h with
  | same => exact serves
  | returned held y => exact serves
  | released held held' reply => cases reply <;> exact serves

theorem ServedBy.simple {g : Frame} (serves : e.ServedBy g) : g.Simple := by
  cases g <;> trivial

end Emission

namespace Thread

variable {th th' : Thread}

/-! ## Replies to an emission -/

theorem resume_emitting_called (hf : th.frames = .emitting e :: base) {id : ConnectionId}
    {c : Connection} (delivering : e.delivering = some (id, c)) (r : CallResult) :
    resume s th (.called r) =
      (s, th.withFrames (afterDelivery c (.emitting (e.settle id r.ending) :: base))) := by
  unfold resume
  rw [hf]
  simp only [delivering]

theorem resume_emitting_completed (hf : th.frames = .emitting e :: base) {id : ConnectionId}
    {k : CompletionId} {more : List (ConnectionId × CompletionId)}
    (awaiting : e.awaiting = (id, k) :: more) (heard : Option Completion) :
    let ended := Ending.waited (s.timeoutError e.dispatcher) heard
    resume s th (.completed heard) =
      (s, th.withFrames (.emitting ({ e with awaiting := more }.settle id ended) :: base)) := by
  unfold resume
  rw [hf]
  simp only [awaiting]
  match heard with
  | none | some .delivered | some .dropped => rfl

/-- The frame above an emission is over. -/
theorem resume_served (th : Thread) {g : Frame} {r : Reply} (serves : e.ServedBy g)
    (pop : Pops s g r) (hf : th.frames = .emitting e :: base) (now : Nat) (a b : Scope)
    (ha : a.1 = s) :
    ∃ e', e.Step base a b none e' ∧ e'.On base (resume { s with now } th r).2.frames := by
  subst ha
  cases pop with
  | ended => exact serves.elim
  | released _ unskipped =>
    cases r with
    | nothing =>
      refine ⟨e, .rest, ?_⟩
      have frames : (resume { a.1 with now } th .nothing).2.frames = .emitting e :: base := by
        unfold resume
        rw [hf]
        exact hf
      rw [frames]
      exact .idle serves
    | called r =>
      obtain ⟨⟨id, c⟩, delivering⟩ := Option.isSome_iff_exists.1 serves
      rw [resume_emitting_called hf delivering]
      exact ⟨_, .returned delivering unskipped, .afterDelivery rfl c⟩
    | _ => exact serves.elim
  | @told k c told deadline =>
    obtain ⟨last, rests, id, more, awaiting⟩ := serves
    have heard : a.1.Heard k (some c) := fun c' e => by
      rw [told, Option.some.inj e]
    rw [resume_emitting_completed (s := { a.1 with now }) hf awaiting (some c)]
    exact ⟨_, .told last rests awaiting heard, .idle rfl⟩
  | untold k deadline =>
    obtain ⟨last, rests, id, more, awaiting⟩ := serves
    have heard : a.1.Heard k none := nofun
    rw [resume_emitting_completed (s := { a.1 with now }) hf awaiting none]
    exact ⟨_, .told last rests awaiting heard, .idle rfl⟩

/-- What happens on a thread while a delivery of an emission is made. -/
theorem Moves.serving (sound : ∀ f ∈ th.frames, f.Sound) (h : Moves s th s' th') {top : List Frame}
    {g : Frame} (serves : e.ServedBy g) (hf : th.frames = top ++ g :: .emitting e :: base) :
    ∃ e', e.Step base (s, th.frames) (s', th'.frames) none e' ∧ e'.On base th'.frames := by
  -- Nothing below the frame that serves the emission changes until that frame hands it a reply.
  rcases h.above sound serves.simple hf with ⟨top', g', frames, becomes⟩ | ⟨-, now, r, pop, resumed⟩
  · rw [frames]
    exact ⟨e, .rest, .busy top' (serves.becomes becomes)⟩
  · have same := resume_served (th.withFrames (.emitting e :: base)) serves pop rfl now
      (s, th.frames) (s', th'.frames) rfl
    rwa [← resumed] at same

/-! ## The next step of an emission -/

/-- The ways to a target that runs in `context`. -/
inductive Leads (type : ConnectionType) (current context : Context) (target : Target) : Route → Prop
  | callNow (goesOn : type = .direct ∨ type = .auto) (here : context = current) :
      Leads type current context target (.callNow target)
  | enqueue (goesOn : type ≠ .blocking) (apart : type ≠ .queued → context ≠ current) :
      Leads type current context target (.enqueue context target)
  | wait (blocks : type = .blocking) (apart : context ≠ current) :
      Leads type current context target (.wait context target)
  | fail (blocks : type = .blocking) (here : context = current) :
      Leads type current context target (.fail (.blockingSameContext current))

theorem leads_route (type : ConnectionType) (current context : Context) (target : Target) :
    Leads type current context target (Dispatcher.route type current context target) := by
  unfold Dispatcher.route
  cases type with
  | direct | auto =>
    dsimp only
    split
    · rename_i here
      exact .callNow (by decide) here
    · rename_i apart
      exact .enqueue (by decide) fun _ => apart
  | queued => exact .enqueue (by decide) fun other => absurd rfl other
  | blocking =>
    dsimp only
    split
    · rename_i here
      exact here ▸ .fail rfl rfl
    · rename_i apart
      exact .wait rfl apart

/-- A delivery is skipped if the receiver is not there. -/
theorem routeOver_cases (d : DispatcherId) (c : Connection) (current : Context) :
    (s.dispatcher d).routeOver c current = .skip ∧ s.IsGone d c.target ∨
      ∃ context, (s.dispatcher d).contextOf? c.target = some context ∧
        Leads c.type current context c.target ((s.dispatcher d).routeOver c current) := by
  unfold Dispatcher.routeOver
  split
  · rename_i context number ht
    exact .inr ⟨context, by rw [ht]; rfl, leads_route _ _ _ _⟩
  · rename_i receiver index ht
    split
    · rename_i none
      refine .inl ⟨rfl, receiver, by rw [ht]; rfl, fun reg hr => ?_⟩
      rw [none] at hr
      cases hr
    · rename_i reg found
      refine .inr ⟨reg.context, ?_, leads_route _ _ _ _⟩
      rw [ht, Dispatcher.contextOf?, found]
      rfl

theorem executes_afterDelivery (c : Connection) (fs : List Frame) :
    (afterDelivery c fs).flatMap (·.executes) = fs.flatMap (·.executes) := by
  unfold afterDelivery
  split <;> rfl

theorem dismisses_afterDelivery (c : Connection) (fs : List Frame) :
    (afterDelivery c fs).flatMap (·.dismisses) = fs.flatMap (·.dismisses) := by
  unfold afterDelivery
  split <;> rfl

/-- A delivery is attempted. -/
theorem deliver_step {id : ConnectionId} {c : Connection} {more : List (ConnectionId × Connection)}
    (remaining : e.remaining = (id, c) :: more) (rests : e.delivering = none)
    (hf : th.frames = .emitting e :: base)
    (h : deliver s th { e with remaining := more } id c base = (s', th')) :
    ∃ e', e.Step base (s, th.frames) (s', th'.frames) (some (id, c)) e' ∧ e'.On base th'.frames := by
  have settles : ∀ {s₁ : Shared} {ending : Ending},
      (s₁, th.withFrames (afterDelivery c
        (.emitting ({ e with remaining := more }.settle id ending) :: base))) = (s', th') →
      e.AtOnce c s s₁ ending →
      ∃ e', e.Step base (s, th.frames) (s', th'.frames) (some (id, c)) e' ∧ e'.On base th'.frames := by
    intro s₁ ending same atOnce
    cases same
    rw [hf]
    exact ⟨_, .settled remaining rests atOnce rfl rfl, .afterDelivery rfl c⟩
  unfold deliver at h
  dsimp only at h
  rcases routeOver_cases e.dispatcher c e.current with ⟨skip, gone⟩ | ⟨context, there, leads⟩
  · rw [skip] at h
    exact settles h (.skipped gone rfl)
  · generalize way : (s.dispatcher e.dispatcher).routeOver c e.current = route at leads h
    cases leads with
    | fail blocks here => exact settles h (.refused blocks (here ▸ there) rfl)
    | enqueue goesOn => exact settles h (.queued goesOn way rfl)
    | wait blocks =>
      cases h
      rw [hf]
      refine ⟨_, .awaits remaining rests blocks way rfl rfl, ?_⟩
      apply Emission.On.afterDelivery
      exact rests
    | callNow =>
      dsimp only at h
      cases hc : s.callee e.dispatcher c.target e.args with
      | gone =>
        rw [hc] at h
        exact settles h (.skipped (Shared.isGone_of_callee hc) rfl)
      | unknown error =>
        rw [hc] at h
        exact settles h (.unknown way hc)
      | code entry held =>
        rw [hc] at h
        cases h
        rw [hf]
        exact ⟨_, .calls remaining rests way hc rfl rfl, .busy [.starting entry] (g := .calling held) rfl⟩

/-- The next step of an emission attempts the next delivery, goes on waiting or ends the emission. -/
theorem advance_emitting (rests : e.delivering = none) (hf : th.frames = .emitting e :: base)
    (h : advance s th = some (s', th')) :
    (∃ e', e.Step base (s, th.frames) (s', th'.frames) e.remaining.head? e' ∧ e'.On base th'.frames) ∨
      e.remaining = [] ∧ e.awaiting = [] ∧
        th'.frames = .releasing e.held (.answer (.emitted (.ok e.report))) :: base := by
  unfold advance at h
  rw [hf] at h
  dsimp only at h
  split at h
  · rename_i id c more remaining
    rw [remaining]
    exact .inl (deliver_step remaining rests hf (Option.some.inj h))
  · rename_i id k more last awaiting
    cases h
    rw [last]
    exact .inl ⟨e, .rest, .busy [] ⟨last, rests, id, more, awaiting⟩⟩
  · rename_i last answered
    cases h
    exact .inr ⟨last, answered, rfl⟩

end Thread
end Reflection

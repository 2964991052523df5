import Reflection.Proofs.Machine.Executions
/-!
# What becomes of deliveries

A move that attempts a delivery of an emission does one thing for it: it finds that the receiver is gone,
refuses to wait, puts one call into the queue of the receiver or calls the slot (`Machine.Makes`). How a
delivery has ended says what has become of that (`Machine.Delivered`): the slot has run to its end on
the thread of the emission, the call was put into the queue, or it was waited for. Every move keeps
this of an emission under way, so it holds of the report when the emission is over (`pursues_run`).
-/

namespace Reflection

/-- What comes of an attempt at a delivery. -/
inductive Attempt where
  /-- The receiver is gone. -/
  | skipped
  /-- The emission would have to wait for its own context. -/
  | refused
  | posted (call : Invocation)
  | called (entry : Entry)

/-- The slot that is called for a delivery serves its emission. -/
theorem Thread.Performs.on {th : Thread} {entry : Entry} {e : Emission} {base : List Frame}
    {said : Option Yield} {p : ConnectionId × Connection}
    (performs : th.Performs entry (.emitting e :: base) said) (delivering : e.delivering = some p) :
    e.On base th.frames := by
  have serves : e.delivering.isSome := Option.isSome_of_mem delivering
  cases performs with
  | @called held frames => exact frames ▸ .busy [.starting entry] (g := .calling held) serves
  | @runs top held frames =>
    rw [frames, List.append_cons]
    exact .busy (top ++ [.body entry]) (g := .calling held) serves
  | @ended top held y frames => exact frames ▸ .busy top (g := .releasing held (.called y.result)) serves

namespace Machine

variable {m : Machine} {t n : Nat} {th th' : Thread} {moves moves' : List Move} {a : Move}
  {d : DispatcherId} {args : List Variant} {current : Context} {e e₀ : Emission} {id : ConnectionId}
  {c : Connection} {k : CompletionId} {i : Invocation} {base : List Frame} {ending : Ending}
  {p : ConnectionId × Connection} {entry : Entry} {said : Option Yield} {done : Attempt}

/-! ## Attempts -/

/-- A frame at the top of a thread belongs to the call of a slot for a delivery of the emission that lies
on `n` frames. -/
def WorksFor (m : Machine) (t n : Nat) (p : ConnectionId × Connection) (f : Frame) : Prop :=
  ∃ th held e base, m.threads[t]? = some th ∧
    th.frames = f :: .calling held :: .emitting e :: base ∧ base.length = n ∧ e.delivering = some p

/-- What a move does for a delivery that it attempts. The emission has the arguments `args` and was asked
for in the context `current`. -/
inductive Makes (m : Machine) (t n : Nat) (a : Move) (d : DispatcherId) (args : List Variant)
    (current : Context) (p : ConnectionId × Connection) : Attempt → Prop
  | skipped (gone : m.shared.IsGone d p.2.target) (nothing : (m.move a).shared = m.shared)
      (silent : ∀ entry, ¬ (m.move a).Calls t entry) : Makes m t n a d args current p .skipped
  | refused (blocks : p.2.type = .blocking)
      (here : (m.shared.dispatcher d).contextOf? p.2.target = some current)
      (nothing : (m.move a).shared = m.shared) (silent : ∀ entry, ¬ (m.move a).Calls t entry) :
      Makes m t n a d args current p .refused
  /-- One call is put into the queue of the context in which the target runs, behind all others. -/
  | posted {context : Context} {i : Invocation}
      (there : (m.shared.dispatcher d).contextOf? p.2.target = some context)
      (apart : p.2.type ≠ .queued → context ≠ current) (target : i.target = p.2.target)
      (arguments : i.args = args)
      (completion : i.completion =
        if p.2.type = .blocking then some m.shared.completions.length else none)
      (posts : m.traffic a = [(d, .posted context (.work i))])
      (waiting : ∀ x, ((m.move a).shared.dispatcher d).queues.waiting x =
        (m.shared.dispatcher d).queues.waiting x ++ if x = context then [.work i] else [])
      (silent : ∀ entry, ¬ (m.move a).Calls t entry) : Makes m t n a d args current p (.posted i)
  /-- The code of the target is called on the thread of the emission. -/
  | called {entry : Entry} {held : List Held} (goesOn : p.2.type = .direct ∨ p.2.type = .auto)
      (here : (m.shared.dispatcher d).contextOf? p.2.target = some current)
      (code : m.shared.callee d p.2.target args = .code entry held)
      (calls : (m.move a).WorksFor t n p (.starting entry)) :
      Makes m t n a d args current p (.called entry)

/-- In the course of a run a delivery was attempted, and this was done for it. -/
def Attempted (m : Machine) (t n : Nat) (moves : List Move) (d : DispatcherId) (args : List Variant)
    (current : Context) (p : ConnectionId × Connection) (done : Attempt) : Prop :=
  ∃ before a, before ++ [a] <+: moves ∧ (m.run before).attempt? t n a = some p ∧
    (m.run before).Makes t n a d args current p done

/-- In the course of a run the code was called for a delivery and has run to its end. -/
def Performed (m : Machine) (t n : Nat) (moves : List Move) (d : DispatcherId) (args : List Variant)
    (current : Context) (p : ConnectionId × Connection) (entry : Entry) (y : Yield) : Prop :=
  ∃ before, before ++ [.finish t y] <+: moves ∧ m.Attempted t n before d args current p (.called entry) ∧
    (m.run before).WorksFor t n p (.body entry)

/-- What has become of a delivery that has ended. -/
inductive Delivered (m : Machine) (t n : Nat) (moves : List Move) (d : DispatcherId)
    (args : List Variant) (current : Context) (p : ConnectionId × Connection) : Ending → Prop
  | skipped (attempted : m.Attempted t n moves d args current p .skipped) :
      Delivered m t n moves d args current p .skipped
  | refused (attempted : m.Attempted t n moves d args current p .refused) :
      Delivered m t n moves d args current p (.failed (.blockingSameContext current))
  | queued {i : Invocation} (goesOn : p.2.type ≠ .blocking)
      (attempted : m.Attempted t n moves d args current p (.posted i)) :
      Delivered m t n moves d args current p .queued
  | called {entry : Entry} {y : Yield} (goesOn : p.2.type ≠ .blocking)
      (performed : m.Performed t n moves d args current p entry y) :
      Delivered m t n moves d args current p y.result.ending
  | waited {i : Invocation} {heard : Option Completion} (ms : Nat) (blocks : p.2.type = .blocking)
      (attempted : m.Attempted t n moves d args current p (.posted i)) (target : i.target = p.2.target)
      (arguments : i.args = args) (fate : m.Fate moves d i heard) :
      Delivered m t n moves d args current p (.waited (.timeout ms) heard)

theorem Attempted.mono (h : m.Attempted t n moves d args current p done) (sub : moves <+: moves') :
    m.Attempted t n moves' d args current p done := by
  obtain ⟨before, a, part, attempts, makes⟩ := h
  exact ⟨before, a, part.trans sub, attempts, makes⟩

theorem Performed.mono {y : Yield} (h : m.Performed t n moves d args current p entry y)
    (sub : moves <+: moves') : m.Performed t n moves' d args current p entry y := by
  obtain ⟨before, part, ended⟩ := h
  exact ⟨before, part.trans sub, ended⟩

theorem Delivered.concat (h : m.Delivered t n moves d args current p ending) (a : Move) :
    m.Delivered t n (moves ++ [a]) d args current p ending := by
  have sub : moves <+: moves ++ [a] := List.prefix_append _ _
  cases h with
  | skipped attempted => exact .skipped (attempted.mono sub)
  | refused attempted => exact .refused (attempted.mono sub)
  | queued goesOn attempted => exact .queued goesOn (attempted.mono sub)
  | called goesOn performed => exact .called goesOn (performed.mono sub)
  | waited ms blocks attempted target arguments fate =>
    exact .waited ms blocks (attempted.mono sub) target arguments (fate.concat a)

/-- The slot of a delivery that is counted as direct has run to its end. -/
theorem Delivered.performed (h : m.Delivered t n moves d args current p .direct) :
    ∃ entry y, m.Performed t n moves d args current p entry y := by
  generalize direct : Ending.direct = ending at h
  cases h with
  | called _ performed => exact ⟨_, _, performed⟩
  | skipped | refused | queued => cases direct
  | @waited _ heard =>
    match heard with
    | none | some .delivered | some .dropped => cases direct

/-- Each attempt at a delivery so far has done something for it. -/
def Effective (m : Machine) (t n : Nat) (moves : List Move) (d : DispatcherId) (args : List Variant)
    (current : Context) : Prop :=
  ∀ before a p, before ++ [a] <+: moves → (m.run before).attempt? t n a = some p →
    ∃ done, (m.run before).Makes t n a d args current p done

theorem Effective.concat (h : m.Effective t n moves d args current)
    (makes : ∀ p, (m.run moves).attempt? t n a = some p →
      ∃ done, (m.run moves).Makes t n a d args current p done) :
    m.Effective t n (moves ++ [a]) d args current := by
  intro before a' p part attempts
  rcases List.prefix_concat_iff.1 part with whole | earlier
  · obtain ⟨rfl, same⟩ := List.append_inj' whole rfl
    cases same
    exact makes p attempts
  · exact h before a' p earlier attempts

/-! ### What is done by a step -/

theorem advance_of_attempt (h : m.attempt? t n a = some p) : a = .advance t := by
  cases a with
  | advance t' =>
    by_cases e : t' = t
    · rw [e]
    · rw [attempt?, if_neg e] at h
      cases h
  | _ => cases h

/-- While the slot of a delivery is called, no other is attempted. -/
theorem attempt?_of_delivering (ht : m.threads[t]? = some th) (on : e.On base th.frames)
    (delivering : e.delivering = some p) (a : Move) : m.attempt? t base.length a = none := by
  refine attempt?_eq_none fun _ th' ht' => ?_
  cases ht.symm.trans ht'
  generalize hf : th.frames = fs at on
  cases on with
  | idle rests => cases rests.symm.trans delivering
  | busy top serves => exact Thread.attempt?_of_simple serves.simple hf (Nat.le_succ _)

/-- A delivery posts what its way says. -/
theorem traffic_of_emitting (ht : m.threads[t]? = some th) {more : List (ConnectionId × Connection)}
    (hf : th.frames = .emitting e :: base) (remaining : e.remaining = (id, c) :: more) {route : Route}
    (way : (m.shared.dispatcher e.dispatcher).routeOver c e.current = route) :
    m.traffic (.advance t) = Thread.posts m.shared e.dispatcher e.args route := by
  simp only [traffic, ht, Option.map_some, Option.getD_some, Thread.traffic, hf, remaining, way]

theorem silent_of_afterDelivery (ht : m.threads[t]? = some th)
    (after : th.frames = Thread.afterDelivery c (.emitting e :: base)) (entry : Entry) :
    ¬ m.Calls t entry := by
  rintro ⟨th', rest, ht', top⟩
  cases ht.symm.trans ht'
  rw [after] at top
  unfold Thread.afterDelivery at top
  split at top <;> cases top

theorem context_of_route {s : Shared} {route : Route} (goesOn : route ≠ .skip)
    (way : (s.dispatcher d).routeOver c current = route) :
    ∃ context, (s.dispatcher d).contextOf? c.target = some context ∧
      Thread.Leads c.type current context c.target route := by
  rcases Thread.routeOver_cases d c current with ⟨skip, -⟩ | leads
  · exact absurd (way.symm.trans skip) goesOn
  · exact way ▸ leads

/-! ## Emissions under way -/

/-- A delivery of an emission that began as `e` is waited for. -/
structure Awaits (m : Machine) (t n : Nat) (moves : List Move) (e : Emission)
    (p : ConnectionId × Connection) (k : CompletionId) (i : Invocation) : Prop where
  mem : p ∈ e.remaining
  blocks : p.2.type = .blocking
  attempted : m.Attempted t n moves e.dispatcher e.args e.current p (.posted i)
  target : i.target = p.2.target
  args : i.args = e.args
  followed : (m.run moves).shared.Closed e.dispatcher ∨ m.Followed moves e.dispatcher k i

theorem Awaits.concat (reachable : m.Reachable) (h : m.Awaits t n moves e p k i) (a : Move) :
    m.Awaits t n (moves ++ [a]) e p k i := by
  refine { h with attempted := h.attempted.mono (List.prefix_append _ _), followed := ?_ }
  rcases h.followed with closed | followed
  · have sound := (reachable.run moves).regular.sound
    exact .inl (run_concat m moves a ▸ (kept_closed _).effect (effect_move sound a) closed)
  · exact followed.move reachable a

/-- The slot of a delivery of an emission, which began as `e₀` and is now `e`, was called and has not
handed over what it has said. -/
structure Delivering (m : Machine) (t : Nat) (base : List Frame) (moves : List Move) (e₀ e : Emission)
    (p : ConnectionId × Connection) : Prop where
  mem : p ∈ e₀.remaining
  goesOn : p.2.type ≠ .blocking
  performs : ∃ th entry said, (m.run moves).threads[t]? = some th ∧
    th.Performs entry (.emitting e :: base) said ∧
    m.Attempted t base.length moves e₀.dispatcher e₀.args e₀.current p (.called entry) ∧
    ∀ y, said = some y →
      m.Performed t base.length moves e₀.dispatcher e₀.args e₀.current p entry y

/-- What has become of the deliveries of an emission, which began as `e₀` and is now `e`. -/
structure Pursues (m : Machine) (t n : Nat) (moves : List Move) (e₀ e : Emission) : Prop where
  dispatcher : e.dispatcher = e₀.dispatcher
  args : e.args = e₀.args
  current : e.current = e₀.current
  remaining : ∀ p ∈ e.remaining, p ∈ e₀.remaining
  awaiting : ∀ id k, (id, k) ∈ e.awaiting → ∃ c i, m.Awaits t n moves e₀ (id, c) k i
  settled : ∀ id ending, (id, ending) ∈ e.report.endings →
    ∃ c, (id, c) ∈ e₀.remaining ∧
      m.Delivered t n moves e₀.dispatcher e₀.args e₀.current (id, c) ending
  effective : m.Effective t n moves e₀.dispatcher e₀.args e₀.current

namespace Pursues

/-- Nothing has happened to the emission that is noted there. -/
theorem concat (reachable : m.Reachable) (h : m.Pursues t n moves e₀ e)
    (makes : ∀ p, (m.run moves).attempt? t n a = some p →
      ∃ done, (m.run moves).Makes t n a e₀.dispatcher e₀.args e₀.current p done) :
    m.Pursues t n (moves ++ [a]) e₀ e := by
  refine { h with
    awaiting := fun id k hk => ?_
    settled := fun id ending hid => ?_
    effective := h.effective.concat makes }
  · obtain ⟨c, i, awaits⟩ := h.awaiting id k hk
    exact ⟨c, i, awaits.concat reachable a⟩
  · obtain ⟨c, hc, delivered⟩ := h.settled id ending hid
    exact ⟨c, hc, delivered.concat a⟩

/-- One more delivery has ended. -/
theorem settle (h : m.Pursues t n moves e₀ e) (hc : (id, c) ∈ e₀.remaining)
    (delivered : m.Delivered t n moves e₀.dispatcher e₀.args e₀.current (id, c) ending) :
    m.Pursues t n moves e₀ (e.settle id ending) where
  dispatcher := h.dispatcher
  args := h.args
  current := h.current
  remaining := h.remaining
  awaiting := h.awaiting
  settled id' ending' hid := by
    rcases List.mem_append.1 hid with old | new
    · exact h.settled id' ending' old
    · cases List.mem_singleton.1 new
      exact ⟨c, hc, delivered⟩
  effective := h.effective

end Pursues

/-- The slot of a delivery goes on above its emission, or hands over what it has said. -/
theorem Delivering.move (reachable : m.Reachable) (serves : m.Delivering t base moves e₀ e p)
    (delivering : e.delivering = some p) (h : m.Pursues t base.length moves e₀ e) (a : Move) :
    ∃ e' th', (m.run (moves ++ [a])).threads[t]? = some th' ∧ e'.On base th'.frames ∧
      m.Pursues t base.length (moves ++ [a]) e₀ e' ∧
      ∀ p, e'.delivering = some p → m.Delivering t base (moves ++ [a]) e₀ e' p := by
  obtain ⟨mem, goesOn, th, entry, said, ht, performs, attempted, performed⟩ := serves
  have sub : moves <+: moves ++ [a] := List.prefix_append _ _
  have quiet := attempt?_of_delivering ht (performs.on delivering) delivering a
  have next : m.Pursues t base.length (moves ++ [a]) e₀ e :=
    h.concat reachable fun p attempts => nomatch quiet.symm.trans attempts
  have attempted' := attempted.mono sub
  rcases performs_move (reachable.run moves).regular ht performs a with
    ⟨th', ht', performs'⟩ | ⟨y, held, th', rfl, frames, ht', performs'⟩ |
    ⟨y, s', th', now, said, moved, resumed⟩
  · rw [← run_concat] at ht'
    refine ⟨e, th', ht', performs'.on delivering, next, fun p' same => ?_⟩
    cases delivering.symm.trans same
    have performed' := fun y hy => (performed y hy).mono sub
    exact ⟨mem, goesOn, th', entry, said, ht', performs', attempted', performed'⟩
  · rw [← run_concat] at ht'
    have ended : m.Performed t base.length (moves ++ [.finish t y]) e₀.dispatcher e₀.args e₀.current p
        entry y :=
      ⟨moves, List.prefix_rfl, attempted, th, held, e, base, ht, frames, rfl, delivering⟩
    refine ⟨e, th', ht', performs'.on delivering, next, fun p' same => ?_⟩
    cases delivering.symm.trans same
    refine ⟨mem, goesOn, th', entry, some y, ht', performs', attempted', fun y' same => ?_⟩
    exact Option.some.inj same ▸ ended
  · obtain ⟨id, c⟩ := p
    rw [Thread.resume_emitting_called rfl delivering] at resumed
    obtain ⟨-, rfl⟩ := Prod.mk.inj resumed
    let e' := e.settle id y.result.ending
    refine ⟨e', th.withFrames (Thread.afterDelivery c (.emitting e' :: base)), ?_, .afterDelivery rfl c,
      next.settle mem ?_, nofun⟩
    · rw [run_concat, moved]
      exact getElem?_set_thread ht _
    · exact .called goesOn ((performed y said).mono sub)

/-- A call for which an emission waits in the end is followed from the move on that has put it into a
queue. -/
theorem followed_of_step {context : Context} {target : Target} (reachable : m.Reachable)
    (ht : (m.run moves).threads[t]? = some th) (known : d < (m.run moves).shared.dispatchers.length)
    (moved : (m.run moves).move a = ⟨((m.run moves).shared.enqueueWaiting d context target args).2,
      (m.run moves).threads.set t th'⟩)
    (posts : (m.run moves).traffic a =
      [(d, .posted context (.work (waitingCall (m.run moves).shared target args)))])
    (executes : th'.frames.flatMap (·.executes) = th.frames.flatMap (·.executes))
    (dismisses : th'.frames.flatMap (·.dismisses) = th.frames.flatMap (·.dismisses)) :
    m.Followed (moves ++ [a]) d (m.run moves).shared.completions.length
      (waitingCall (m.run moves).shared target args) := by
  -- The call has a new completion, so nothing can have begun to run for it.
  have unbegun : ∀ entry,
      ¬ m.Began (moves ++ [a]) d (waitingCall (m.run moves).shared target args) entry := by
    refine Followed.unbegun_concat (fun entry => ?_) fun context taken => ?_
    · exact unbegun_of_unmade reachable.regular rfl (Nat.le_refl _)
    · rw [posts] at taken
      cases List.mem_singleton.1 taken
  obtain ⟨others, before, after⟩ := frames_set ht
  have bounded := (reachable.run moves).regular.bounded
  rw [before] at bounded
  have same : ((m.run moves).shared.enqueueWaiting d context target args).2.SameCalls
      (m.run (moves ++ [a])).shared := by
    rw [run_concat, moved]
    exact ⟨fun _ => rfl, rfl⟩
  refine followed_of_enqueueWaiting bounded known executes dismisses same ?_ unbegun
  rw [run_concat, moved, after]

namespace Pursues

/-- One more delivery was attempted. -/
theorem attempted (reachable : m.Reachable) (h : m.Pursues t n moves e₀ e)
    {more : List (ConnectionId × Connection)} (remaining : e.remaining = p :: more)
    (attempts : (m.run moves).attempt? t n a = some p)
    (makes : (m.run moves).Makes t n a e.dispatcher e.args e.current p done) :
    m.Pursues t n (moves ++ [a]) e₀ { e with remaining := more } ∧ p ∈ e₀.remaining ∧
      m.Attempted t n (moves ++ [a]) e₀.dispatcher e₀.args e₀.current p done := by
  rw [h.dispatcher, h.args, h.current] at makes
  have next : m.Pursues t n (moves ++ [a]) e₀ e := h.concat reachable fun p' attempts' => by
    cases attempts.symm.trans attempts'
    exact ⟨done, makes⟩
  refine ⟨?_, h.remaining p (remaining ▸ List.mem_cons_self), moves, a, List.prefix_rfl, attempts, makes⟩
  exact { next with remaining := fun p hp => next.remaining p (remaining ▸ List.mem_cons_of_mem _ hp) }

/-- A call that was waited for has ended, or the wait is over. -/
theorem told (reachable : m.Reachable) (h : m.Pursues t n (moves ++ [a]) e₀ e)
    (opened : 0 < (m.run moves).shared.handles e.dispatcher)
    {more : List (ConnectionId × CompletionId)} {heard : Option Completion}
    (awaiting : e.awaiting = (id, k) :: more)
    (awaits : m.Awaits t n moves e₀ (id, c) k i) (told : (m.run moves).shared.Heard k heard) :
    m.Pursues t n (moves ++ [a]) e₀ ({ e with awaiting := more }.settle id
      (.waited ((m.run moves).shared.timeoutError e.dispatcher) heard)) := by
  have followed := awaits.followed.resolve_left fun closed => by
    rw [h.dispatcher, closed.2] at opened
    exact Nat.lt_irrefl 0 opened
  have fate := (followed.fate reachable told).concat a
  have attempted := awaits.attempted.mono (List.prefix_append moves [a])
  have fewer : m.Pursues t n (moves ++ [a]) e₀ { e with awaiting := more } :=
    { h with awaiting := fun id' k' hk => h.awaiting id' k' (awaiting ▸ List.mem_cons_of_mem _ hk) }
  exact fewer.settle awaits.mem (.waited _ awaits.blocks attempted awaits.target awaits.args fate)

section Attempts

variable {s' : Shared} {e' : Emission} {more : List (ConnectionId × Connection)}

/-- A delivery has ended in the move that has attempted it. -/
theorem atOnce (reachable : m.Reachable) (h : m.Pursues t n moves e₀ e)
    (known : e.dispatcher < (m.run moves).shared.dispatchers.length)
    (ht : (m.run moves).threads[t]? = some th) (frames : th.frames = .emitting e :: base)
    (moved : (m.run moves).move (.advance t) = ⟨s', (m.run moves).threads.set t th'⟩)
    (attempts : (m.run moves).attempt? t n (.advance t) = some (id, c))
    (remaining : e.remaining = (id, c) :: more) (ends : e.AtOnce c (m.run moves).shared s' ending)
    (after : th'.frames = Thread.afterDelivery c (.emitting e' :: base)) :
    m.Pursues t n (moves ++ [.advance t]) e₀ ({ e with remaining := more }.settle id ending) := by
  have shared : ((m.run moves).move (.advance t)).shared = s' := congrArg Machine.shared moved
  have silent : ∀ entry, ¬ ((m.run moves).move (.advance t)).Calls t entry :=
    silent_of_afterDelivery (moved ▸ getElem?_set_thread ht th') after
  cases ends with
  | skipped gone same =>
    obtain ⟨next, mem, attempted⟩ := h.attempted reachable remaining attempts
      (.skipped gone (shared.trans same) silent)
    exact next.settle mem (.skipped attempted)
  | refused blocks here same =>
    obtain ⟨next, mem, attempted⟩ := h.attempted reachable remaining attempts
      (.refused blocks here (shared.trans same) silent)
    refine next.settle mem ?_
    rw [h.current]
    exact .refused attempted
  | @queued context goesOn way posted =>
    obtain ⟨context, there, ⟨⟩ | ⟨-, apart⟩⟩ := context_of_route (by simp) way
    have waiting := waiting_enqueue known context { target := c.target, args := e.args }
    rw [← posted, ← shared] at waiting
    obtain ⟨next, mem, attempted⟩ := h.attempted reachable remaining attempts
      (.posted there apart rfl rfl (if_neg goesOn).symm
        (traffic_of_emitting ht frames remaining way) waiting silent)
    exact next.settle mem (.queued goesOn attempted)
  | unknown way unknown =>
    exact absurd unknown ((reachable.run moves).known ht (.delivery frames remaining) _)

/-- A delivery was attempted whose call is waited for in the end. -/
theorem awaits {context : Context} (reachable : m.Reachable) (h : m.Pursues t n moves e₀ e)
    (known : e.dispatcher < (m.run moves).shared.dispatchers.length)
    (ht : (m.run moves).threads[t]? = some th) (frames : th.frames = .emitting e :: base)
    (moved : (m.run moves).move (.advance t) =
      ⟨((m.run moves).shared.enqueueWaiting e.dispatcher context c.target e.args).2,
        (m.run moves).threads.set t th'⟩)
    (attempts : (m.run moves).attempt? t n (.advance t) = some (id, c))
    (remaining : e.remaining = (id, c) :: more) (blocks : c.type = .blocking)
    (way : ((m.run moves).shared.dispatcher e.dispatcher).routeOver c e.current = .wait context c.target)
    (after : th'.frames = Thread.afterDelivery c (.emitting { e with
      remaining := more
      awaiting := e.awaiting ++ [(id, (m.run moves).shared.completions.length)] } :: base)) :
    m.Pursues t n (moves ++ [.advance t]) e₀ { e with
      remaining := more
      awaiting := e.awaiting ++ [(id, (m.run moves).shared.completions.length)] } := by
  let i := waitingCall (m.run moves).shared c.target e.args
  have silent : ∀ entry, ¬ ((m.run moves).move (.advance t)).Calls t entry :=
    silent_of_afterDelivery (moved ▸ getElem?_set_thread ht th') after
  obtain ⟨context, there, ⟨⟩ | ⟨⟩ | ⟨-, apart⟩⟩ := context_of_route (by simp) way
  have waiting := waiting_enqueue (s := (m.run moves).shared.addCompletion.2) known context i
  have shared : ((m.run moves).move (.advance t)).shared =
      (m.run moves).shared.addCompletion.2.enqueue e.dispatcher context i := congrArg Machine.shared moved
  rw [← shared] at waiting
  have posts := traffic_of_emitting ht frames remaining way
  obtain ⟨next, mem, attempted⟩ := h.attempted reachable remaining attempts
    (.posted there (fun _ => apart) rfl rfl (if_pos blocks).symm posts waiting silent)
  have followed : m.Followed (moves ++ [.advance t]) e.dispatcher (m.run moves).shared.completions.length
      i := by
    refine followed_of_step reachable ht known moved posts ?_ ?_
    · rw [frames, after, Thread.executes_afterDelivery]
      rfl
    · rw [frames, after, Thread.dismisses_afterDelivery]
      rfl
  refine { next with awaiting := fun id' k' hk => ?_ }
  rcases List.mem_append.1 hk with hk | hk
  · exact next.awaiting id' k' hk
  · cases List.mem_singleton.1 hk
    exact ⟨c, i, mem, blocks, attempted, rfl, h.args, h.dispatcher ▸ .inr followed⟩

/-- A delivery was attempted for which a slot is called. -/
theorem calls {held : List Held} (reachable : m.Reachable) (h : m.Pursues t base.length moves e₀ e)
    (ht' : ((m.run moves).move (.advance t)).threads[t]? = some th')
    (attempts : (m.run moves).attempt? t base.length (.advance t) = some (id, c))
    (remaining : e.remaining = (id, c) :: more)
    (way : ((m.run moves).shared.dispatcher e.dispatcher).routeOver c e.current = .callNow c.target)
    (code : (m.run moves).shared.callee e.dispatcher c.target e.args = .code entry held)
    (called : e' = { e with remaining := more, delivering := some (id, c) })
    (after : th'.frames = .starting entry :: .calling held :: .emitting e' :: base) :
    m.Pursues t base.length (moves ++ [.advance t]) e₀ e' ∧
      m.Delivering t base (moves ++ [.advance t]) e₀ e' (id, c) := by
  obtain ⟨context, there, leads⟩ := context_of_route (by simp) way
  cases leads with
  | callNow goesOn here =>
    have works : ((m.run moves).move (.advance t)).WorksFor t base.length (id, c) (.starting entry) :=
      ⟨th', held, e', base, ht', after, rfl, called ▸ rfl⟩
    obtain ⟨next, mem, attempted⟩ := h.attempted reachable remaining attempts
      (.called goesOn (here ▸ there) code works)
    have serves : ¬ c.type = .blocking := fun blocks => by
      rcases goesOn with type | type <;> cases type.symm.trans blocks
    refine ⟨called ▸ { next with }, mem, serves, th', entry, none, ?_, .called after, attempted, nofun⟩
    rw [run_concat]
    exact ht'

end Attempts

/-- A step of the emission while no slot is called for it. -/
theorem step {s' : Shared} {e' : Emission} {attempt : Option (ConnectionId × Connection)}
    (reachable : m.Reachable) (h : m.Pursues t base.length moves e₀ e) (rests : e.delivering = none)
    (ht : (m.run moves).threads[t]? = some th) (on : e.On base th.frames)
    (moved : (m.run moves).move a = ⟨s', (m.run moves).threads.set t th'⟩)
    (attempts : (m.run moves).attempt? t base.length a = attempt)
    (step : e.Step base ((m.run moves).shared, th.frames) (s', th'.frames) attempt e') :
    m.Pursues t base.length (moves ++ [a]) e₀ e' ∧
      ∀ p, e'.delivering = some p → m.Delivering t base (moves ++ [a]) e₀ e' p := by
  have opened := (reachable.run moves).regular.opened_of_on ht on
  have known := Shared.lt_of_handles opened
  generalize before : th.frames = old at step
  generalize after : th'.frames = new at step
  cases step with
  | rest =>
    refine ⟨h.concat reachable fun p attempted => ?_, fun p hp => ?_⟩
    · cases attempts.symm.trans attempted
    · cases rests.symm.trans hp
  | returned delivering => cases rests.symm.trans delivering
  | @told _ _ id k more heard last _ awaiting told =>
    obtain ⟨c, i, awaits⟩ := h.awaiting id k (awaiting ▸ List.mem_cons_self)
    have next := h.concat reachable fun p attempted => nomatch attempts.symm.trans attempted
    exact ⟨next.told reachable opened awaiting awaits told, nofun⟩
  | settled remaining _ ends becomes stack =>
    obtain rfl := advance_of_attempt attempts
    subst becomes
    exact ⟨h.atOnce reachable known ht before moved attempts remaining ends (after.trans stack), nofun⟩
  | awaits remaining _ blocks way becomes stack =>
    obtain rfl := advance_of_attempt attempts
    subst becomes
    have next := h.awaits reachable known ht before moved attempts remaining blocks way (after.trans stack)
    exact ⟨next, fun p hp => nomatch rests.symm.trans hp⟩
  | calls remaining _ way code becomes stack =>
    obtain rfl := advance_of_attempt attempts
    have ht' : ((m.run moves).move (.advance t)).threads[t]? = some th' :=
      moved ▸ getElem?_set_thread ht th'
    obtain ⟨next, delivering⟩ := h.calls reachable ht' attempts remaining way code becomes (after.trans stack)
    refine ⟨next, fun p hp => ?_⟩
    subst becomes
    cases hp
    exact delivering

end Pursues

/-- Each attempt of an emission at a delivery has done something, and what its report tells of a delivery
is what has become of it. -/
structure Tells (m : Machine) (t n : Nat) (moves : List Move) (e : Emission) (report : EmitReport) :
    Prop where
  effective : m.Effective t n moves e.dispatcher e.args e.current
  delivered : ∀ id ending, (id, ending) ∈ report.endings →
    ∃ c, (id, c) ∈ e.remaining ∧ m.Delivered t n moves e.dispatcher e.args e.current (id, c) ending

/-- An emission is pursued until it is over, and then its report tells what has become of its
deliveries. -/
theorem pursues_run {fs : List Frame} (reachable : m.Reachable)
    (ht : m.threads[t]? = some th) (hf : th.frames = .emitting e₀ :: .body entry :: fs)
    (idle : e₀.delivering = none) (waitsFor : e₀.awaiting = []) (nothing : e₀.report = {})
    (moves : List Move) (above : m.Above t (fs.length + 1) moves) :
    (∃ (e : Emission) (th : Thread), (m.run moves).threads[t]? = some th ∧
      e.On (.body entry :: fs) th.frames ∧ m.Tells t (fs.length + 1) moves e₀ e.report) ∨
    ∃ answer, (∃ report, answer = .emitted (.ok report) ∧
        m.Tells t (fs.length + 1) moves e₀ report) ∧
      ((m.run moves).Answering t (.body entry :: fs) answer ∨
        (m.run moves).Answered t (.body entry :: fs) answer) := by
  let base : List Frame := .body entry :: fs
  let UnderWay (moves : List Move) : Prop := ∃ (e : Emission) (th : Thread),
    (m.run moves).threads[t]? = some th ∧ e.On base th.frames ∧ m.Pursues t base.length moves e₀ e ∧
      ∀ p, e.delivering = some p → m.Delivering t base moves e₀ e p
  let Over (moves : List Move) (answer : Answer) : Prop := ∃ report, answer = .emitted (.ok report) ∧
    m.Tells t base.length moves e₀ report
  have begun : UnderWay [] := by
    refine ⟨e₀, th, ht, hf ▸ .idle idle, ⟨rfl, rfl, rfl, fun _ => id, fun id k hk => ?_,
      fun id ending hid => ?_, fun before a p part => ?_⟩, fun p hp => ?_⟩
    · rw [waitsFor] at hk
      cases hk
    · rw [nothing] at hid
      cases hid
    · exact absurd part.length_le (by simp)
    · cases idle.symm.trans hp
  have run := operation_run (P := UnderWay) (Q := Over) reachable.regular entry fs begun ?_ ?_ moves above
  · refine run.imp_left fun ⟨e, th, ht, on, pursues, _⟩ => ⟨e, th, ht, on, ?_⟩
    exact ⟨pursues.effective, pursues.settled⟩
  · rintro moves a ⟨e, th, ht, on, pursues, serves⟩
    have regular := (reachable.run moves).regular
    cases delivering : e.delivering with
    | some p => exact .inl ((serves p delivering).move reachable delivering pursues a)
    | none =>
      rcases move_of_on regular ht on a with
        ⟨same, quiet⟩ | ⟨s', th', e', moved, step, on'⟩ | ⟨quiet, -, answering⟩
      · rw [← run_concat] at same
        refine .inl ⟨e, th, same, on, pursues.concat reachable fun p attempts => ?_, fun p hp => ?_⟩
        · cases quiet.symm.trans attempts
        · cases delivering.symm.trans hp
      · obtain ⟨next, serves'⟩ := pursues.step reachable delivering ht on moved rfl step
        refine .inl ⟨e', th', ?_, on', next, serves'⟩
        rw [run_concat, moved]
        exact getElem?_set_thread ht th'
      · have next : m.Pursues t base.length (moves ++ [a]) e₀ e :=
          pursues.concat reachable fun p attempts => nomatch quiet.symm.trans attempts
        exact .inr ⟨_, ⟨e.report, rfl, next.effective, next.settled⟩, answering⟩
  · rintro moves a answer answering ⟨report, told, tells⟩
    obtain ⟨quiet, -⟩ := answering.move (reachable.run moves).regular a
    refine ⟨report, told, tells.effective.concat fun p attempts => ?_, fun id ending hid => ?_⟩
    · cases quiet.symm.trans attempts
    · obtain ⟨c, hc, delivered⟩ := tells.delivered id ending hid
      exact ⟨c, hc, delivered.concat a⟩

end Machine
end Reflection

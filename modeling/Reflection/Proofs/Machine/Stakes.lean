import Mathlib.Data.List.ReduceOption
import Reflection.Proofs.Context.Holders
import Reflection.Proofs.Machine.Order
/-!
# Who holds queues

The loops that run or that client code keeps, and the quit handles, hold the queues of dispatchers.
`Trades` says that the queues of all dispatchers and their holders change step by step, with what is
posted and taken on the way. A change that touches neither is idle (`Thread.Idle`). A thread deals when
queues and holders change in this way whoever else holds queues (`Thread.Deals`).
-/

namespace Reflection

/-! ## What concerns a dispatcher -/

/-- What is given with its dispatcher, if this is the dispatcher. -/
def ofDispatcher {β : Type} (d : DispatcherId) (p : DispatcherId × β) : Option β :=
  if p.1 = d then some p.2 else none

section
variable {β : Type} {d d' : DispatcherId}

@[simp] theorem ofDispatcher_self (b : β) : ofDispatcher d (d, b) = some b :=
  if_pos rfl

theorem ofDispatcher_of_ne (ne : d' ≠ d) (b : β) : ofDispatcher d (d', b) = none :=
  if_neg ne

theorem ofDispatcher_eq_some_iff {p : DispatcherId × β} {b : β} :
    ofDispatcher d p = some b ↔ p = (d, b) := by
  obtain ⟨d', b'⟩ := p
  by_cases e : d' = d
  · subst e
    simp
  · simp [ofDispatcher_of_ne e, e]

theorem mem_filterMap_ofDispatcher {l : List (DispatcherId × β)} {b : β} :
    b ∈ l.filterMap (ofDispatcher d) ↔ (d, b) ∈ l := by
  simp [List.mem_filterMap, ofDispatcher_eq_some_iff]

@[simp] theorem filterMap_ofDispatcher_map (bs : List β) :
    (bs.map ((d, ·))).filterMap (ofDispatcher d) = bs := by
  induction bs with
  | nil => rfl
  | cons b bs ih => rw [List.map_cons, List.filterMap_cons_some (ofDispatcher_self b), ih]

theorem filterMap_ofDispatcher_map_of_ne (ne : d' ≠ d) (bs : List β) :
    (bs.map ((d', ·))).filterMap (ofDispatcher d) = [] :=
  List.filterMap_eq_nil_iff.2 fun p hp => by
    obtain ⟨b, -, rfl⟩ := List.mem_map.1 hp
    exact ofDispatcher_of_ne ne b

end

/-! ## Stakes -/

/-- A holder of a queue, and the dispatcher that the queue is of. -/
abbrev Stake := DispatcherId × Holder

/-- The queue that a frame holds. -/
def Frame.stakes : Frame → List Stake
  | .serving v => [(v.dispatcher, v.loop.context, v.loop.queue)]
  | _ => []

def OwnLoop.stake (o : OwnLoop) : Stake :=
  (o.dispatcher, o.loop.context, o.loop.queue)

def QuitHandle.stake (h : QuitHandle) : Stake :=
  (h.dispatcher, h.context, h.queue)

/-- The loops that run on a thread. -/
def Thread.running (th : Thread) : List Stake :=
  th.frames.flatMap (·.stakes)

/-- The loops of a thread that client code keeps. -/
def Thread.kept (th : Thread) : List Stake :=
  th.loops.reduceOption.map (·.stake)

/-- The quit handles that client code has. -/
def Shared.quitters (s : Shared) : List Stake :=
  s.quitHandles.reduceOption.map (·.stake)

/-- The queues that a thread and quit handles hold. -/
def Thread.stakes (s : Shared) (th : Thread) : Multiset Stake :=
  th.running + th.kept + s.quitters

/-- The number of client code's handles of a dispatcher that its loops have. -/
def Shared.lent (s : Shared) (d : DispatcherId) : Nat :=
  (s.dispatchers[d]?.map (·.loops)).getD 0

/-! ## Trades -/

/-- The queues of a dispatcher and those who hold them. -/
def world (s : Shared) (H : Multiset Stake) (d : DispatcherId) : Queues.World Invocation :=
  ((s.dispatcher d).queues, H.filterMap (ofDispatcher d))

/-- Something that is posted or taken, and the dispatcher that the queue is of. -/
abbrev Event := DispatcherId × QueueEvent Invocation

/-- Queues and their holders change step by step, and items are posted and taken on the way. -/
def Trades (s : Shared) (H : Multiset Stake) (es : List Event) (s' : Shared) (H' : Multiset Stake) :
    Prop :=
  ∀ d, Queues.Run (world s H d) (es.filterMap (ofDispatcher d)) (world s' H' d)

variable {s s' s'' : Shared} {H H' H'' : Multiset Stake} {es es' : List Event} {d : DispatcherId}
  {c : Context} {q : QueueId}

theorem Trades.of_queues (same : ∀ d, (s'.dispatcher d).queues = (s.dispatcher d).queues) :
    Trades s H [] s' H := by
  intro d
  rw [world, world, same]
  exact .refl _

theorem Trades.trans (h : Trades s H es s' H') (h' : Trades s' H' es' s'' H'') :
    Trades s H (es ++ es') s'' H'' := by
  intro d
  rw [List.filterMap_append]
  exact (h d).trans (h' d)

/-- One step of the queues of one dispatcher. -/
theorem Trades.set {es : List (QueueEvent Invocation)} {queues : Queues Invocation}
    (known : d < s.dispatchers.length)
    (step : Queues.Step (world s H d) es (queues, H'.filterMap (ofDispatcher d)))
    (others : ∀ d' ≠ d, H'.filterMap (ofDispatcher d') = H.filterMap (ofDispatcher d')) :
    Trades s H (es.map ((d, ·))) (s.setDispatcher d { s.dispatcher d with queues }) H' := by
  intro d'
  by_cases e : d' = d
  · subst e
    rw [filterMap_ofDispatcher_map, world, world, Shared.dispatcher_setDispatcher_of_lt known]
    exact .single step
  · rw [filterMap_ofDispatcher_map_of_ne (Ne.symm e), world, world,
      Shared.dispatcher_setDispatcher_of_ne e, others d' e]
    exact .refl _

/-- A holder comes or goes. -/
theorem Trades.handOver {queues : Queues Invocation} (known : d < s.dispatchers.length)
    (step : Queues.Step (world s H d) [] (queues, H'.filterMap (ofDispatcher d)))
    (others : ∀ d' ≠ d, H'.filterMap (ofDispatcher d') = H.filterMap (ofDispatcher d')) :
    Trades s H [] (s.setDispatcher d { s.dispatcher d with queues }) H' :=
  .set known step others

theorem filterMap_stake_cons (d : DispatcherId) (h : Holder) (H : Multiset Stake) :
    ((d, h) ::ₘ H).filterMap (ofDispatcher d) = h ::ₘ H.filterMap (ofDispatcher d) :=
  Multiset.filterMap_cons_some _ _ _ (ofDispatcher_self h)

theorem filterMap_stake_cons_of_ne {d' : DispatcherId} (ne : d' ≠ d) (h : Holder)
    (H : Multiset Stake) : ((d, h) ::ₘ H).filterMap (ofDispatcher d') = H.filterMap (ofDispatcher d') :=
  Multiset.filterMap_cons_none _ _ (ofDispatcher_of_ne (Ne.symm ne) h)

theorem mem_holders (held : (d, c, q) ∈ H) : (c, q) ∈ H.filterMap (ofDispatcher d) :=
  (Multiset.mem_filterMap _ _).2 ⟨_, held, ofDispatcher_self _⟩

theorem Trades.post (known : d < s.dispatchers.length) (c : Context) (item : QueueItem Invocation) :
    Trades s H [(d, .posted c item)]
      (s.setDispatcher d { s.dispatcher d with queues := (s.dispatcher d).queues.post c item }) H :=
  .set known (.post _ _ c item) fun _ _ => rfl

theorem Trades.push (known : d < s.dispatchers.length) (held : (d, c, q) ∈ H)
    (item : QueueItem Invocation) :
    Trades s H [(d, .posted c item)] (s.modifyQueues d (·.push q item)) H :=
  .set known (.push (mem_holders held) item) fun _ _ => rfl

theorem Trades.take {item : QueueItem Invocation} {queues : Queues Invocation}
    (known : d < s.dispatchers.length) (held : (d, c, q) ∈ H)
    (pop : (s.dispatcher d).queues.pop? q = some (item, queues)) :
    Trades s H [(d, .taken c item)] (s.setDispatcher d { s.dispatcher d with queues }) H :=
  .set known (.take (mem_holders held) pop) fun _ _ => rfl

theorem Trades.start (known : d < s.dispatchers.length) (current context : Context) :
    let started := Loop.start (s.dispatcher d).queues current context
    Trades s H [] (s.setDispatcher d { s.dispatcher d with queues := started.2.2 })
      ((d, context, started.1.queue) ::ₘ H) := by
  refine .handOver known ?_ fun d' ne => filterMap_stake_cons_of_ne ne _ _
  rw [filterMap_stake_cons]
  exact .start _ _ context

theorem Trades.hold (known : d < s.dispatchers.length) (held : (d, c, q) ∈ H) :
    Trades s H [] (s.modifyQueues d (·.hold q)) ((d, c, q) ::ₘ H) := by
  refine .handOver known ?_ fun d' ne => filterMap_stake_cons_of_ne ne _ _
  rw [filterMap_stake_cons]
  exact .hold (mem_holders held)

theorem Trades.letGo (known : d < s.dispatchers.length) (c : Context) (q : QueueId)
    (H : Multiset Stake) :
    Trades s ((d, c, q) ::ₘ H) [] (s.modifyQueues d (·.letGo q)) H := by
  refine .handOver known ?_ fun d' ne => (filterMap_stake_cons_of_ne ne _ _).symm
  rw [world, filterMap_stake_cons]
  exact .letGo _ _ c q

theorem Trades.stop (known : d < s.dispatchers.length) (loop : Loop) (current : Context)
    (H : Multiset Stake) :
    Trades s ((d, loop.context, loop.queue) ::ₘ H) []
      (s.setDispatcher d
        { s.dispatcher d with queues := (loop.stop (s.dispatcher d).queues current).2 }) H := by
  refine .handOver known ?_ fun d' ne => (filterMap_stake_cons_of_ne ne _ _).symm
  rw [world, filterMap_stake_cons]
  exact .stop _ _ loop.context loop.queue

/-! ## Changes that leave queues alone -/

namespace Shared

/-- Changes neither queues nor quit handles nor how many handles client code and its loops have. -/
structure Still (s s' : Shared) : Prop where
  queues : ∀ d, (s'.dispatcher d).queues = (s.dispatcher d).queues
  owned : ∀ d, s'.owned d = s.owned d
  lent : ∀ d, s'.lent d = s.lent d
  quitHandles : s'.quitHandles = s.quitHandles
  size : s'.dispatchers.length = s.dispatchers.length

theorem Still.refl (s : Shared) : s.Still s :=
  ⟨fun _ => rfl, fun _ => rfl, fun _ => rfl, rfl, rfl⟩

theorem Still.trans (h : s.Still s') (h' : s'.Still s'') : s.Still s'' :=
  ⟨fun d => (h'.queues d).trans (h.queues d), fun d => (h'.owned d).trans (h.owned d),
    fun d => (h'.lent d).trans (h.lent d), h'.quitHandles.trans h.quitHandles,
    h'.size.trans h.size⟩

theorem Still.of_dispatchers (same : s'.dispatchers = s.dispatchers)
    (quitHandles : s'.quitHandles = s.quitHandles) : s.Still s' := by
  refine ⟨fun d => ?_, fun d => ?_, fun d => ?_, quitHandles, congrArg List.length same⟩
  · rw [dispatcher, dispatcher, same]
  · rw [Shared.owned, Shared.owned, same]
  · rw [Shared.lent, Shared.lent, same]

@[simp] theorem lent_setDispatcher (x : Dispatcher) (d' : DispatcherId) :
    (s.setDispatcher d x).lent d' = s.lent d' :=
  congrArg (Option.getD · 0) (map_modify_of_eq fun _ => rfl)

theorem still_setDispatcher {x : Dispatcher} (same : x.queues = (s.dispatcher d).queues) :
    s.Still (s.setDispatcher d x) := by
  refine ⟨fun d' => ?_, fun _ => owned_setDispatcher x, lent_setDispatcher x, rfl, size_setDispatcher x⟩
  exact setDispatcher_rel (R := fun y z => z.queues = y.queues) (fun _ => rfl) same d'

theorem still_retain (h : Held) : s.Still (s.retain h) := by
  cases h with
  | dispatcher d =>
    refine ⟨fun d' => by rw [dispatcher_retain], fun _ => owned_retain _, fun d' => ?_, rfl,
      size_retain _⟩
    exact congrArg (Option.getD · 0) (map_modify_of_eq fun _ => rfl)
  | object i => exact .of_dispatchers rfl rfl
  | callback c => exact .of_dispatchers rfl rfl
  | completion k => exact .refl s

theorem still_retainAll (held : List Held) : s.Still (s.retainAll held) := by
  induction held generalizing s with
  | nil => exact .refl s
  | cons h held ih => exact (still_retain h).trans ih

theorem still_letGo (h : Held) : s.Still (s.letGo h).2 := by
  cases h with
  | dispatcher d =>
    refine ⟨fun d' => by rw [dispatcher_letGo], fun _ => owned_letGo _, fun d' => ?_, rfl,
      size_letGo _⟩
    exact congrArg (Option.getD · 0) (map_modify_of_eq fun _ => rfl)
  | object i => exact .of_dispatchers rfl rfl
  | callback c => exact .of_dispatchers rfl rfl
  | completion k => exact .of_dispatchers rfl rfl

/-- Client code has the handles of its loops and maybe more. -/
structure Lent (s : Shared) (d : DispatcherId) (loops : Nat) : Prop where
  lent : s.lent d = loops
  owned : loops ≤ s.owned d

theorem Lent.still {n : Nat} (h : s.Lent d n) (still : s.Still s') : s'.Lent d n :=
  ⟨(still.lent d).trans h.lent, h.owned.trans_eq (still.owned d).symm⟩

end Shared

/-! ## Threads -/

namespace Thread

variable {th th' : Thread} {p : Shared × Thread}

/-- The number of loops of a dispatcher that client code keeps on a thread. -/
def keeps (th : Thread) (d : DispatcherId) : Nat :=
  (th.kept.filterMap (ofDispatcher d)).length

/-- Neither queues nor those who hold them change. -/
structure Idle (s : Shared) (th : Thread) (p : Shared × Thread) : Prop where
  still : s.Still p.1
  loops : p.2.loops = th.loops
  running : p.2.running = th.running

/-- Queues and those who hold them change step by step, whoever else holds queues, and client code has
the handles of its loops as before, however many loops other threads have. -/
structure Deals (s : Shared) (th : Thread) (es : List Event) (p : Shared × Thread) : Prop where
  trades : ∀ others, Trades s (stakes s th + others) es p.1 (stakes p.1 p.2 + others)
  lends : ∀ d n, s.Lent d (th.keeps d + n) → p.1.Lent d (p.2.keeps d + n)

theorem Idle.deals (h : Idle s th p) : Deals s th [] p := by
  have kept : p.2.kept = th.kept := by rw [Thread.kept, Thread.kept, h.loops]
  have stakes : stakes p.1 p.2 = stakes s th := by
    rw [Thread.stakes, Thread.stakes, h.running, kept, Shared.quitters, Shared.quitters,
      h.still.quitHandles]
  refine ⟨fun others => ?_, fun d n lent => ?_⟩
  · rw [stakes]
    exact .of_queues h.still.queues
  · rw [keeps, kept]
    exact lent.still h.still

theorem Deals.trans (h : Deals s th es (s', th')) (h' : Deals s' th' es' p) :
    Deals s th (es ++ es') p :=
  ⟨fun others => (h.trades others).trans (h'.trades others),
    fun d n lent => h'.lends d n (h.lends d n lent)⟩

theorem Deals.idle (h : Deals s th es (s', th')) (idle : Idle s' th' p) : Deals s th es p := by
  have both := h.trans idle.deals
  rwa [List.append_nil] at both

theorem Idle.then (idle : Idle s th (s', th')) (h : Deals s' th' es p) : Deals s th es p :=
  idle.deals.trans h

theorem Idle.refl (s : Shared) (th : Thread) : Idle s th (s, th) :=
  ⟨.refl s, rfl, rfl⟩

theorem Idle.trans (h : Idle s th (s', th')) (h' : Idle s' th' p) : Idle s th p :=
  ⟨h.still.trans h'.still, h'.loops.trans h.loops, h'.running.trans h.running⟩

theorem Idle.of_still (h : s.Still s') (th : Thread) : Idle s th (s', th) :=
  ⟨h, rfl, rfl⟩

end Thread
end Reflection

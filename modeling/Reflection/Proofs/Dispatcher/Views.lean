import Reflection.Dispatcher.Emission
import Reflection.Dispatcher.Link
import Reflection.Proofs.Context.Waiting
/-!
# What dispatchers are told by

Statements about connections look at a dispatcher through the links of its objects, its connections
and the calls for which a caller waits. Changes of anything else are quiet (`Dispatcher.Quiet`).
-/

namespace Reflection

/-- The part of a registration that connections are about. -/
structure Links where
  state : ObjectState
  outgoing : List (Nat × ConnectionId)
  incoming : List ConnectionId
deriving DecidableEq

/-- The links of a registered object. -/
def Registration.links (r : Registration) : Links :=
  ⟨r.state, r.outgoing, r.incoming⟩

namespace Dispatcher

/-- The links of a registered object. -/
def links? (x : Dispatcher) (o : ObjectId) : Option Links :=
  (x.object? o).map (·.links)

/-- The connection of an id. -/
def connection? (x : Dispatcher) (id : ConnectionId) : Option Connection :=
  x.connections.get? id

/-- A call of a target waits in some queue, and a caller waits for it with a completion. It does not
matter whether the queue still belongs to a context. -/
def Awaits (x : Dispatcher) (k : CompletionId) (target : Target) : Prop :=
  ∃ q i, .work i ∈ (x.queues.queue q).items ∧ i.completion = some k ∧ i.target = target

/-- The calls that wait in queues and for which a caller waits. -/
def awaited (x : Dispatcher) : Multiset Invocation :=
  x.queues.works.filter (·.completion.isSome)

theorem awaits_iff {x : Dispatcher} {k : CompletionId} {target : Target} :
    x.Awaits k target ↔ ∃ i ∈ x.awaited, i.completion = some k ∧ i.target = target := by
  constructor
  · rintro ⟨q, i, hi, hk, ht⟩
    exact ⟨i, Multiset.mem_filter.2 ⟨Queues.mem_works.2 ⟨q, hi⟩, hk ▸ rfl⟩, hk, ht⟩
  · rintro ⟨i, hi, hk, ht⟩
    obtain ⟨q, hq⟩ := Queues.mem_works.1 (Multiset.mem_filter.1 hi).1
    exact ⟨q, i, hq, hk, ht⟩

theorem Awaits.mono {x y : Dispatcher} {k : CompletionId} {target : Target} (h : y.Awaits k target)
    (le : y.awaited ≤ x.awaited) : x.Awaits k target := by
  obtain ⟨i, hi, hk⟩ := awaits_iff.1 h
  exact awaits_iff.2 ⟨i, Multiset.mem_of_le le hi, hk⟩

/-- Dispatchers with the same links and connections. -/
structure Alike (x y : Dispatcher) : Prop where
  links : y.links? = x.links?
  connections : y.connections = x.connections

theorem Alike.refl (x : Dispatcher) : x.Alike x :=
  ⟨rfl, rfl⟩

theorem Alike.trans {x y z : Dispatcher} (h : x.Alike y) (h' : y.Alike z) : x.Alike z :=
  ⟨h'.links.trans h.links, h'.connections.trans h.connections⟩

/-- Dispatchers that are alike, where the calls in the second for which a caller waits are some of
those in the first. -/
structure Quiet (x y : Dispatcher) : Prop extends Alike x y where
  awaited : y.awaited ≤ x.awaited

theorem Quiet.refl (x : Dispatcher) : x.Quiet x :=
  ⟨.refl x, le_rfl⟩

theorem Quiet.trans {x y z : Dispatcher} (h : x.Quiet y) (h' : y.Quiet z) : x.Quiet z :=
  ⟨h.toAlike.trans h'.toAlike, h'.awaited.trans h.awaited⟩

/-- Changing an object but not its links is not seen. -/
theorem quiet_modifyObject (x : Dispatcher) (o : ObjectId) {f : Registration → Registration}
    (hf : ∀ r, (f r).links = r.links) : x.Quiet (x.modifyObject o f) := by
  refine ⟨⟨?_, rfl⟩, le_rfl⟩
  funext o'
  show ((x.objects.modify o f).get? o').map _ = (x.objects.get? o').map _
  rw [Arena.get?_modify]
  split
  · rename_i e
    rw [e, Option.map_map]
    exact congrArg (Option.map · _) (funext hf)
  · rfl

/-- Changing the queues is not seen as long as nothing new waits. -/
theorem quiet_queues (x : Dispatcher) {queues : Queues Invocation} (h : queues.works ≤ x.queues.works) :
    x.Quiet { x with queues } :=
  ⟨⟨rfl, rfl⟩, Multiset.filter_le_filter _ h⟩

/-- What is awaited after a call was put into a queue. -/
theorem awaits_enqueue {x : Dispatcher} {c : Context} {i : Invocation} {k : CompletionId}
    {target : Target} (h : (x.enqueue c i).Awaits k target) :
    (i.completion = some k ∧ i.target = target) ∨ x.Awaits k target := by
  obtain ⟨q, j, hq, hj⟩ := h
  rcases Queues.mem_queue_post hq with e | old
  · cases e
    exact .inl hj
  · exact .inr ⟨q, j, old, hj⟩

theorem awaited_enqueue (x : Dispatcher) (c : Context) (i : Invocation) :
    (x.enqueue c i).awaited = (if i.completion.isSome then {i} else 0) + x.awaited := by
  show (Queues.works (x.queues.post c (.work i))).filter _ = _
  rw [Queues.works_post, Multiset.filter_cons]
  rfl

/-- A dispatcher with the same queues awaits the same calls. -/
theorem awaited_of_queues {x y : Dispatcher} (queues : y.queues = x.queues) :
    y.awaited = x.awaited := by
  rw [awaited, awaited, queues]

/-- A new dispatcher has no calls that wait. -/
theorem not_awaits_new {timeout : Option Nat} {k : CompletionId} {target : Target} :
    ¬ ({ timeout } : Dispatcher).Awaits k target := by
  rintro ⟨q, i, hi, -⟩
  cases hi

theorem queues_disconnect (x : Dispatcher) (id : ConnectionId) :
    (x.disconnect id).2.queues = x.queues := by
  unfold disconnect
  split
  · rfl
  · dsimp only
    split
    · rfl
    · split <;> rfl

theorem queues_sever (x : Dispatcher) (gone : ObjectId) (id : ConnectionId) :
    (x.sever gone id).2.queues = x.queues := by
  unfold sever
  split
  · rfl
  · dsimp only
    split
    · split <;> rfl
    · split <;> split <;> rfl

theorem queues_beginDestroy {x y : Dispatcher} {order : List Nat} {o : ObjectId}
    {ids : List ConnectionId} (h : x.beginDestroy? order o = some (ids, y)) : y.queues = x.queues := by
  unfold beginDestroy? at h
  split at h
  · cases h
  · cases h
    rfl

theorem queues_link (x : Dispatcher) (c : Connection) : (x.link c).2.queues = x.queues := by
  unfold link
  dsimp only
  split <;> rfl

end Dispatcher
end Reflection

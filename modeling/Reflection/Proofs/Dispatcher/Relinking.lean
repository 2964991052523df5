import Reflection.Proofs.Arena
import Reflection.Proofs.Dispatcher.Links
/-!
# Dispatchers that differ in their connections

Deliveries and queued calls ask a dispatcher for the receiver, never for the connection that led to it.
So they cannot tell dispatchers that have the same objects and queues and differ in their connections
(`Dispatcher.Relinked`), as they do after one was made or cut.
-/

namespace Reflection

/-- A registration without its connections. -/
def Registration.bare (r : Registration) : Registration :=
  { r with outgoing := [], incoming := [] }

namespace Dispatcher

/-- Dispatchers that differ at most in their connections. -/
structure Relinked (x y : Dispatcher) : Prop where
  objects : ∀ o, (y.object? o).map (·.bare) = (x.object? o).map (·.bare)
  queues : y.queues = x.queues
  timeout : y.timeout = x.timeout

variable {x y z : Dispatcher} {o : ObjectId} {id : ConnectionId}

namespace Relinked

theorem refl (x : Dispatcher) : x.Relinked x :=
  ⟨fun _ => rfl, rfl, rfl⟩

theorem trans (h : x.Relinked y) (h' : y.Relinked z) : x.Relinked z :=
  ⟨fun o => (h'.objects o).trans (h.objects o), h'.queues.trans h.queues,
    h'.timeout.trans h.timeout⟩

/-- The queues may change in the same way. -/
theorem withQueues (h : x.Relinked y) (queues : Queues Invocation) :
    Relinked { x with queues } { y with queues } :=
  ⟨h.objects, rfl, h.timeout⟩

theorem enqueue (h : x.Relinked y) (context : Context) (i : Invocation) :
    (x.enqueue context i).Relinked (y.enqueue context i) := by
  rw [Dispatcher.enqueue, Dispatcher.enqueue, h.queues]
  exact h.withQueues _

/-! ## What deliveries ask for -/

/-- The same objects are active. -/
theorem active? (h : x.Relinked y) (o : ObjectId) :
    x.active? o = none ∧ y.active? o = none ∨
      ∃ r r', x.active? o = some r ∧ y.active? o = some r' ∧ r'.bare = r.bare := by
  have same := h.objects o
  rw [Dispatcher.active?, Dispatcher.active?]
  cases hx : x.object? o with
  | none =>
    rw [hx] at same
    rw [Option.map_eq_none_iff.1 same]
    exact .inl ⟨rfl, rfl⟩
  | some r =>
    rw [hx] at same
    obtain ⟨r', hy, bare⟩ := Option.map_eq_some_iff.1 same
    have state : r'.isActive = r.isActive := congrArg (·.isActive) bare
    rw [hy]
    cases active : r.isActive with
    | false =>
      rw [active] at state
      exact .inl ⟨by simp [active], by simp [state]⟩
    | true =>
      rw [active] at state
      exact .inr ⟨r, r', by simp [active], by simp [state], bare⟩

/-- A delivery takes the same way. -/
theorem routeOver (h : x.Relinked y) (c : Connection) (current : Context) :
    y.routeOver c current = x.routeOver c current := by
  unfold Dispatcher.routeOver
  split
  · rfl
  · rename_i receiver index ht
    rcases h.active? receiver with ⟨hx, hy⟩ | ⟨r, r', hx, hy, bare⟩
    · rw [hx, hy]
    · have context : r'.context = r.context := congrArg (·.context) bare
      rw [hx, hy]
      dsimp only
      rw [context]

end Relinked

/-! ## Making and cutting connections -/

theorem relinked_modifyObject {f : Registration → Registration} (hf : ∀ r, (f r).bare = r.bare) :
    x.Relinked (x.modifyObject o f) := by
  refine ⟨fun o' => ?_, rfl, rfl⟩
  show ((x.objects.modify o f).get? o').map _ = (x.objects.get? o').map _
  rw [Arena.get?_modify]
  split
  · rename_i e
    rw [e, Option.map_map]
    exact congrArg (Option.map · _) (funext hf)
  · rfl

theorem relinked_unlink : x.Relinked (x.unlink o id) :=
  relinked_modifyObject fun _ => rfl

theorem relinked_disconnect (x : Dispatcher) (id : ConnectionId) :
    x.Relinked (x.disconnect id).2 := by
  have without : x.Relinked { x with connections := x.connections.erase id } :=
    ⟨fun _ => rfl, rfl, rfl⟩
  unfold disconnect
  split
  · exact .refl x
  · dsimp only
    split
    · exact without.trans relinked_unlink
    · split
      · exact without.trans relinked_unlink
      · exact (without.trans relinked_unlink).trans relinked_unlink

theorem relinked_sever (x : Dispatcher) (gone : ObjectId) (id : ConnectionId) :
    x.Relinked (x.sever gone id).2 := by
  have without : ∀ c : Connection,
      let left := { x with connections := x.connections.erase id }
      x.Relinked (if c.sender = gone then left else left.unlink c.sender id) := by
    intro c left
    have erased : x.Relinked left := ⟨fun _ => rfl, rfl, rfl⟩
    split
    · exact erased
    · exact erased.trans relinked_unlink
  unfold sever
  split
  · exact .refl x
  · dsimp only
    split
    · exact without _
    · split
      · exact without _
      · exact (without _).trans relinked_unlink

theorem relinked_link (x : Dispatcher) (c : Connection) : x.Relinked (x.link c).2 := by
  have more : x.Relinked { x with connections := (x.connections.insert c).2 } :=
    ⟨fun _ => rfl, rfl, rfl⟩
  unfold link
  dsimp only
  split
  · refine more.trans (relinked_modifyObject ?_)
    exact fun _ => rfl
  · refine (more.trans (relinked_modifyObject ?_)).trans (relinked_modifyObject ?_)
    · exact fun _ => rfl
    · exact fun _ => rfl

/-- A connection is made or cut. -/
inductive Rewires (x : Dispatcher) : Dispatcher → Prop
  | link (c : Connection) : Rewires x (x.link c).2
  | disconnect (id : ConnectionId) : Rewires x (x.disconnect id).2
  /-- The object `gone` is being destroyed. -/
  | sever (gone : ObjectId) (id : ConnectionId) : Rewires x (x.sever gone id).2

theorem Rewires.relinked (h : x.Rewires y) : x.Relinked y := by
  cases h with
  | link c => exact x.relinked_link c
  | disconnect id => exact x.relinked_disconnect id
  | sever gone id => exact x.relinked_sever gone id

end Dispatcher
end Reflection

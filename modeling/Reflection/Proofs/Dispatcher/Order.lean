import Reflection.Proofs.Arena
import Reflection.Proofs.Dispatcher.Links
/-!
# Lists stay in order and ids are not used again

Making a connection is the only operation that puts something into a sender's list, and it puts it at
the end; every other operation leaves less of each list, in the old order (`Shortens`). A connection
that was cut does not come back: no operation forgets which ids were given out (`Retires`).
-/

namespace Reflection
namespace Dispatcher

variable {x y z : Dispatcher} {o : ObjectId} {id : ConnectionId}

/-! ## Lists -/

/-- What a sender's list has in `y` it had in `x`, in the same order. -/
def Shortens (x y : Dispatcher) : Prop :=
  ∀ o l, y.links? o = some l →
    l.outgoing = [] ∨ ∃ old, x.links? o = some old ∧ l.outgoing.Sublist old.outgoing

namespace Shortens

theorem of_links (h : y.links? = x.links?) : x.Shortens y := by
  intro o l hl
  rw [h] at hl
  exact .inr ⟨l, hl, .refl _⟩

theorem refl (x : Dispatcher) : x.Shortens x :=
  .of_links rfl

theorem trans (h : x.Shortens y) (h' : y.Shortens z) : x.Shortens z := by
  intro o l hl
  rcases h' o l hl with e | ⟨mid, hm, sub'⟩
  · exact .inl e
  · rcases h o mid hm with e | ⟨old, ho, sub⟩
    · rw [e] at sub'
      exact .inl (List.sublist_nil.1 sub')
    · exact .inr ⟨old, ho, sub'.trans sub⟩

theorem of_empty (h : ∀ o, y.links? o = none) : x.Shortens y := by
  intro o l hl
  rw [h] at hl
  cases hl

end Shortens

theorem shortens_modifyObject {f : Registration → Registration} {g : Links → Links}
    (hf : ∀ r, (f r).links = g r.links) (shorter : ∀ l, (g l).outgoing.Sublist l.outgoing) :
    x.Shortens (x.modifyObject o f) := by
  intro o' l hl
  rw [links?_modifyObject hf] at hl
  obtain ⟨old, ho, rfl⟩ := Option.map_eq_some_iff.1 hl
  refine .inr ⟨old, ho, ?_⟩
  split
  · exact shorter old
  · exact .refl _

theorem shortens_unlink : x.Shortens (x.unlink o id) :=
  shortens_modifyObject (g := (·.cut id)) (fun r => r.links_unlink id) fun _ => List.filter_sublist

theorem shortens_disconnect (x : Dispatcher) (id : ConnectionId) :
    x.Shortens (x.disconnect id).2 := by
  unfold disconnect
  split
  · exact .refl x
  · dsimp only
    split
    · exact shortens_unlink
    · split
      · exact shortens_unlink
      · exact .trans shortens_unlink shortens_unlink

theorem shortens_sever (x : Dispatcher) (gone : ObjectId) (id : ConnectionId) :
    x.Shortens (x.sever gone id).2 := by
  have without : ∀ c : Connection,
      let left := { x with connections := x.connections.erase id }
      x.Shortens (if c.sender = gone then left else left.unlink c.sender id) := by
    intro c left
    split
    · exact .refl x
    · exact shortens_unlink
  unfold sever
  split
  · exact .refl x
  · dsimp only
    split
    · exact without _
    · split
      · exact without _
      · exact .trans (without _) shortens_unlink

theorem shortens_beginDestroy {order : List Nat} {ids : List ConnectionId}
    (h : x.beginDestroy? order o = some (ids, y)) : x.Shortens y := by
  obtain ⟨-, -, -, -, -, links⟩ := beginDestroy?_eq_some h
  intro o' l hl
  rw [links] at hl
  obtain ⟨old, ho, rfl⟩ := Option.map_eq_some_iff.1 hl
  split
  · exact .inl rfl
  · exact .inr ⟨old, ho, .refl _⟩

theorem shortens_endDestroy : x.Shortens (x.endDestroy o) := by
  intro o' l hl
  rw [links?_endDestroy] at hl
  split at hl
  · cases hl
  · exact .inr ⟨l, hl, .refl _⟩

theorem shortens_register (x : Dispatcher) (owner : InstanceId) (metaClass : MetaClass)
    (context : Context) : x.Shortens (x.register owner metaClass context).2 := by
  intro o l hl
  rw [(links?_register x owner metaClass context).2] at hl
  split at hl
  · cases hl
    exact .inl rfl
  · exact .inr ⟨l, hl, .refl _⟩

/-! ## Ids -/

/-- The connections of `y` are connections of `x`, and no id that was given out is forgotten. -/
structure Retires (x y : Dispatcher) : Prop where
  connection : ∀ id, x.connection? id = none → y.connection? id = none
  issued : ∀ id, x.connections.Issued id → y.connections.Issued id

theorem Retires.of_eq (h : y.connections = x.connections) : x.Retires y := by
  refine ⟨fun id none => ?_, fun id issued => ?_⟩
  · rw [connection?, h]
    exact none
  · rwa [h]

theorem Retires.of_erase (h : y.connections = x.connections.erase id) : x.Retires y := by
  refine ⟨fun id' none => ?_, fun id' issued => ?_⟩
  · rw [connection?, h, Arena.get?_erase]
    split
    · rfl
    · exact none
  · rw [h]
    exact issued.erase id

theorem connections_disconnect (x : Dispatcher) (id : ConnectionId) :
    (x.disconnect id).2.connections = x.connections.erase id := by
  unfold disconnect
  split
  · rename_i none
    exact (Arena.erase_of_none none).symm
  · dsimp only
    split
    · rfl
    · split <;> rfl

theorem connections_sever (x : Dispatcher) (gone : ObjectId) (id : ConnectionId) :
    (x.sever gone id).2.connections = x.connections.erase id := by
  unfold sever
  split
  · rename_i none
    exact (Arena.erase_of_none none).symm
  · dsimp only
    split
    · split <;> rfl
    · split <;> split <;> rfl

/-- A connection was there and is not there any more. -/
def Lost (x : Dispatcher) (id : ConnectionId) : Prop :=
  x.connection? id = none ∧ x.connections.Issued id

theorem Lost.retires (h : x.Lost id) (retires : x.Retires y) : y.Lost id :=
  ⟨retires.connection id h.1, retires.issued id h.2⟩

/-- A new connection has an id that was not given out before. -/
theorem Lost.link (h : x.Lost id) (c : Connection) : (x.link c).2.Lost id := by
  have ne : id ≠ (x.link c).1 := by
    rintro rfl
    rw [fst_link] at h
    exact Arena.not_issued_insert _ _ h.2
  refine ⟨?_, ?_⟩
  · rw [(connection?_link x c).2, if_neg ne]
    exact h.1
  · rw [connections_link]
    exact h.2.insert c

theorem lost_of_erase (h : x.connections.Issued id) (erased : y.connections = x.connections.erase id) :
    y.Lost id := by
  rw [Lost, connection?, erased, Arena.get?_erase, if_pos rfl]
  exact ⟨rfl, h.erase id⟩

theorem lost_disconnect {c : Connection} (h : (x.disconnect id).1 = some c) :
    (x.disconnect id).2.Lost id := by
  have live : x.connections.get? id = some c := by
    unfold disconnect at h
    split at h
    · cases h
    · rename_i c' found
      rw [found, ← h]
      dsimp only
      split <;> rfl
  exact lost_of_erase (Arena.issued_of_get? live) (connections_disconnect x id)

end Dispatcher
end Reflection

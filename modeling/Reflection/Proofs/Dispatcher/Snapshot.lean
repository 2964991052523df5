import Reflection.Proofs.Checks
import Reflection.Proofs.Dispatcher.Counts
/-!
# Snapshots

An emission that passes its checks goes to the connections of its signal that there are when it begins
(`Linked.mem_snapshot_iff`). Other objects may just be destroyed then: a connection that is still to be
cut counts.
-/

namespace Reflection
namespace Dispatcher

variable {x : Dispatcher} {severing : Multiset (ObjectId × List ConnectionId)} {o : ObjectId}
  {r : Registration} {id : ConnectionId} {c : Connection} {signal : Nat} {args : List Variant}

/-- The list of an active sender has the connections from it with their signals. -/
theorem Linked.mem_outgoing_of_active (h : x.Linked severing) (hr : x.object? o = some r)
    (active : r.isActive) :
    (signal, id) ∈ r.outgoing ↔ ∃ c, x.connection? id = some c ∧ c.sender = o ∧ c.signal = signal := by
  refine ⟨h.of_outgoing o r.links signal id (links?_of_object? hr), ?_⟩
  rintro ⟨c, hc, rfl, rfl⟩
  rcases h.sender id c hc with ⟨l, hl, -, hid⟩ | ⟨ids, hids, -⟩
  · obtain rfl := Option.some.inj (hl.symm.trans (links?_of_object? hr))
    exact hid
  · obtain ⟨l, hl, inactive⟩ := h.severed _ ids hids
    obtain rfl := Option.some.inj (hl.symm.trans (links?_of_object? hr))
    exact absurd (of_decide_eq_true active) inactive

/-- The snapshot has the connections of the signal. -/
theorem Linked.mem_snapshot_iff (h : x.Linked severing) (hr : x.object? o = some r)
    (active : r.isActive) :
    (id, c) ∈ x.snapshot r signal ↔ x.connection? id = some c ∧ c.sender = o ∧ c.signal = signal := by
  rw [snapshot, List.mem_filterMap]
  constructor
  · rintro ⟨id', listed, found⟩
    obtain ⟨c', hc', e⟩ := Option.map_eq_some_iff.1 found
    cases e
    obtain ⟨c'', hc'', ends⟩ :=
      (h.mem_outgoing_of_active hr active).1 (Registration.mem_outgoingOf.1 listed)
    obtain rfl := Option.some.inj (hc'.symm.trans hc'')
    exact ⟨hc', ends⟩
  · rintro ⟨hc, ends⟩
    refine ⟨id, Registration.mem_outgoingOf.2 ?_, Option.map_eq_some_iff.2 ⟨c, hc, rfl⟩⟩
    exact (h.mem_outgoing_of_active hr active).2 ⟨c, hc, ends⟩

/-- The snapshot has the ids of the sender's list, in its order. -/
theorem Linked.map_fst_snapshot (h : x.Linked severing) (hr : x.object? o = some r) (signal : Nat) :
    (x.snapshot r signal).map (·.1) = r.outgoingOf signal := by
  have live : ∀ id ∈ r.outgoingOf signal, ∃ c, x.connections.get? id = some c := by
    intro id listed
    obtain ⟨c, hc, -⟩ := h.of_outgoing o r.links signal id (links?_of_object? hr)
      (Registration.mem_outgoingOf.1 listed)
    exact ⟨c, hc⟩
  rw [snapshot]
  generalize r.outgoingOf signal = ids at live
  induction ids with
  | nil => rfl
  | cons id ids ih =>
    obtain ⟨c, hc⟩ := live id List.mem_cons_self
    have rest := ih fun id hid => live id (List.mem_cons_of_mem _ hid)
    rw [List.filterMap_cons, hc, Option.map_some, List.map_cons, rest]

/-- An emission passes its checks, and its sender is active and not blocked. -/
structure MayEmit (x : Dispatcher) (o : ObjectId) (r : Registration) (signal : Nat)
    (args : List Variant) : Prop where
  object : x.object? o = some r
  signal : ∃ m, r.metaClass.method? signal = some m ∧ m.entry.kind = .signal ∧
    args.length = m.entry.parameterCount
  active : r.isActive
  unblocked : r.blocked = false

/-- Whether an emission may be made can be computed. -/
instance : Decidable (∃ r, x.MayEmit o r signal args) :=
  decidable_of_iff ((x.object? o).any fun r => r.isActive && !r.blocked &&
    (r.metaClass.method? signal).any fun m =>
      m.entry.kind = .signal ∧ args.length = m.entry.parameterCount) <| by
    rw [Option.any_eq_true]
    constructor
    · rintro ⟨r, hr, checks⟩
      simp only [Bool.and_eq_true, Bool.not_eq_true', Option.any_eq_true, decide_eq_true_eq] at checks
      obtain ⟨⟨active, unblocked⟩, m, hm, kind, arguments⟩ := checks
      exact ⟨r, hr, ⟨m, hm, kind, arguments⟩, active, unblocked⟩
    · rintro ⟨r, hr, ⟨m, hm, kind, arguments⟩, active, unblocked⟩
      refine ⟨r, hr, ?_⟩
      simp only [active, unblocked, hm, kind, arguments, Option.any_some]
      rfl

theorem MayEmit.beginEmission (h : x.MayEmit o r signal args) :
    x.beginEmission o signal args = .ok (x.snapshot r signal) := by
  obtain ⟨m, hm, kind, arguments⟩ := h.signal
  have unkind : ¬ m.entry.kind ≠ .signal := fun ne => ne kind
  simp only [Dispatcher.beginEmission, h.object, hm, if_neg unkind, requireArguments, if_pos arguments,
    h.active, h.unblocked]
  rfl

theorem beginEmissionNamed_of_named {text : String} (named : x.methodNamed o text = .ok (r, signal))
    (args : List Variant) : x.beginEmissionNamed o text args = x.beginEmission o signal args := by
  rw [beginEmissionNamed, named]
  rfl

/-- An emission goes only to connections that there are. -/
theorem live_of_beginEmission {all : List (ConnectionId × Connection)}
    (h : x.beginEmission o signal args = .ok all) : ∀ p ∈ all, x.connection? p.1 = some p.2 := by
  have live : ∀ r, ∀ p ∈ x.snapshot r signal, x.connection? p.1 = some p.2 := by
    rintro r ⟨id, c⟩ hp
    obtain ⟨id', -, found⟩ := List.mem_filterMap.1 hp
    obtain ⟨c', hc, e⟩ := Option.map_eq_some_iff.1 found
    cases e
    exact hc
  unfold Dispatcher.beginEmission at h
  split at h
  · cases h
  · split at h
    · cases h
    · obtain ⟨-, h⟩ := refuse_bind_eq_ok_iff.1 h
      obtain ⟨-, h⟩ := check_bind_eq_ok_iff.1 h
      cases h
      intro p hp
      split at hp
      · exact live _ p hp
      · cases hp

end Dispatcher
end Reflection

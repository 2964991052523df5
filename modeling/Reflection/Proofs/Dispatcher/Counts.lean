import Mathlib.Algebra.Ring.Nat
import Mathlib.Data.List.Nodup
import Mathlib.Data.List.Perm.Basic
import Reflection.Proofs.Arena
import Reflection.Proofs.Dispatcher.Links
/-!
# Counting connections

Where links agree with connections and no object is being destroyed, the lists of the objects hold
each connection once, so lists and connections may be counted for one another.
-/

namespace Reflection

namespace Registration

theorem mem_outgoingOf {r : Registration} {signal : Nat} {id : ConnectionId} :
    id ∈ r.outgoingOf signal ↔ (signal, id) ∈ r.outgoing := by
  rw [outgoingOf, List.mem_map]
  constructor
  · rintro ⟨⟨signal', id⟩, filtered, rfl⟩
    obtain ⟨found, e⟩ := List.mem_filter.1 filtered
    obtain rfl : signal' = signal := of_decide_eq_true e
    exact found
  · intro h
    exact ⟨(signal, id), List.mem_filter.2 ⟨h, decide_eq_true rfl⟩, rfl⟩

end Registration

namespace Dispatcher

variable {x : Dispatcher} {severing : Multiset (ObjectId × List ConnectionId)} {o : ObjectId}
  {r : Registration} {id : ConnectionId} {signal : Nat}

theorem links?_of_object? (h : x.object? o = some r) : x.links? o = some r.links := by
  rw [links?, h]
  rfl

theorem Linked.nodup_outgoingOf (h : x.Linked severing) (hr : x.object? o = some r) (signal : Nat) :
    (r.outgoingOf signal).Nodup :=
  (h.nodup_outgoing o _ (links?_of_object? hr)).sublist (List.filter_sublist.map _)

/-- The list of a sender has the connections from it with their signals. -/
theorem Linked.mem_outgoing_iff (h : x.Linked 0) (hr : x.object? o = some r) :
    (signal, id) ∈ r.outgoing ↔ ∃ c, x.connection? id = some c ∧ c.sender = o ∧ c.signal = signal := by
  refine ⟨h.of_outgoing o r.links signal id (links?_of_object? hr), ?_⟩
  rintro ⟨c, hc, rfl, rfl⟩
  rcases h.sender id c hc with ⟨l, hl, -, hid⟩ | ⟨ids, hids, -⟩
  · obtain rfl := Option.some.inj (hl.symm.trans (links?_of_object? hr))
    exact hid
  · exact absurd hids (Multiset.notMem_zero _)

/-- The list of a receiver has the connections to it. -/
theorem Linked.mem_incoming_iff (h : x.Linked 0) (hr : x.object? o = some r) :
    id ∈ r.incoming ↔ ∃ c, x.connection? id = some c ∧ c.target.receiver? = some o := by
  refine ⟨h.of_incoming o r.links id (links?_of_object? hr), ?_⟩
  rintro ⟨c, hc, hr'⟩
  rcases h.receiver id c o hc hr' with ⟨l, hl, -, hid⟩ | ⟨ids, hids, -⟩
  · obtain rfl := Option.some.inj (hl.symm.trans (links?_of_object? hr))
    exact hid
  · exact absurd hids (Multiset.notMem_zero _)

/-- The ends of a connection are active. -/
theorem Linked.contains_sender (h : x.Linked 0) {c : Connection} (hc : x.connection? id = some c) :
    x.contains c.sender := by
  rcases h.sender id c hc with ⟨l, hl, active, -⟩ | ⟨ids, hids, -⟩
  · exact active?_isSome_iff.2 ⟨l, hl, active⟩
  · exact absurd hids (Multiset.notMem_zero _)

theorem Linked.contains_receiver (h : x.Linked 0) {c : Connection} (hc : x.connection? id = some c)
    (hr : c.target.receiver? = some o) : x.contains o := by
  rcases h.receiver id c o hc hr with ⟨l, hl, active, -⟩ | ⟨ids, hids, -⟩
  · exact active?_isSome_iff.2 ⟨l, hl, active⟩
  · exact absurd hids (Multiset.notMem_zero _)

/-- A connection is once in the list of its sender, with its own signal, and in no other. -/
theorem Linked.count_outgoingOf (h : x.Linked 0) {c : Connection} (hc : x.connection? id = some c)
    (hr : x.object? o = some r) (signal : Nat) :
    (r.outgoingOf signal).count id = if c.sender = o ∧ c.signal = signal then 1 else 0 := by
  have mem : id ∈ r.outgoingOf signal ↔ c.sender = o ∧ c.signal = signal := by
    rw [Registration.mem_outgoingOf, h.mem_outgoing_iff hr]
    constructor
    · rintro ⟨c', hc', e⟩
      obtain rfl := Option.some.inj (hc.symm.trans hc')
      exact e
    · exact fun e => ⟨c, hc, e⟩
  rw [(h.nodup_outgoingOf hr signal).count]
  simp only [mem]

/-- A connection is once in the list of its receiver, if it has one, and in no other. -/
theorem Linked.count_incoming (h : x.Linked 0) {c : Connection} (hc : x.connection? id = some c)
    (hr : x.object? o = some r) :
    r.incoming.count id = if c.target.receiver? = some o then 1 else 0 := by
  have mem : id ∈ r.incoming ↔ c.target.receiver? = some o := by
    rw [h.mem_incoming_iff hr]
    constructor
    · rintro ⟨c', hc', e⟩
      obtain rfl := Option.some.inj (hc.symm.trans hc')
      exact e
    · exact fun e => ⟨c, hc, e⟩
  have nodup : r.incoming.Nodup := h.nodup_incoming o _ (links?_of_object? hr)
  rw [nodup.count]
  simp only [mem]

/-! ## Sums -/

/-- The lists of all senders together hold each connection once. -/
theorem Linked.sum_outgoing (h : x.Linked 0) :
    (x.objects.toList.map fun p => p.2.outgoing.length).sum = x.connections.size := by
  let ids := x.objects.toList.flatMap fun p => p.2.outgoing.map (·.2)
  have listed : ∀ {o r id}, x.object? o = some r → id ∈ r.outgoing.map (·.2) →
      ∃ c, x.connection? id = some c ∧ c.sender = o := by
    intro o r id hr hid
    obtain ⟨⟨signal, id'⟩, hp, rfl⟩ := List.mem_map.1 hid
    obtain ⟨c, hc, hs, -⟩ := (h.mem_outgoing_iff hr).1 hp
    exact ⟨c, hc, hs⟩
  have mem : ∀ id, id ∈ ids ↔ id ∈ x.connections.keys := by
    intro id
    rw [List.mem_flatMap, Arena.mem_keys]
    constructor
    · rintro ⟨⟨o, r⟩, hr, hid⟩
      obtain ⟨c, hc, -⟩ := listed (Arena.mem_toList.1 hr) hid
      exact ⟨c, hc⟩
    · rintro ⟨c, hc⟩
      obtain ⟨r, hr⟩ := Option.isSome_iff_exists.1 (h.contains_sender hc)
      obtain ⟨hr, -⟩ := active?_eq_some_iff.1 hr
      refine ⟨(c.sender, r), Arena.mem_toList.2 hr, List.mem_map.2 ⟨(c.signal, id), ?_, rfl⟩⟩
      exact (h.mem_outgoing_iff hr).2 ⟨c, hc, rfl, rfl⟩
  -- A connection is in the list of its own sender only.
  have nodup : ids.Nodup := by
    refine List.nodup_flatMap.2 ⟨fun p hp => ?_, ?_⟩
    · exact h.nodup_outgoing p.1 _ (links?_of_object? (Arena.mem_toList.1 hp))
    · have distinct : x.objects.toList.Pairwise fun p q => p.1 ≠ q.1 :=
        List.pairwise_map.1 x.objects.nodup_keys
      refine distinct.imp_of_mem fun {p q} hp hq ne => ?_
      rintro id hp' hq'
      obtain ⟨c, hc, hs⟩ := listed (Arena.mem_toList.1 hp) hp'
      obtain ⟨c', hc', hs'⟩ := listed (Arena.mem_toList.1 hq) hq'
      obtain rfl := Option.some.inj (hc.symm.trans hc')
      exact ne (hs.symm.trans hs')
  have perm : ids.Perm x.connections.keys :=
    (List.perm_ext_iff_of_nodup nodup x.connections.nodup_keys).2 mem
  have length := perm.length_eq
  rw [List.length_flatMap] at length
  simpa [Arena.keys, Arena.size] using length

/-- The connections of a signal are those in the list of its sender. -/
theorem Linked.perm_outgoingOf (h : x.Linked 0) (hr : x.object? o = some r) (signal : Nat) :
    (r.outgoingOf signal).Perm
      ((x.connections.toList.filter fun p => p.2.sender = o ∧ p.2.signal = signal).map (·.1)) := by
  have nodup : ((x.connections.toList.filter fun p =>
      p.2.sender = o ∧ p.2.signal = signal).map (·.1)).Nodup :=
    x.connections.nodup_keys.sublist (List.filter_sublist.map _)
  refine (List.perm_ext_iff_of_nodup (h.nodup_outgoingOf hr signal) nodup).2 fun id => ?_
  rw [Registration.mem_outgoingOf, h.mem_outgoing_iff hr, List.mem_map]
  constructor
  · rintro ⟨c, hc, e⟩
    exact ⟨(id, c), List.mem_filter.2 ⟨Arena.mem_toList.2 hc, decide_eq_true e⟩, rfl⟩
  · rintro ⟨⟨id, c⟩, hc, rfl⟩
    obtain ⟨hc, e⟩ := List.mem_filter.1 hc
    exact ⟨c, Arena.mem_toList.1 hc, of_decide_eq_true e⟩

/-- The receivers of a signal are counted by its connections. -/
theorem Linked.receivers_eq (h : x.Linked 0) (o : ObjectId) (text : String) :
    x.receivers o text = (x.connections.toList.filter fun p => p.2.sender = o ∧
      (x.object? o).bind (·.metaClass.indexOfSignal? text) = some p.2.signal).length := by
  have unknown : (x.object? o).bind (·.metaClass.indexOfSignal? text) = none →
      (x.connections.toList.filter fun p => p.2.sender = o ∧
        (x.object? o).bind (·.metaClass.indexOfSignal? text) = some p.2.signal).length = 0 := by
    intro none
    simp [none]
  unfold receivers
  cases hr : x.object? o with
  | none =>
    rw [hr] at unknown
    exact (unknown rfl).symm
  | some r =>
    rw [hr] at unknown
    dsimp only
    cases hi : r.metaClass.indexOfSignal? text with
    | none => exact (unknown hi).symm
    | some i =>
      have length := (h.perm_outgoingOf hr i).length_eq
      rw [List.length_map] at length
      simp only [Option.bind_some, hi, Option.some.injEq]
      rw [length]
      simp only [eq_comm]

end Dispatcher
end Reflection

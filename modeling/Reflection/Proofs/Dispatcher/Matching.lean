import Reflection.Proofs.Dispatcher.Relinking
import Reflection.Proofs.Dispatcher.Typing
/-!
# What is connected

A text leads to the last method with its canonical form in the nearest class that has one
(`MetaClass.Resolves`). Two objects are connected by texts just if both are active, the first text leads to
a signal, the second to a method, and both have the same parameter types (`connect_eq_ok_iff`). The checks
come before any change, and what is then changed is the new connection and the lists of its ends
(`Gains`).
-/

namespace Reflection

namespace MetaClass

variable {c : MetaClass} {text : String} {m : Method}

/-- A text spells a signature, and the method is the last one with its canonical form in the nearest class
that has one. -/
def Resolves (c : MetaClass) (text : String) (m : Method) : Prop :=
  ∃ s below above k, Signature.parse text = .ok s ∧ c.lineage = below ++ m.owner :: above ∧
    (∀ b ∈ below, ¬ b.HasOwn ClassTable.methods ClassTable.signature s.canonical) ∧
    IsLastOwn ClassTable.methods ClassTable.signature s.canonical m.owner k ∧
    m.owner.table.methods[k]? = some m.entry ∧ m.index = m.owner.methodOffset + k

/-- It is the method at the index that is found for the signature. -/
theorem resolves_iff : c.Resolves text m ↔
    ∃ s, Signature.parse text = .ok s ∧ c.indexOfCanonical? s.canonical = some m.index ∧
      c.method? m.index = some m := by
  constructor
  · rintro ⟨s, below, above, k, parsed, split, none, last, entry, index⟩
    refine ⟨s, parsed, (indexOf?_eq_some_iff _ _).2 ⟨below, m.owner, above, k, split, none, last, index⟩, ?_⟩
    have inside := (List.getElem?_eq_some_iff.1 entry).1
    have place := getElem?_places ClassTable.methods (show m.owner ∈ c.lineage by simp [split]) inside
    refine (memberAt?_eq_some_iff ClassTable.methods).2 ⟨rfl, k, ?_, entry⟩
    rw [index]
    exact place
  · rintro ⟨s, parsed, found, here⟩
    obtain ⟨below, a, above, k, split, none, last, index⟩ := (indexOf?_eq_some_iff _ _).1 found
    obtain ⟨-, k', place, entry⟩ := (memberAt?_eq_some_iff ClassTable.methods).1 here
    -- Both say what stands at the index.
    obtain ⟨⟨e, he, -⟩, -⟩ := id last
    have place' := getElem?_places ClassTable.methods (show a ∈ c.lineage by simp [split])
      (List.getElem?_eq_some_iff.1 he).1
    rw [index, place'] at place
    obtain ⟨rfl, rfl⟩ : a = m.owner ∧ k = k' := by simpa using place
    exact ⟨s, below, above, k, parsed, split, none, last, entry, index⟩

theorem signalIndex_eq_ok_iff {s : Signature} {i : Nat} :
    c.signalIndex s = .ok i ↔ c.indexOfCanonical? s.canonical = some i ∧ ∃ m, c.signal i = .ok m := by
  unfold signalIndex
  cases c.indexOfCanonical? s.canonical with
  | none => exact ⟨nofun, fun h => nomatch h.1⟩
  | some j =>
    rw [map_eq_ok_iff]
    constructor
    · rintro ⟨m, is, rfl⟩
      exact ⟨rfl, m, is⟩
    · rintro ⟨⟨⟩, m, is⟩
      exact ⟨m, is, rfl⟩

theorem signal_eq_ok_iff {i : Nat} :
    c.signal i = .ok m ↔ c.method? i = some m ∧ m.entry.kind = .signal := by
  unfold signal
  cases c.method? i with
  | none => exact ⟨nofun, fun h => nomatch h.1⟩
  | some m' =>
    dsimp only
    split
    · rename_i kind
      constructor
      · rintro ⟨⟩
        exact ⟨rfl, kind⟩
      · rintro ⟨⟨⟩, -⟩
        rfl
    · rename_i other
      refine ⟨nofun, ?_⟩
      rintro ⟨⟨⟩, kind⟩
      exact absurd kind other

theorem slotIndex_eq_ok_iff {s : Signature} {i : Nat} :
    c.slotIndex s = .ok i ↔ c.indexOfCanonical? s.canonical = some i := by
  unfold slotIndex
  cases c.indexOfCanonical? s.canonical with
  | none => exact ⟨nofun, nofun⟩
  | some j => simp

theorem slot_eq_ok_iff {i : Nat} : c.slot i = .ok m ↔ c.method? i = some m := by
  unfold slot
  cases c.method? i with
  | none => exact ⟨nofun, nofun⟩
  | some m' => simp

end MetaClass

namespace Dispatcher

variable {x : Dispatcher} {sender receiver : ObjectId} {signal slot : String} {type : ConnectionType}
  {p : ConnectionId × Dispatcher}

/-! ## Checks -/

/-- Two methods that may be connected: those to which the texts lead in the classes of active objects, a
signal and any method of the same parameter types. -/
structure Match (x : Dispatcher) (sender : ObjectId) (signal : String) (receiver : ObjectId)
    (slot : String) (m k : MetaClass.Method) : Prop where
  source : ∃ r, x.active? sender = some r ∧ r.metaClass.Resolves signal m
  destination : ∃ r, x.active? receiver = some r ∧ r.metaClass.Resolves slot k
  kind : m.entry.kind = .signal
  parameters : m.parameterTypes = k.parameterTypes

theorem parseSignature_eq_ok_iff {text : String} {s : Signature} :
    parseSignature text = .ok s ↔ Signature.parse text = .ok s :=
  mapError_eq_ok_iff

theorem active?_eq_some {o : ObjectId} {r : Registration} :
    x.active? o = some r ↔ x.object? o = some r ∧ r.isActive := by
  rw [active?, Option.filter_eq_some_iff]

/-- Just what matches is connected. -/
theorem connect_eq_ok_iff :
    x.connect sender signal receiver slot type = .ok p ↔ ∃ m k, x.Match sender signal receiver slot m k ∧
      p = x.link { sender, signal := m.index, target := .method receiver k.index, type } := by
  simp only [connect, connectByIndex, bind_eq_ok_iff, refuse_bind_eq_ok_iff, parseSignature_eq_ok_iff,
    endpoint_eq_ok_iff, MetaClass.signalIndex_eq_ok_iff, MetaClass.slotIndex_eq_ok_iff,
    MetaClass.slot_eq_ok_iff]
  constructor
  · rintro ⟨s, parsed, t, parsed', source, hs, destination, hd, i, ⟨found, -⟩, j, found', source', hs',
      destination', hd', m, hm, k, hk, same, _, active, _, active', made⟩
    cases hs.symm.trans hs'
    cases hd.symm.trans hd'
    obtain ⟨hm, kind⟩ := MetaClass.signal_eq_ok_iff.1 hm
    obtain rfl := ((MetaClass.memberAt?_eq_some_iff ClassTable.methods).1 hm).1
    obtain rfl := ((MetaClass.memberAt?_eq_some_iff ClassTable.methods).1 hk).1
    refine ⟨m, k, ⟨⟨source, ?_, ?_⟩, ⟨destination, ?_, ?_⟩, kind, ?_⟩, (Except.ok.inj made).symm⟩
    · exact active?_eq_some.2 ⟨hs, requireActive_eq_ok_iff.1 active⟩
    · exact MetaClass.resolves_iff.2 ⟨s, parsed, found, hm⟩
    · exact active?_eq_some.2 ⟨hd, requireActive_eq_ok_iff.1 active'⟩
    · exact MetaClass.resolves_iff.2 ⟨t, parsed', found', hk⟩
    · simpa [Signature.compatible] using same
  · rintro ⟨m, k, ⟨⟨source, hs, resolves⟩, ⟨destination, hd, resolves'⟩, kind, same⟩, rfl⟩
    obtain ⟨hs, active⟩ := active?_eq_some.1 hs
    obtain ⟨hd, active'⟩ := active?_eq_some.1 hd
    obtain ⟨s, parsed, found, hm⟩ := MetaClass.resolves_iff.1 resolves
    obtain ⟨t, parsed', found', hk⟩ := MetaClass.resolves_iff.1 resolves'
    have signal := MetaClass.signal_eq_ok_iff.2 ⟨hm, kind⟩
    exact ⟨s, parsed, t, parsed', source, hs, destination, hd, m.index, ⟨found, m, signal⟩, k.index, found',
      source, hs, destination, hd, m, signal, k, hk, by simp [Signature.compatible, same], (),
      requireActive_eq_ok_iff.2 active, (), requireActive_eq_ok_iff.2 active', rfl⟩

/-! ## Changes -/

/-- A dispatcher has one more connection, and nothing else is different: its id is new, and stands at the
end of the list of the sender, with its signal, and at the end of the list of the receiver. -/
structure Gains (x y : Dispatcher) (id : ConnectionId) (c : Connection) : Prop where
  new : ¬ x.connections.Issued id
  connections : ∀ j, y.connections.get? j = if j = id then some c else x.connections.get? j
  objects : ∀ o, y.object? o = (x.object? o).map fun r => { r with
    outgoing := if o = c.sender then r.outgoing ++ [(c.signal, id)] else r.outgoing
    incoming := if c.target.receiver? = some o then r.incoming ++ [id] else r.incoming }
  queues : y.queues = x.queues
  timeout : y.timeout = x.timeout

theorem object?_modifyObject {o o' : ObjectId} {f : Registration → Registration} :
    (x.modifyObject o f).object? o' = (x.object? o').map fun r => if o' = o then f r else r := by
  show (x.objects.modify o f).get? o' = (x.objects.get? o').map _
  rw [Arena.get?_modify]
  split
  · rename_i e
    rw [e]
  · rw [Option.map_id']

theorem gains_link (x : Dispatcher) (c : Connection) : x.Gains (x.link c).2 (x.link c).1 c where
  new := by
    rw [fst_link]
    exact Arena.not_issued_insert _ _
  connections := (connection?_link x c).2
  objects o := by
    unfold link
    dsimp only
    cases hr : c.target.receiver? with
    | none =>
      dsimp only
      rw [object?_modifyObject]
      refine congrArg (Option.map · _) (funext fun r => ?_)
      simp only [reduceCtorEq, if_false]
      split <;> rfl
    | some receiver =>
      dsimp only
      rw [object?_modifyObject, object?_modifyObject, Option.map_map]
      have flip : some receiver = some o ↔ o = receiver := by simp [eq_comm]
      refine congrArg (Option.map · _) (funext fun r => ?_)
      simp only [Function.comp_apply, flip]
      split <;> split <;> rfl
  queues := queues_link x c
  timeout := (relinked_link x c).timeout

/-- The list of the sender for the signal has the new connection at its end, and so has the list of the
receiver. -/
theorem Gains.lists {y : Dispatcher} {id : ConnectionId} {c : Connection} (h : x.Gains y id c)
    {o : ObjectId} {r : Registration} (hr : x.object? o = some r) :
    ∃ r', y.object? o = some r' ∧
      (∀ i, r'.outgoingOf i =
        if o = c.sender ∧ i = c.signal then r.outgoingOf i ++ [id] else r.outgoingOf i) ∧
      r'.incoming = if c.target.receiver? = some o then r.incoming ++ [id] else r.incoming := by
  refine ⟨_, by rw [h.objects, hr]; rfl, fun i => ?_, rfl⟩
  by_cases sends : o = c.sender
  · by_cases same : c.signal = i
    · simp [Registration.outgoingOf, sends, same]
    · simp [Registration.outgoingOf, sends, same, eq_comm (a := i)]
  · simp [Registration.outgoingOf, sends]

/-- What is made of a request is a connection between methods that match. -/
theorem gains_of_connect {id : ConnectionId} {y : Dispatcher}
    (made : x.connect sender signal receiver slot type = .ok (id, y)) :
    ∃ m k, x.Match sender signal receiver slot m k ∧
      x.Gains y id { sender, signal := m.index, target := .method receiver k.index, type } := by
  obtain ⟨m, k, fits, e⟩ := connect_eq_ok_iff.1 made
  have gains := x.gains_link { sender, signal := m.index, target := .method receiver k.index, type }
  rw [← e] at gains
  exact ⟨m, k, fits, gains⟩

end Dispatcher
end Reflection

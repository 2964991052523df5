import Mathlib.Data.List.Nodup
import Mathlib.Data.Multiset.MapFold
import Reflection.Dispatcher.Link
import Reflection.Proofs.Dispatcher.Connecting
import Reflection.Proofs.Dispatcher.Views
/-!
# Links agree with connections

A connection stands among all connections and in the lists of its ends. `Linked` says that these
places agree, also while objects are destroyed: an object that is not active any longer has empty
lists, and those of its connections that are still to be cut are in the hands of its destruction.
Every operation keeps this (`Linked.link`, `Linked.of_cuts`, `Linked.beginDestroy`,
`Linked.endDestroy`).
-/

namespace Reflection

namespace Registration

theorem perm_bySignal (order : List Nat) (links : List (Nat × ConnectionId)) :
    (bySignal order links).Perm (links.map (·.2)) := by
  induction order generalizing links with
  | nil => exact .refl _
  | cons signal order ih =>
    have parts := (List.filter_append_perm (·.1 = signal) links).map (·.2)
    rw [List.map_append] at parts
    refine .trans (.append_left _ (ih _)) (.trans (.of_eq ?_) parts)
    simp only [ne_eq, decide_not]

/-- In whichever order the signals come, there are the same connections. -/
theorem perm_outgoingBy (r : Registration) (order : List Nat) :
    (r.outgoingBy order).Perm (r.outgoing.map (·.2)) :=
  perm_bySignal _ _

end Registration

namespace Links

/-- The links without a connection. -/
def cut (l : Links) (id : ConnectionId) : Links :=
  { l with
    outgoing := l.outgoing.filter (·.2 ≠ id)
    incoming := l.incoming.filter (· ≠ id) }

/-- Is a connection among the links? -/
def Has (l : Links) (id : ConnectionId) : Prop :=
  (∃ signal, (signal, id) ∈ l.outgoing) ∨ id ∈ l.incoming

theorem cut_eq {l : Links} {id : ConnectionId} (h : ¬ l.Has id) : l.cut id = l := by
  obtain ⟨state, outgoing, incoming⟩ := l
  have out : outgoing.filter (·.2 ≠ id) = outgoing := by
    refine List.filter_eq_self.2 fun p hp => decide_eq_true fun e => h (.inl ⟨p.1, ?_⟩)
    rw [← e]
    exact hp
  have inc : incoming.filter (· ≠ id) = incoming :=
    List.filter_eq_self.2 fun i hi => decide_eq_true fun e => h (.inr (e ▸ hi))
  rw [cut, out, inc]

theorem cut_cut (l : Links) (id : ConnectionId) : (l.cut id).cut id = l.cut id := by
  refine cut_eq ?_
  rintro (⟨signal, h⟩ | h)
  · simp [cut] at h
  · simp [cut] at h

theorem not_has_of_empty {l : Links} (h : l.outgoing = [] ∧ l.incoming = []) (id : ConnectionId) :
    ¬ l.Has id := by
  simp [Has, h.1, h.2]

end Links

theorem Registration.links_unlink (r : Registration) (id : ConnectionId) :
    (r.unlink id).links = r.links.cut id := rfl

namespace Dispatcher

variable {x y : Dispatcher} {o o' : ObjectId} {id id' : ConnectionId} {c : Connection} {l : Links}

/-! ## What the operations do to the views -/

theorem links?_modifyObject {f : Registration → Registration} {g : Links → Links}
    (hf : ∀ r, (f r).links = g r.links) :
    (x.modifyObject o f).links? o' = (x.links? o').map fun l => if o' = o then g l else l := by
  show ((x.objects.modify o f).get? o').map _ = _
  rw [Arena.get?_modify]
  split
  · rename_i e
    subst e
    show ((x.objects.get? o').map f).map _ = ((x.objects.get? o').map _).map _
    rw [Option.map_map, Option.map_map]
    exact congrArg (Option.map · _) (funext hf)
  · show x.links? o' = _
    rw [Option.map_id']

theorem links?_unlink :
    (x.unlink o id).links? o' = (x.links? o').map fun l => if o' = o then l.cut id else l :=
  links?_modifyObject (fun r => r.links_unlink id)

theorem active?_eq_some_iff {r : Registration} :
    x.active? o = some r ↔ x.object? o = some r ∧ r.state = .active := by
  rw [active?, Option.filter_eq_some_iff, Registration.isActive, decide_eq_true_iff]

/-- An active object has links that say so. -/
theorem active?_isSome_iff : (x.active? o).isSome ↔ ∃ l, x.links? o = some l ∧ l.state = .active := by
  rw [Option.isSome_iff_exists]
  constructor
  · rintro ⟨r, hr⟩
    obtain ⟨hr, active⟩ := active?_eq_some_iff.1 hr
    exact ⟨r.links, by rw [links?, hr]; rfl, active⟩
  · rintro ⟨l, hl, active⟩
    obtain ⟨r, hr, rfl⟩ := Option.map_eq_some_iff.1 hl
    exact ⟨r, active?_eq_some_iff.2 ⟨hr, active⟩⟩

/-! ## The invariant -/

/-- Links and connections agree, while the objects in `severing` are being destroyed and have the
connections given with them still to be cut. -/
structure Linked (x : Dispatcher) (severing : Multiset (ObjectId × List ConnectionId)) : Prop where
  nodup_outgoing : ∀ o l, x.links? o = some l → (l.outgoing.map (·.2)).Nodup
  nodup_incoming : ∀ o l, x.links? o = some l → l.incoming.Nodup
  of_outgoing : ∀ o l signal id, x.links? o = some l → (signal, id) ∈ l.outgoing →
    ∃ c, x.connection? id = some c ∧ c.sender = o ∧ c.signal = signal
  of_incoming : ∀ o l id, x.links? o = some l → id ∈ l.incoming →
    ∃ c, x.connection? id = some c ∧ c.target.receiver? = some o
  inactive : ∀ o l, x.links? o = some l → l.state ≠ .active → l.outgoing = [] ∧ l.incoming = []
  sender : ∀ id c, x.connection? id = some c →
    (∃ l, x.links? c.sender = some l ∧ l.state = .active ∧ (c.signal, id) ∈ l.outgoing) ∨
      ∃ ids, (c.sender, ids) ∈ severing ∧ id ∈ ids
  receiver : ∀ id c o, x.connection? id = some c → c.target.receiver? = some o →
    (∃ l, x.links? o = some l ∧ l.state = .active ∧ id ∈ l.incoming) ∨
      ∃ ids, (o, ids) ∈ severing ∧ id ∈ ids
  severed : ∀ o ids, (o, ids) ∈ severing → ∃ l, x.links? o = some l ∧ l.state ≠ .active
  distinct : (severing.map (·.1)).Nodup

variable {severing : Multiset (ObjectId × List ConnectionId)}

/-- A dispatcher without objects and connections. -/
theorem linked_of_empty (links : ∀ o, x.links? o = none) (connections : ∀ id, x.connection? id = none) :
    x.Linked 0 where
  nodup_outgoing o l h := by simp [links] at h
  nodup_incoming o l h := by simp [links] at h
  of_outgoing o l _ _ h := by simp [links] at h
  of_incoming o l _ h := by simp [links] at h
  inactive o l h := by simp [links] at h
  sender id c h := by simp [connections] at h
  receiver id c o h := by simp [connections] at h
  severed o ids h := by simp at h
  distinct := by simp

theorem Linked.alike (h : x.Linked severing) (alike : x.Alike y) : y.Linked severing := by
  have connection? : y.connection? = x.connection? := by
    funext id
    rw [connection?, connection?, alike.connections]
  constructor
  all_goals first | rw [alike.links, connection?] | rw [alike.links] | rw [connection?] | skip
  exacts [h.nodup_outgoing, h.nodup_incoming, h.of_outgoing, h.of_incoming, h.inactive, h.sender,
    h.receiver, h.severed, h.distinct]

/-- The part of the invariant that is about what is in lists. -/
structure Listed (x : Dispatcher) : Prop where
  nodup_outgoing : ∀ o l, x.links? o = some l → (l.outgoing.map (·.2)).Nodup
  nodup_incoming : ∀ o l, x.links? o = some l → l.incoming.Nodup
  of_outgoing : ∀ o l signal id, x.links? o = some l → (signal, id) ∈ l.outgoing →
    ∃ c, x.connection? id = some c ∧ c.sender = o ∧ c.signal = signal
  of_incoming : ∀ o l id, x.links? o = some l → id ∈ l.incoming →
    ∃ c, x.connection? id = some c ∧ c.target.receiver? = some o
  inactive : ∀ o l, x.links? o = some l → l.state ≠ .active → l.outgoing = [] ∧ l.incoming = []

theorem Linked.listed (h : x.Linked severing) : x.Listed :=
  { h with }

/-- Lists may become empty. -/
theorem Listed.of_old (h : x.Listed) (connection : y.connection? = x.connection?)
    (old : ∀ o l, y.links? o = some l →
      l.outgoing = [] ∧ l.incoming = [] ∨ x.links? o = some l) : y.Listed := by
  constructor
  case nodup_outgoing =>
    intro o l hl
    rcases old o l hl with ⟨empty, -⟩ | hl
    · rw [empty]
      exact .nil
    · exact h.nodup_outgoing o l hl
  case nodup_incoming =>
    intro o l hl
    rcases old o l hl with ⟨-, empty⟩ | hl
    · rw [empty]
      exact .nil
    · exact h.nodup_incoming o l hl
  case of_outgoing =>
    intro o l signal j hl hj
    rcases old o l hl with ⟨empty, -⟩ | hl
    · rw [empty] at hj
      cases hj
    · exact connection ▸ h.of_outgoing o l signal j hl hj
  case of_incoming =>
    intro o l j hl hj
    rcases old o l hl with ⟨-, empty⟩ | hl
    · rw [empty] at hj
      cases hj
    · exact connection ▸ h.of_incoming o l j hl hj
  case inactive =>
    intro o l hl inactive
    rcases old o l hl with empty | hl
    · exact empty
    · exact h.inactive o l hl inactive

/-! ## Cutting a connection -/

/-- A connection is gone from everywhere. -/
structure Cuts (x y : Dispatcher) (id : ConnectionId) : Prop where
  links : ∀ o, y.links? o = (x.links? o).map (·.cut id)
  connections : ∀ id', y.connection? id' = if id' = id then none else x.connection? id'

/-- Only the ends of a connection have it among their links. -/
theorem Linked.end_of_has (h : x.Linked severing) (hl : x.links? o = some l) (has : l.Has id) :
    ∃ c, x.connection? id = some c ∧ (c.sender = o ∨ c.target.receiver? = some o) := by
  rcases has with ⟨signal, hs⟩ | hi
  · obtain ⟨c, hc, e, -⟩ := h.of_outgoing o l signal id hl hs
    exact ⟨c, hc, .inl e⟩
  · obtain ⟨c, hc, e⟩ := h.of_incoming o l id hl hi
    exact ⟨c, hc, .inr e⟩

/-- The lists of some objects without a connection. -/
def unlinkEach (x : Dispatcher) (id : ConnectionId) (ends : List ObjectId) : Dispatcher :=
  ends.foldl (fun x o => x.unlink o id) x

theorem links?_unlinkEach (ends : List ObjectId) :
    (x.unlinkEach id ends).links? o =
      if o ∈ ends then (x.links? o).map (·.cut id) else x.links? o := by
  induction ends generalizing x with
  | nil => rfl
  | cons e ends ih =>
    show ((x.unlink e id).unlinkEach id ends).links? o = _
    rw [ih, links?_unlink]
    cases x.links? o with
    | none => simp
    | some l =>
      by_cases ho : o = e
      · simp [ho, l.cut_cut]
      · simp [ho]

theorem connection?_unlinkEach (ends : List ObjectId) :
    (x.unlinkEach id ends).connection? = x.connection? := by
  induction ends generalizing x with
  | nil => rfl
  | cons e ends ih => exact ih (x := x.unlink e id)

/-- A connection is gone from everywhere if it is taken from all lists that have it. -/
theorem cuts_of_ends (ends : List ObjectId)
    (covers : ∀ o l, x.links? o = some l → l.Has id → o ∈ ends) :
    x.Cuts ({ x with connections := x.connections.erase id }.unlinkEach id ends) id := by
  refine ⟨fun o => ?_, fun id' => ?_⟩
  · rw [links?_unlinkEach]
    show (if o ∈ ends then (x.links? o).map (·.cut id) else x.links? o) = _
    split
    · rfl
    · rename_i apart
      cases hl : x.links? o with
      | none => rfl
      | some l => exact congrArg some (Links.cut_eq fun has => apart (covers o l hl has)).symm
  · rw [connection?_unlinkEach]
    exact Arena.get?_erase ..

/-- Nothing is to be cut where there is no connection. -/
theorem Linked.cuts_none (h : x.Linked severing) (none : x.connection? id = none) : x.Cuts x id := by
  refine ⟨fun o => ?_, fun id' => ?_⟩
  · cases hl : x.links? o with
    | none => rfl
    | some l =>
      refine congrArg some (Links.cut_eq fun has => ?_).symm
      obtain ⟨c, hc, -⟩ := h.end_of_has hl has
      rw [none] at hc
      cases hc
  · split
    · rename_i e
      rw [e, none]
    · rfl

theorem Linked.cuts_disconnect (h : x.Linked severing) (id : ConnectionId) :
    x.Cuts (x.disconnect id).2 id := by
  unfold disconnect
  cases hc : x.connections.get? id with
  | none => exact h.cuts_none hc
  | some c =>
    have ends : ∀ o l, x.links? o = some l → l.Has id →
        c.sender = o ∨ c.target.receiver? = some o := by
      intro o l hl has
      obtain ⟨c', hc', at_end⟩ := h.end_of_has hl has
      obtain rfl : c = c' := Option.some.inj (hc.symm.trans hc')
      exact at_end
    dsimp only
    cases hr : c.target.receiver? with
    | none =>
      refine cuts_of_ends [c.sender] fun o l hl has => ?_
      simpa [hr, eq_comm] using ends o l hl has
    | some receiver =>
      dsimp only
      split
      · rename_i e
        refine cuts_of_ends [c.sender] fun o l hl has => ?_
        simpa [hr, e, eq_comm] using ends o l hl has
      · refine cuts_of_ends [c.sender, receiver] fun o l hl has => ?_
        simpa [hr, eq_comm] using ends o l hl has

/-- Cutting a connection of an object whose own lists are empty is not different from cutting any. -/
theorem Linked.cuts_sever (h : x.Linked severing) {gone : ObjectId}
    (empty : ∀ l, x.links? gone = some l → l.outgoing = [] ∧ l.incoming = []) (id : ConnectionId) :
    x.Cuts (x.sever gone id).2 id := by
  unfold sever
  cases hc : x.connections.get? id with
  | none => exact h.cuts_none hc
  | some c =>
    have ends : ∀ o l, x.links? o = some l → l.Has id →
        o ≠ gone ∧ (c.sender = o ∨ c.target.receiver? = some o) := by
      intro o l hl has
      refine ⟨?_, ?_⟩
      · rintro rfl
        exact Links.not_has_of_empty (empty l hl) id has
      · obtain ⟨c', hc', at_end⟩ := h.end_of_has hl has
        obtain rfl : c = c' := Option.some.inj (hc.symm.trans hc')
        exact at_end
    dsimp only
    cases hr : c.target.receiver? with
    | none =>
      dsimp only
      split
      · rename_i e
        refine cuts_of_ends [] fun o l hl has => ?_
        obtain ⟨ne, h⟩ := ends o l hl has
        simp [hr, e, ne.symm] at h
      · refine cuts_of_ends [c.sender] fun o l hl has => ?_
        simpa [hr, eq_comm] using (ends o l hl has).2
    | some receiver =>
      dsimp only
      split <;> split
      · rename_i hs hr'
        refine cuts_of_ends [] fun o l hl has => ?_
        obtain ⟨ne, h⟩ := ends o l hl has
        simp [hr, hs, hr', ne.symm] at h
      · rename_i hs hr'
        refine cuts_of_ends [c.sender] fun o l hl has => ?_
        obtain ⟨ne, h⟩ := ends o l hl has
        simpa [hr, hs, ne.symm, eq_comm] using h
      · rename_i hr' hs
        refine cuts_of_ends [receiver] fun o l hl has => ?_
        obtain ⟨ne, h⟩ := ends o l hl has
        simpa [hr, hs, ne.symm, eq_comm] using h
      · refine cuts_of_ends [c.sender, receiver] fun o l hl has => ?_
        simpa [hr, eq_comm] using (ends o l hl has).2

/-! ## What keeps the invariant -/

/-- Cutting a connection keeps the invariant. Destructions may lose the connection from what they have
still to cut. -/
theorem Linked.of_cuts (h : x.Linked severing) (cuts : x.Cuts y id)
    {severing' : Multiset (ObjectId × List ConnectionId)}
    (objects : severing'.map (·.1) = severing.map (·.1))
    (kept : ∀ o ids, (o, ids) ∈ severing →
      ∃ ids', (o, ids') ∈ severing' ∧ ∀ j ∈ ids, j ≠ id → j ∈ ids') : y.Linked severing' := by
  have old : ∀ o l', y.links? o = some l' → ∃ l, x.links? o = some l ∧ l' = l.cut id := by
    intro o l' hl'
    rw [cuts.links] at hl'
    obtain ⟨l, hl, e⟩ := Option.map_eq_some_iff.1 hl'
    exact ⟨l, hl, e.symm⟩
  have new : ∀ o l, x.links? o = some l → y.links? o = some (l.cut id) := by
    intro o l hl
    rw [cuts.links, hl]
    rfl
  -- `id` goes from the arena and from all lists at once, so the others agree as they did.
  have connection : ∀ j c, y.connection? j = some c ↔ j ≠ id ∧ x.connection? j = some c := by
    intro j c
    rw [cuts.connections]
    by_cases e : j = id <;> simp [e]
  constructor
  case nodup_outgoing =>
    intro o l' hl'
    obtain ⟨l, hl, rfl⟩ := old o l' hl'
    exact (h.nodup_outgoing o l hl).sublist ((List.filter_sublist).map _)
  case nodup_incoming =>
    intro o l' hl'
    obtain ⟨l, hl, rfl⟩ := old o l' hl'
    exact (h.nodup_incoming o l hl).sublist List.filter_sublist
  case of_outgoing =>
    intro o l' signal j hl' hj
    obtain ⟨l, hl, rfl⟩ := old o l' hl'
    obtain ⟨hj, ne⟩ := List.mem_filter.1 hj
    obtain ⟨c, hc, hs⟩ := h.of_outgoing o l signal j hl hj
    exact ⟨c, (connection j c).2 ⟨of_decide_eq_true ne, hc⟩, hs⟩
  case of_incoming =>
    intro o l' j hl' hj
    obtain ⟨l, hl, rfl⟩ := old o l' hl'
    obtain ⟨hj, ne⟩ := List.mem_filter.1 hj
    obtain ⟨c, hc, hr⟩ := h.of_incoming o l j hl hj
    exact ⟨c, (connection j c).2 ⟨of_decide_eq_true ne, hc⟩, hr⟩
  case inactive =>
    intro o l' hl' inactive
    obtain ⟨l, hl, rfl⟩ := old o l' hl'
    obtain ⟨out, inc⟩ := h.inactive o l hl inactive
    exact ⟨by simp [Links.cut, out], by simp [Links.cut, inc]⟩
  case sender =>
    intro j c hc
    obtain ⟨ne, hc⟩ := (connection j c).1 hc
    rcases h.sender j c hc with ⟨l, hl, active, hj⟩ | ⟨ids, hids, hj⟩
    · exact .inl ⟨l.cut id, new _ l hl, active, List.mem_filter.2 ⟨hj, decide_eq_true ne⟩⟩
    · obtain ⟨ids', hids', keep⟩ := kept _ _ hids
      exact .inr ⟨ids', hids', keep j hj ne⟩
  case receiver =>
    intro j c o hc hr
    obtain ⟨ne, hc⟩ := (connection j c).1 hc
    rcases h.receiver j c o hc hr with ⟨l, hl, active, hj⟩ | ⟨ids, hids, hj⟩
    · exact .inl ⟨l.cut id, new _ l hl, active, List.mem_filter.2 ⟨hj, decide_eq_true ne⟩⟩
    · obtain ⟨ids', hids', keep⟩ := kept _ _ hids
      exact .inr ⟨ids', hids', keep j hj ne⟩
  case severed =>
    intro o ids hids
    have mem : o ∈ severing.map (·.1) := objects ▸ Multiset.mem_map_of_mem (·.1) hids
    obtain ⟨⟨_, ids'⟩, hids', rfl⟩ := Multiset.mem_map.1 mem
    obtain ⟨l, hl, inactive⟩ := h.severed _ ids' hids'
    exact ⟨l.cut id, new _ l hl, inactive⟩
  case distinct =>
    rw [objects]
    exact h.distinct

theorem Linked.disconnect (h : x.Linked severing) (id : ConnectionId) :
    (x.disconnect id).2.Linked severing :=
  h.of_cuts (h.cuts_disconnect id) rfl fun _ ids hids => ⟨ids, hids, fun _ hj _ => hj⟩

/-- A destruction cuts the first of the connections that it has still to cut. -/
theorem Linked.sever {ids : List ConnectionId} (h : x.Linked ((o, id :: ids) ::ₘ severing)) :
    (x.sever o id).2.Linked ((o, ids) ::ₘ severing) := by
  have empty : ∀ l, x.links? o = some l → l.outgoing = [] ∧ l.incoming = [] := by
    intro l hl
    obtain ⟨l', hl', inactive⟩ := h.severed o _ (Multiset.mem_cons_self _ _)
    obtain rfl : l = l' := Option.some.inj (hl.symm.trans hl')
    exact h.inactive o l hl inactive
  refine h.of_cuts (h.cuts_sever empty id) (by simp) fun o' ids' hids => ?_
  rcases Multiset.mem_cons.1 hids with e | hids
  · cases e
    refine ⟨ids, Multiset.mem_cons_self _ _, fun j hj ne => ?_⟩
    exact (List.mem_cons.1 hj).resolve_left ne
  · exact ⟨ids', Multiset.mem_cons_of_mem hids, fun _ hj _ => hj⟩

/-- A new object has no links yet, and there was none of its id. -/
theorem links?_register (x : Dispatcher) (owner : InstanceId) (metaClass : MetaClass)
    (context : Context) :
    x.links? (x.register owner metaClass context).1 = none ∧
      ∀ o, (x.register owner metaClass context).2.links? o =
        if o = (x.register owner metaClass context).1 then some ⟨.active, [], []⟩ else x.links? o := by
  let r : Registration := { owner, metaClass, context }
  refine ⟨congrArg (Option.map _) (x.objects.get?_key_insert r), fun o => ?_⟩
  show ((x.objects.insert r).2.get? o).map _ = _
  split
  · rename_i e
    rw [show o = (x.objects.insert r).1 from e, Arena.get?_insert_self]
    rfl
  · rename_i ne
    rw [Arena.get?_insert_of_ne _ _ ne]
    rfl

theorem Linked.register (h : x.Linked severing) (owner : InstanceId) (metaClass : MetaClass)
    (context : Context) : (x.register owner metaClass context).2.Linked severing := by
  obtain ⟨fresh, links⟩ := links?_register x owner metaClass context
  generalize (x.register owner metaClass context).1 = new at fresh links
  have connection : (x.register owner metaClass context).2.connection? = x.connection? := rfl
  generalize (x.register owner metaClass context).2 = y at links connection
  have old : ∀ o l, x.links? o = some l → y.links? o = some l := by
    intro o l hl
    rw [links, if_neg, hl]
    rintro rfl
    rw [fresh] at hl
    cases hl
  have listed : y.Listed := by
    refine h.listed.of_old connection fun o l hl => ?_
    rw [links] at hl
    split at hl
    · cases hl
      exact .inl ⟨rfl, rfl⟩
    · exact .inr hl
  refine { listed with
    sender := ?sender, receiver := ?receiver, severed := ?severed, distinct := h.distinct }
  case sender =>
    intro j c hc
    rw [connection] at hc
    rcases h.sender j c hc with ⟨l, hl, hj⟩ | severing
    · exact .inl ⟨l, old _ l hl, hj⟩
    · exact .inr severing
  case receiver =>
    intro j c o hc hr
    rw [connection] at hc
    rcases h.receiver j c o hc hr with ⟨l, hl, hj⟩ | severing
    · exact .inl ⟨l, old _ l hl, hj⟩
    · exact .inr severing
  case severed =>
    intro o ids hids
    obtain ⟨l, hl, inactive⟩ := h.severed o ids hids
    exact ⟨l, old o l hl, inactive⟩

/-! ## Making a connection -/

/-- The links of an object with a new connection. -/
def joined (l : Links) (c : Connection) (id : ConnectionId) (o : ObjectId) : Links :=
  { l with
    outgoing := if o = c.sender then l.outgoing ++ [(c.signal, id)] else l.outgoing
    incoming := if c.target.receiver? = some o then l.incoming ++ [id] else l.incoming }

theorem fst_link (x : Dispatcher) (c : Connection) : (x.link c).1 = (x.connections.insert c).1 := by
  unfold link
  dsimp only
  split <;> rfl

theorem connections_link (x : Dispatcher) (c : Connection) :
    (x.link c).2.connections = (x.connections.insert c).2 := by
  unfold link
  dsimp only
  split <;> rfl

theorem connection?_link (x : Dispatcher) (c : Connection) :
    x.connection? (x.link c).1 = none ∧
      ∀ j, (x.link c).2.connection? j = if j = (x.link c).1 then some c else x.connection? j := by
  rw [fst_link]
  refine ⟨Arena.get?_key_insert .., fun j => ?_⟩
  rw [connection?, connections_link]
  split
  · rename_i e
    rw [e, Arena.get?_insert_self]
  · rename_i ne
    rw [Arena.get?_insert_of_ne _ _ ne]
    rfl

theorem links?_link (x : Dispatcher) (c : Connection) (o : ObjectId) :
    (x.link c).2.links? o = (x.links? o).map (joined · c (x.link c).1 o) := by
  unfold link
  dsimp only
  cases hr : c.target.receiver? with
  | none =>
    dsimp only
    rw [links?_modifyObject (g := fun l =>
      { l with outgoing := l.outgoing ++ [(c.signal, (x.connections.insert c).1)] }) fun _ => rfl]
    refine congrArg (Option.map · _) (funext fun l => ?_)
    simp only [joined, hr, reduceCtorEq, if_false]
    split <;> rfl
  | some receiver =>
    dsimp only
    rw [links?_modifyObject (g := fun l =>
      { l with incoming := l.incoming ++ [(x.connections.insert c).1] }) fun _ => rfl,
      links?_modifyObject (g := fun l =>
      { l with outgoing := l.outgoing ++ [(c.signal, (x.connections.insert c).1)] }) fun _ => rfl,
      Option.map_map]
    have flip : some receiver = some o ↔ o = receiver := by simp [eq_comm]
    refine congrArg (Option.map · _) (funext fun l => ?_)
    simp only [Function.comp_apply, joined, hr, flip]
    split <;> split <;> rfl

theorem mem_outgoing_joined {signal : Nat} :
    (signal, id') ∈ (joined l c id o).outgoing ↔
      (signal, id') ∈ l.outgoing ∨ (o = c.sender ∧ signal = c.signal ∧ id' = id) := by
  unfold joined
  split <;> simp [*]

theorem mem_incoming_joined :
    id' ∈ (joined l c id o).incoming ↔
      id' ∈ l.incoming ∨ (c.target.receiver? = some o ∧ id' = id) := by
  show id' ∈ (if c.target.receiver? = some o then _ else _) ↔ _
  split <;> simp [*]

/-- A connection between active objects keeps the invariant. -/
theorem Linked.link (h : x.Linked severing) (admits : x.Admits c) :
    (x.link c).2.Linked severing := by
  obtain ⟨fresh, connections⟩ := connection?_link x c
  have links := links?_link x c
  generalize (x.link c).1 = new at fresh connections links
  generalize (x.link c).2 = y at connections links
  have old : ∀ o l', y.links? o = some l' → ∃ l, x.links? o = some l ∧ l' = joined l c new o := by
    intro o l' hl'
    rw [links] at hl'
    obtain ⟨l, hl, e⟩ := Option.map_eq_some_iff.1 hl'
    exact ⟨l, hl, e.symm⟩
  have now : ∀ o l, x.links? o = some l → y.links? o = some (joined l c new o) := by
    intro o l hl
    rw [links, hl]
    rfl
  have kept : ∀ j c', x.connection? j = some c' → y.connection? j = some c' := by
    intro j c' hc
    rw [connections, if_neg, hc]
    rintro rfl
    rw [fresh] at hc
    cases hc
  have made : y.connection? new = some c := by rw [connections, if_pos rfl]
  -- What is listed is there, and there was nothing under the new id.
  have unlisted : ∀ o l, x.links? o = some l → ¬ l.Has new := by
    intro o l hl has
    obtain ⟨c', hc, -⟩ := h.end_of_has hl has
    rw [fresh] at hc
    cases hc
  obtain ⟨ls, hls, sender_active⟩ := active?_isSome_iff.1 admits.sender
  constructor
  case nodup_outgoing =>
    intro o l' hl'
    obtain ⟨l, hl, rfl⟩ := old o l' hl'
    unfold joined
    dsimp only
    split
    · rw [List.map_append, List.nodup_append]
      refine ⟨h.nodup_outgoing o l hl, List.nodup_singleton _, ?_⟩
      rintro j hj _ hnew rfl
      obtain ⟨⟨signal, j⟩, hp, rfl⟩ := List.mem_map.1 hj
      obtain rfl := List.mem_singleton.1 hnew
      exact unlisted o l hl (.inl ⟨signal, hp⟩)
    · exact h.nodup_outgoing o l hl
  case nodup_incoming =>
    intro o l' hl'
    obtain ⟨l, hl, rfl⟩ := old o l' hl'
    unfold joined
    dsimp only
    split
    · rw [List.nodup_append]
      refine ⟨h.nodup_incoming o l hl, List.nodup_singleton _, ?_⟩
      rintro j hj _ hnew rfl
      obtain rfl := List.mem_singleton.1 hnew
      exact unlisted o l hl (.inr hj)
    · exact h.nodup_incoming o l hl
  case of_outgoing =>
    intro o l' signal j hl' hj
    obtain ⟨l, hl, rfl⟩ := old o l' hl'
    rcases mem_outgoing_joined.1 hj with hj | ⟨rfl, rfl, rfl⟩
    · obtain ⟨c', hc, hs⟩ := h.of_outgoing o l signal j hl hj
      exact ⟨c', kept j c' hc, hs⟩
    · exact ⟨c, made, rfl, rfl⟩
  case of_incoming =>
    intro o l' j hl' hj
    obtain ⟨l, hl, rfl⟩ := old o l' hl'
    rcases mem_incoming_joined.1 hj with hj | ⟨hr, rfl⟩
    · obtain ⟨c', hc, hr⟩ := h.of_incoming o l j hl hj
      exact ⟨c', kept j c' hc, hr⟩
    · exact ⟨c, made, hr⟩
  case inactive =>
    intro o l' hl' inactive
    obtain ⟨l, hl, rfl⟩ := old o l' hl'
    have not_sender : o ≠ c.sender := by
      rintro rfl
      obtain rfl := Option.some.inj (hl.symm.trans hls)
      exact inactive sender_active
    have not_receiver : c.target.receiver? ≠ some o := by
      intro hr
      obtain ⟨lr, hlr, active⟩ := active?_isSome_iff.1 (admits.receiver o hr)
      obtain rfl := Option.some.inj (hl.symm.trans hlr)
      exact inactive active
    rw [joined, if_neg not_sender, if_neg not_receiver]
    exact h.inactive o l hl inactive
  case sender =>
    intro j c' hc
    rw [connections] at hc
    split at hc
    · rename_i e
      obtain rfl := Option.some.inj hc
      exact .inl ⟨_, now _ ls hls, sender_active, mem_outgoing_joined.2 (.inr ⟨rfl, rfl, e⟩)⟩
    · rcases h.sender j c' hc with ⟨l, hl, active, hj⟩ | severing
      · exact .inl ⟨_, now _ l hl, active, mem_outgoing_joined.2 (.inl hj)⟩
      · exact .inr severing
  case receiver =>
    intro j c' o hc hr
    rw [connections] at hc
    split at hc
    · rename_i e
      obtain rfl := Option.some.inj hc
      obtain ⟨lr, hlr, active⟩ := active?_isSome_iff.1 (admits.receiver o hr)
      exact .inl ⟨_, now _ lr hlr, active, mem_incoming_joined.2 (.inr ⟨hr, e⟩)⟩
    · rcases h.receiver j c' o hc hr with ⟨l, hl, active, hj⟩ | severing
      · exact .inl ⟨_, now _ l hl, active, mem_incoming_joined.2 (.inl hj)⟩
      · exact .inr severing
  case severed =>
    intro o ids hids
    obtain ⟨l, hl, inactive⟩ := h.severed o ids hids
    exact ⟨_, now o l hl, inactive⟩
  case distinct => exact h.distinct

/-! ## Destroying an object -/

/-- The links of an object whose destruction has begun. -/
def taken : Links :=
  ⟨.destroying, [], []⟩

theorem beginDestroy?_eq_some {order : List Nat} {ids : List ConnectionId}
    (h : x.beginDestroy? order o = some (ids, y)) :
    ∃ l, x.links? o = some l ∧ l.state = .active ∧ ids.Perm (l.outgoing.map (·.2) ++ l.incoming) ∧
      y.connections = x.connections ∧
      ∀ o', y.links? o' = (x.links? o').map fun l => if o' = o then taken else l := by
  unfold beginDestroy? at h
  split at h
  · cases h
  · rename_i r hr
    cases h
    obtain ⟨hr, active⟩ := active?_eq_some_iff.1 hr
    refine ⟨r.links, ?_, active, (r.perm_outgoingBy order).append_right _, rfl, fun o' => ?_⟩
    · rw [links?, hr]
      rfl
    · exact links?_modifyObject (g := fun _ => taken) fun _ => rfl

/-- The destruction of an object takes its lists from it. -/
theorem Linked.beginDestroy {order : List Nat} {ids : List ConnectionId} (h : x.Linked severing)
    (begun : x.beginDestroy? order o = some (ids, y)) : y.Linked ((o, ids) ::ₘ severing) := by
  obtain ⟨lo, hlo, active, perm, connections, links⟩ := beginDestroy?_eq_some begun
  have connection : y.connection? = x.connection? := by
    funext j
    rw [connection?, connection?, connections]
  have listed : y.Listed := by
    refine h.listed.of_old connection fun o' l' hl' => ?_
    rw [links] at hl'
    obtain ⟨l, hl, e⟩ := Option.map_eq_some_iff.1 hl'
    split at e
    · exact .inl (e ▸ ⟨rfl, rfl⟩)
    · exact .inr (e ▸ hl)
  have kept : ∀ o' l, o' ≠ o → x.links? o' = some l → y.links? o' = some l := by
    intro o' l ne hl
    rw [links, hl, Option.map_some, if_neg ne]
  -- An object that is being destroyed is not active, so no destruction of `o` is under way.
  have apart : ∀ o' ids, (o', ids) ∈ severing → o' ≠ o := by
    rintro o' ids hids rfl
    obtain ⟨l, hl, inactive⟩ := h.severed _ ids hids
    obtain rfl := Option.some.inj (hl.symm.trans hlo)
    exact inactive active
  refine { listed with
    sender := ?sender, receiver := ?receiver, severed := ?severed, distinct := ?distinct }
  case sender =>
    intro j c hc
    rw [connection] at hc
    rcases h.sender j c hc with ⟨l, hl, hj⟩ | ⟨ids, hids, hj⟩
    · by_cases e : c.sender = o
      · subst e
        obtain rfl := Option.some.inj (hl.symm.trans hlo)
        refine .inr ⟨_, Multiset.mem_cons_self _ _, perm.mem_iff.2 (List.mem_append_left _ ?_)⟩
        exact List.mem_map_of_mem (f := (·.2)) hj.2
      · exact .inl ⟨l, kept _ l e hl, hj⟩
    · exact .inr ⟨ids, Multiset.mem_cons_of_mem hids, hj⟩
  case receiver =>
    intro j c o' hc hr
    rw [connection] at hc
    rcases h.receiver j c o' hc hr with ⟨l, hl, hj⟩ | ⟨ids, hids, hj⟩
    · by_cases e : o' = o
      · subst e
        obtain rfl := Option.some.inj (hl.symm.trans hlo)
        exact .inr ⟨_, Multiset.mem_cons_self _ _, perm.mem_iff.2 (List.mem_append_right _ hj.2)⟩
      · exact .inl ⟨l, kept _ l e hl, hj⟩
    · exact .inr ⟨ids, Multiset.mem_cons_of_mem hids, hj⟩
  case severed =>
    intro o' ids hids
    rcases Multiset.mem_cons.1 hids with e | hids
    · cases e
      refine ⟨taken, ?_, nofun⟩
      rw [links, hlo, Option.map_some, if_pos rfl]
    · obtain ⟨l, hl, inactive⟩ := h.severed o' ids hids
      exact ⟨l, kept o' l (apart o' ids hids) hl, inactive⟩
  case distinct =>
    rw [Multiset.map_cons, Multiset.nodup_cons]
    refine ⟨fun again => ?_, h.distinct⟩
    obtain ⟨⟨o', ids⟩, hids, e⟩ := Multiset.mem_map.1 again
    exact apart o' ids hids e

theorem links?_endDestroy :
    (x.endDestroy o).links? o' = if o' = o then none else x.links? o' := by
  show ((x.objects.erase o).get? o').map _ = _
  rw [Arena.get?_erase]
  split <;> rfl

/-- When all connections are cut, the object goes. -/
theorem Linked.endDestroy (h : x.Linked ((o, []) ::ₘ severing)) :
    (x.endDestroy o).Linked severing := by
  have listed : (x.endDestroy o).Listed := by
    refine h.listed.of_old rfl fun o' l hl => ?_
    rw [links?_endDestroy] at hl
    split at hl
    · cases hl
    · exact .inr hl
  have kept : ∀ o' l, o' ≠ o → x.links? o' = some l → (x.endDestroy o).links? o' = some l := by
    intro o' l ne hl
    rw [links?_endDestroy, if_neg ne, hl]
  -- The object has nothing left to be cut, so no connection leads to or from it.
  obtain ⟨lo, hlo, inactive⟩ := h.severed o [] (Multiset.mem_cons_self _ _)
  have active : ∀ o' l, x.links? o' = some l → l.state = .active → o' ≠ o := by
    rintro o' l hl active rfl
    obtain rfl := Option.some.inj (hl.symm.trans hlo)
    exact inactive active
  have distinct := h.distinct
  rw [Multiset.map_cons, Multiset.nodup_cons] at distinct
  have inside : ∀ o' j, (∃ ids, (o', ids) ∈ (o, []) ::ₘ severing ∧ j ∈ ids) →
      ∃ ids, (o', ids) ∈ severing ∧ j ∈ ids := by
    rintro o' j ⟨ids, hids, hj⟩
    rcases Multiset.mem_cons.1 hids with e | hids
    · cases e
      cases hj
    · exact ⟨ids, hids, hj⟩
  refine { listed with
    sender := ?sender, receiver := ?receiver, severed := ?severed, distinct := distinct.2 }
  case sender =>
    intro j c hc
    rcases h.sender j c hc with ⟨l, hl, hj⟩ | severing
    · exact .inl ⟨l, kept _ l (active _ l hl hj.1) hl, hj⟩
    · exact .inr (inside _ j severing)
  case receiver =>
    intro j c o' hc hr
    rcases h.receiver j c o' hc hr with ⟨l, hl, hj⟩ | severing
    · exact .inl ⟨l, kept _ l (active _ l hl hj.1) hl, hj⟩
    · exact .inr (inside _ j severing)
  case severed =>
    intro o' ids hids
    obtain ⟨l, hl, inactive⟩ := h.severed o' ids (Multiset.mem_cons_of_mem hids)
    refine ⟨l, kept o' l ?_ hl, inactive⟩
    rintro rfl
    exact distinct.1 (Multiset.mem_map_of_mem (·.1) hids)

/-! ## Ends of connections -/

/-- The ends of a connection are registered. -/
theorem Linked.end_ne_of_none (h : x.Linked severing) (none : x.object? o = none) {c : Connection}
    (hc : x.connection? id = some c) : c.sender ≠ o ∧ c.target.receiver? ≠ some o := by
  have unlinked : ∀ l, x.links? o ≠ some l := by
    intro l hl
    rw [links?, none] at hl
    cases hl
  refine ⟨?_, fun hr => ?_⟩
  · rintro rfl
    rcases h.sender id c hc with ⟨l, hl, -⟩ | ⟨ids, under, -⟩
    · exact unlinked l hl
    · obtain ⟨l, hl, -⟩ := h.severed _ _ under
      exact unlinked l hl
  · rcases h.receiver id c o hc hr with ⟨l, hl, -⟩ | ⟨ids, under, -⟩
    · exact unlinked l hl
    · obtain ⟨l, hl, -⟩ := h.severed _ _ under
      exact unlinked l hl

end Dispatcher
end Reflection

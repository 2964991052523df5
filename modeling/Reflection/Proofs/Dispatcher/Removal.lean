import Reflection.Proofs.Dispatcher.Counts
import Reflection.Proofs.Dispatcher.Matching
import Reflection.Proofs.Dispatcher.Relinking
/-!
# What goes when connections are cut

Cutting connections takes them, and nothing else, from a dispatcher: each list of a sender or receiver
has what is left of it in its old order, and everything else is as it was (`Dispatcher.Loses`). So it
is for one connection, for all connections of a sender (`Linked.loses_disconnectAll`), and for those of
an object that is destroyed, which goes with them (`Linked.loses_destroy`).
-/

namespace Reflection

namespace Registration

/-- A registration with those of its connections that are kept. -/
def keeping (r : Registration) (kept : ConnectionId → Bool) : Registration :=
  { r with
    outgoing := r.outgoing.filter fun p => kept p.2
    incoming := r.incoming.filter kept }

variable {r r' : Registration} {kept kept' : ConnectionId → Bool}

theorem keeping_all (r : Registration) : r.keeping (fun _ => true) = r := by
  simp [keeping]

theorem keeping_keeping (r : Registration) (kept kept' : ConnectionId → Bool) :
    (r.keeping kept).keeping kept' = r.keeping fun id => kept' id && kept id := by
  simp [keeping, List.filter_filter]

theorem keeping_congr (same : ∀ id, r.links.Has id → kept id = kept' id) :
    r.keeping kept = r.keeping kept' := by
  unfold keeping
  congr 1
  · exact List.filter_congr fun p hp => same p.2 (.inl ⟨p.1, hp⟩)
  · exact List.filter_congr fun id hid => same id (.inr hid)

/-- A registration is told by its links and all the rest. -/
theorem eq_of_bare (bare : r'.bare = r.bare) (links : r'.links = r.links) : r' = r := by
  have outgoing : r'.outgoing = r.outgoing := congrArg Links.outgoing links
  have incoming : r'.incoming = r.incoming := congrArg Links.incoming links
  have rebuilt : ∀ r : Registration, r = { r.bare with outgoing := r.outgoing, incoming := r.incoming } :=
    fun _ => rfl
  rw [rebuilt r', rebuilt r, bare, outgoing, incoming]

end Registration

namespace Dispatcher

variable {x y z : Dispatcher} {severing : Multiset (ObjectId × List ConnectionId)} {o s : ObjectId}
  {id : ConnectionId} {ids ids' : List ConnectionId} {r : Registration} {order : List Nat}

/-! ## Connections that are cut one by one -/

/-- Connections are gone from a dispatcher, and nothing else is different. -/
structure Drops (x y : Dispatcher) (ids : List ConnectionId) : Prop where
  connections : ∀ j, y.connection? j = if j ∈ ids then none else x.connection? j
  objects : ∀ o, y.object? o = (x.object? o).map (·.keeping (· ∉ ids))
  queues : y.queues = x.queues
  timeout : y.timeout = x.timeout

theorem Drops.nil (x : Dispatcher) : x.Drops x [] where
  connections j := by simp
  objects o := by simp [Registration.keeping_all]
  queues := rfl
  timeout := rfl

theorem Drops.append (h : x.Drops y ids) (h' : y.Drops z ids') : x.Drops z (ids ++ ids') where
  connections j := by
    rw [h'.connections, h.connections]
    by_cases first : j ∈ ids <;> by_cases second : j ∈ ids' <;> simp [first, second]
  objects o := by
    rw [h'.objects, h.objects, Option.map_map]
    refine congrArg (Option.map · _) (funext fun r => ?_)
    rw [Function.comp_apply, Registration.keeping_keeping]
    refine Registration.keeping_congr fun j _ => ?_
    by_cases first : j ∈ ids <;> by_cases second : j ∈ ids' <;> simp [first, second]
  queues := h'.queues.trans h.queues
  timeout := h'.timeout.trans h.timeout

/-- What is gone from everywhere is gone from the lists. -/
theorem Cuts.drops (cuts : x.Cuts y id) (relinked : x.Relinked y) : x.Drops y [id] where
  connections j := by simp [cuts.connections]
  objects o := by
    have links := cuts.links o
    have bare := relinked.objects o
    unfold links? at links
    cases hx : x.object? o with
    | none =>
      rw [hx] at bare
      exact Option.map_eq_none_iff.1 bare
    | some r =>
      rw [hx] at links bare
      obtain ⟨r', hy, same⟩ := Option.map_eq_some_iff.1 bare
      rw [hy] at links
      have linked : r'.links = (r.keeping (· ∉ [id])).links := by
        simpa [Registration.links, Registration.keeping, Links.cut] using links
      have whole : r' = r.keeping (· ∉ [id]) := Registration.eq_of_bare (same.trans rfl) linked
      rw [hy, Option.map_some, whole]
  queues := relinked.queues
  timeout := relinked.timeout

theorem Linked.drops_disconnect (h : x.Linked severing) (id : ConnectionId) :
    x.Drops (x.disconnect id).2 [id] :=
  (h.cuts_disconnect id).drops (x.relinked_disconnect id)

theorem Linked.drops_sever (h : x.Linked ((o, id :: ids) ::ₘ severing)) :
    x.Drops (x.sever o id).2 [id] := by
  obtain ⟨l, hl, inactive⟩ := h.severed o _ (Multiset.mem_cons_self _ _)
  refine (h.cuts_sever (fun l' hl' => ?_) id).drops (x.relinked_sever o id)
  obtain rfl := Option.some.inj (hl'.symm.trans hl)
  exact h.inactive o _ hl inactive

theorem Linked.drops_disconnectEach (h : x.Linked severing) (ids : List ConnectionId) :
    x.Drops (x.disconnectEach ids).2 ids := by
  induction ids generalizing x with
  | nil => exact .nil x
  | cons id ids ih => exact (h.drops_disconnect id).append (ih (h.disconnect id))

/-- Each connection that there is counts once. -/
theorem Linked.fst_disconnectEach (h : x.Linked severing) (nodup : ids.Nodup)
    (live : ∀ j ∈ ids, (x.connection? j).isSome) : (x.disconnectEach ids).1 = ids.length := by
  induction ids generalizing x with
  | nil => rfl
  | cons id ids ih =>
    obtain ⟨fresh, nodup⟩ := List.nodup_cons.1 nodup
    obtain ⟨c, hc⟩ := Option.isSome_iff_exists.1 (live id List.mem_cons_self)
    have cut : (x.disconnect id).1.isSome = true := by
      rw [Dispatcher.disconnect, show x.connections.get? id = some c from hc]
      dsimp only
      split <;> rfl
    have rest : ((x.disconnect id).2.disconnectEach ids).1 = ids.length := by
      refine ih (h.disconnect id) nodup fun j hj => ?_
      have other : j ∉ [id] := by
        rintro (_ | ⟨_, ⟨⟩⟩)
        exact fresh hj
      rw [(h.drops_disconnect id).connections, if_neg other]
      exact live j (List.mem_cons_of_mem _ hj)
    rw [disconnectEach]
    simp only [cut, if_true, rest, List.length_cons]

/-- A destruction that goes on undisturbed cuts all that it has to cut. -/
theorem Linked.drops_severEach (h : x.Linked ((o, ids) ::ₘ severing)) :
    x.Drops (x.severEach o ids) ids := by
  induction ids generalizing x with
  | nil => exact .nil x
  | cons id ids ih => exact h.drops_sever.append (ih h.sever)

/-! ## What is lost -/

/-- A dispatcher has lost connections, and maybe an object, and nothing else is different: in each list
of an object that is left, those of its connections that there still are stand in their old order. -/
structure Loses (x y : Dispatcher) (lost : ConnectionId → Connection → Prop) (gone : Option ObjectId) :
    Prop where
  connections : ∀ id c, y.connections.get? id = some c ↔ x.connections.get? id = some c ∧ ¬ lost id c
  objects : ∀ o, y.object? o = if gone = some o then none else
    (x.object? o).map (·.keeping fun id => (y.connections.get? id).isSome)
  queues : y.queues = x.queues
  timeout : y.timeout = x.timeout

/-- What is listed is there, so a list without what was cut is a list of what is left. -/
theorem Linked.loses (h : x.Linked severing) {lost : ConnectionId → Connection → Prop}
    {gone : Option ObjectId} (among : ∀ j c, x.connection? j = some c → (j ∈ ids ↔ lost j c))
    (connections : ∀ j, y.connection? j = if j ∈ ids then none else x.connection? j)
    (objects : ∀ o, y.object? o =
      if gone = some o then none else (x.object? o).map (·.keeping (· ∉ ids)))
    (queues : y.queues = x.queues) (timeout : y.timeout = x.timeout) : x.Loses y lost gone where
  connections j c := by
    show y.connection? j = some c ↔ x.connection? j = some c ∧ ¬ lost j c
    rw [connections]
    constructor
    · intro hc
      split at hc
      · cases hc
      · rename_i other
        exact ⟨hc, fun is => other ((among j c hc).2 is)⟩
    · rintro ⟨hc, other⟩
      rw [if_neg fun hj => other ((among j c hc).1 hj), hc]
  objects o := by
    rw [objects]
    split
    · rfl
    · cases hr : x.object? o with
      | none => rfl
      | some r =>
        refine congrArg some (Registration.keeping_congr fun j has => ?_)
        obtain ⟨c, hc, -⟩ := h.end_of_has (links?_of_object? hr) has
        show _ = (y.connection? j).isSome
        rw [connections, hc]
        by_cases hj : j ∈ ids <;> simp [hj]
  queues := queues
  timeout := timeout

theorem Linked.loses_of_drops (h : x.Linked severing) {lost : ConnectionId → Connection → Prop}
    (among : ∀ j c, x.connection? j = some c → (j ∈ ids ↔ lost j c)) (drops : x.Drops y ids) :
    x.Loses y lost none :=
  h.loses among drops.connections (by simpa using drops.objects) drops.queues drops.timeout

/-- Cutting a connection. -/
theorem Linked.loses_disconnect (h : x.Linked severing) (id : ConnectionId) :
    x.Loses (x.disconnect id).2 (fun j _ => j = id) none :=
  h.loses_of_drops (fun j c _ => by simp) (h.drops_disconnect id)

/-! ## All connections of a sender -/

/-- The list of a sender that is active, and that of one that is not registered, has the connections
from it. -/
theorem Linked.mem_outgoing (h : x.Linked severing) (settled : ∀ r, x.object? s = some r → r.isActive)
    {c : Connection} (hc : x.connection? id = some c) : id ∈ x.outgoing order s ↔ c.sender = s := by
  constructor
  · intro listed
    unfold outgoing at listed
    cases hr : x.object? s with
    | none =>
      rw [hr] at listed
      cases listed
    | some r =>
      rw [hr] at listed
      obtain ⟨⟨signal, j⟩, hp, rfl⟩ := List.mem_map.1 ((r.perm_outgoingBy order).mem_iff.1 listed)
      obtain ⟨c', hc', sends, -⟩ := h.of_outgoing s _ signal _ (links?_of_object? hr) hp
      obtain rfl := Option.some.inj (hc.symm.trans hc')
      exact sends
  · rintro rfl
    rcases h.sender id c hc with ⟨l, hl, -, listed⟩ | ⟨ids, under, -⟩
    · obtain ⟨r, hr, rfl⟩ := Option.map_eq_some_iff.1 hl
      rw [outgoing, hr]
      exact (r.perm_outgoingBy order).mem_iff.2 (List.mem_map.2 ⟨(c.signal, id), listed, rfl⟩)
    · obtain ⟨l, hl, inactive⟩ := h.severed _ ids under
      obtain ⟨r, hr, rfl⟩ := Option.map_eq_some_iff.1 hl
      exact absurd (of_decide_eq_true (settled r hr)) inactive

theorem Linked.live_of_outgoing (h : x.Linked severing) (listed : id ∈ x.outgoing order s) :
    (x.connection? id).isSome := by
  unfold outgoing at listed
  cases hr : x.object? s with
  | none =>
    rw [hr] at listed
    cases listed
  | some r =>
    rw [hr] at listed
    obtain ⟨⟨signal, j⟩, hp, rfl⟩ := List.mem_map.1 ((r.perm_outgoingBy order).mem_iff.1 listed)
    obtain ⟨c, hc, -⟩ := h.of_outgoing s _ signal _ (links?_of_object? hr) hp
    rw [hc]
    rfl

theorem Linked.nodup_outgoing_ids (h : x.Linked severing) (order : List Nat) (s : ObjectId) :
    (x.outgoing order s).Nodup := by
  unfold outgoing
  cases hr : x.object? s with
  | none => exact .nil
  | some r =>
    exact (r.perm_outgoingBy order).nodup_iff.2 (h.nodup_outgoing s _ (links?_of_object? hr))

/-- Cutting all connections of a sender. -/
theorem Linked.loses_disconnectAll (h : x.Linked severing)
    (settled : ∀ r, x.object? s = some r → r.isActive) (order : List Nat) :
    x.Loses (x.disconnectAll order s).2 (fun _ c => c.sender = s) none :=
  h.loses_of_drops (fun _ _ hc => h.mem_outgoing settled hc) (h.drops_disconnectEach _)

/-- They are counted. -/
theorem Linked.fst_disconnectAll (h : x.Linked severing)
    (settled : ∀ r, x.object? s = some r → r.isActive) (order : List Nat) :
    (x.disconnectAll order s).1 = (x.connections.toList.filter fun p => p.2.sender = s).length := by
  have nodup : ((x.connections.toList.filter fun p => p.2.sender = s).map (·.1)).Nodup :=
    x.connections.nodup_keys.sublist (List.filter_sublist.map _)
  have perm : (x.outgoing order s).Perm
      ((x.connections.toList.filter fun p => p.2.sender = s).map (·.1)) := by
    refine (List.perm_ext_iff_of_nodup (h.nodup_outgoing_ids order s) nodup).2 fun j => ?_
    rw [List.mem_map]
    constructor
    · intro listed
      obtain ⟨c, hc⟩ := Option.isSome_iff_exists.1 (h.live_of_outgoing listed)
      have sends := (h.mem_outgoing settled hc).1 listed
      exact ⟨(j, c), List.mem_filter.2 ⟨Arena.mem_toList.2 hc, decide_eq_true sends⟩, rfl⟩
    · rintro ⟨⟨j, c⟩, found, rfl⟩
      obtain ⟨hc, sends⟩ := List.mem_filter.1 found
      exact (h.mem_outgoing settled (Arena.mem_toList.1 hc)).2 (of_decide_eq_true sends)
  rw [disconnectAll, h.fst_disconnectEach (h.nodup_outgoing_ids order s) fun _ => h.live_of_outgoing,
    perm.length_eq, List.length_map]

/-- An object whose destruction is under way has its list taken from it already. -/
theorem Linked.outgoing_of_inactive (h : x.Linked severing) (hr : x.object? s = some r)
    (inactive : r.isActive = false) : x.outgoing order s = [] := by
  obtain ⟨empty, -⟩ := h.inactive s _ (links?_of_object? hr) (of_decide_eq_false inactive)
  have none : (r.outgoingBy order).Perm [] := by
    have perm := r.perm_outgoingBy order
    rwa [show r.outgoing = [] from empty] at perm
  rw [outgoing, hr, Option.map_some, Option.getD_some, none.eq_nil]

/-- After all connections of a sender were cut, its list is empty. -/
theorem Loses.outgoing {lost : ConnectionId → Connection → Prop} (loses : x.Loses y lost none)
    (h : y.Linked severing) (all : ∀ id c, c.sender = s → lost id c) : y.outgoing order s = [] := by
  refine List.eq_nil_iff_forall_not_mem.2 fun id listed => ?_
  unfold Dispatcher.outgoing at listed
  cases hr : y.object? s with
  | none =>
    rw [hr] at listed
    cases listed
  | some r =>
    rw [hr] at listed
    obtain ⟨⟨signal, j⟩, hp, rfl⟩ := List.mem_map.1 ((r.perm_outgoingBy order).mem_iff.1 listed)
    obtain ⟨c, hc, sends, -⟩ := h.of_outgoing s _ signal _ (links?_of_object? hr) hp
    exact ((loses.connections _ c).1 hc).2 (all _ c sends)

/-! ## Destroying an object -/

/-- The lists of an active object have the connections from it and those to it. -/
theorem Linked.mem_ends (h : x.Linked severing) (hr : x.object? o = some r) (active : r.state = .active)
    {c : Connection} (hc : x.connection? id = some c) :
    id ∈ r.outgoingBy order ++ r.incoming ↔ c.sender = o ∨ c.target.receiver? = some o := by
  have links := links?_of_object? hr
  rw [List.mem_append, (r.perm_outgoingBy order).mem_iff]
  constructor
  · rintro (listed | listed)
    · obtain ⟨⟨signal, j⟩, hp, rfl⟩ := List.mem_map.1 listed
      obtain ⟨c', hc', sends, -⟩ := h.of_outgoing o _ signal _ links hp
      exact .inl (Option.some.inj (hc.symm.trans hc') ▸ sends)
    · obtain ⟨c', hc', receives⟩ := h.of_incoming o _ id links listed
      exact .inr (Option.some.inj (hc.symm.trans hc') ▸ receives)
  · -- No destruction of `o` is under way, since it is active.
    have apart : ∀ ids, (o, ids) ∉ severing := by
      intro ids under
      obtain ⟨l, hl, inactive⟩ := h.severed o ids under
      exact inactive (Option.some.inj (hl.symm.trans links) ▸ active)
    rintro (rfl | receives)
    · rcases h.sender id c hc with ⟨l, hl, -, listed⟩ | ⟨ids, under, -⟩
      · obtain rfl := Option.some.inj (hl.symm.trans links)
        exact .inl (List.mem_map.2 ⟨(c.signal, id), listed, rfl⟩)
      · exact absurd under (apart ids)
    · rcases h.receiver id c o hc receives with ⟨l, hl, -, listed⟩ | ⟨ids, under, -⟩
      · obtain rfl := Option.some.inj (hl.symm.trans links)
        exact .inr listed
      · exact absurd under (apart ids)

/-- Destroying an active object. -/
theorem Linked.loses_destroy (h : x.Linked severing) (active : x.contains o) (order : List Nat) :
    (x.destroy order o).1 = true ∧
      x.Loses (x.destroy order o).2 (fun _ c => c.sender = o ∨ c.target.receiver? = some o) (some o) := by
  obtain ⟨r, hr⟩ := Option.isSome_iff_exists.1 active
  obtain ⟨object, state⟩ := active?_eq_some_iff.1 hr
  let ids := r.outgoingBy order ++ r.incoming
  let taken (r : Registration) : Registration :=
    { r with state := .destroying, outgoing := [], incoming := [] }
  have begun : x.beginDestroy? order o = some (ids, x.modifyObject o taken) := by
    rw [beginDestroy?, hr]
  have drops := (h.beginDestroy begun).drops_severEach
  have destroyed : x.destroy order o = (true, ((x.modifyObject o taken).severEach o ids).endDestroy o) := by
    rw [destroy, begun]
  rw [destroyed]
  refine ⟨rfl, h.loses (fun _ _ => h.mem_ends object state) drops.connections (fun o' => ?_)
    (drops.queues.trans rfl) (drops.timeout.trans rfl)⟩
  show ((((x.modifyObject o taken).severEach o ids).objects.erase o).get? o') = _
  rw [Arena.get?_erase]
  by_cases same : o' = o
  · simp [same]
  · have other : ¬ some o = some o' := fun e => same (Option.some.inj e).symm
    rw [if_neg same, if_neg other]
    show ((x.modifyObject o taken).severEach o ids).object? o' = _
    rw [drops.objects, object?_modifyObject]
    simp only [if_neg same, Option.map_id']
    rfl

end Dispatcher
end Reflection

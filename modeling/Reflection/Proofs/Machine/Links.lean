import Reflection.Proofs.Dispatcher.Counts
import Reflection.Proofs.Machine.Handles
/-!
# Links agree with connections in every run

Whatever client code does, in slots and while objects are destroyed too, the links of each dispatcher
agree with its connections (`linked_run`). An operation on a dispatcher holds it, so a dispatcher is
never closed in the middle of a destruction.
-/

namespace Reflection

open Reflection.Frame (allHandles allSeverings allSeverings_add)

/-- Handles are counted and links agree with connections. -/
structure Sorted (s : Shared) (fs : Multiset Frame) : Prop where
  counted : Counted s fs
  linked : ∀ d, (s.dispatcher d).Linked (allSeverings d fs)

variable {s s' : Shared} {d : DispatcherId} {others : Multiset Frame}

theorem allSeverings_cons (f : Frame) (fs : List Frame) :
    allSeverings d ((f :: fs : List Frame) + others) =
      (f.severingsOf d : Multiset (ObjectId × List ConnectionId)) + allSeverings d (fs + others) := by
  rw [← Multiset.cons_coe, Multiset.cons_add, allSeverings, Multiset.cons_bind]
  rfl

theorem allSeverings_of_eq {old new : List Frame}
    (h : new.flatMap (·.severings) = old.flatMap (·.severings)) :
    allSeverings d (new + others) = allSeverings d (old + others) := by
  rw [allSeverings_add, allSeverings_add, h]

theorem allSeverings_severing (o : ObjectId) (ids : List ConnectionId) (held : List Held)
    (reply : Reply) (fs : List Frame) (d' : DispatcherId) :
    allSeverings d' ((.severing d o ids held reply :: fs : List Frame) + others) =
      if d' = d then (o, ids) ::ₘ allSeverings d' (fs + others)
      else allSeverings d' (fs + others) := by
  rw [allSeverings_cons]
  by_cases e : d' = d
  · simp [Frame.severingsOf, Frame.severings, e]
  · simp [Frame.severingsOf, Frame.severings, e, Ne.symm e]

theorem allSeverings_releasing (held : List Held) (reply : Reply) (fs : List Frame)
    (d' : DispatcherId) :
    allSeverings d' ((.releasing held reply :: fs : List Frame) + others) =
      allSeverings d' (fs + others) := by
  rw [allSeverings_cons]
  exact zero_add _

/-- A dispatcher that some frame holds is not gone. -/
theorem Counted.opened (h : Counted s others) {f : Frame} (hf : f ∈ others) (hd : d ∈ f.handles) :
    0 < s.handles d := by
  have : d ∈ allHandles others := Multiset.mem_bind.2 ⟨f, hf, Multiset.mem_coe.2 hd⟩
  have := Multiset.count_pos.2 this
  have := h d
  omega

theorem mem_severingsOf {f : Frame} {o : ObjectId} {ids : List ConnectionId} :
    (o, ids) ∈ f.severingsOf d ↔ ∃ held reply, f = .severing d o ids held reply := by
  constructor
  · intro h
    cases f with
    | severing d' o' ids' held reply =>
      obtain ⟨⟨d'', o'', ids''⟩, hp, e⟩ := List.mem_filterMap.1 h
      cases List.mem_singleton.1 hp
      dsimp only at e
      split at e
      · rename_i same
        cases e
        exact ⟨held, reply, same ▸ rfl⟩
      · cases e
    | _ => cases h
  · rintro ⟨held, reply, rfl⟩
    simp [Frame.severingsOf, Frame.severings]

theorem Sorted.alike {old new : List Frame} (h : Sorted s (old + others)) (alike : s.Alike s')
    (carries : Carries old new) : Sorted s' (new + others) := by
  refine ⟨h.counted.alike alike carries, fun d => ?_⟩
  rw [allSeverings_of_eq carries.severings]
  exact (h.linked d).alike (alike.dispatcher d)

/-- No object is being destroyed while nothing holds the dispatcher. -/
theorem allSeverings_eq_zero {fs : Multiset Frame} (sound : ∀ f ∈ fs, f.Sound)
    (free : (allHandles fs).count d = 0) : allSeverings d fs = 0 := by
  refine Multiset.eq_zero_of_forall_notMem fun ⟨o, ids⟩ hp => ?_
  obtain ⟨f, hf, hp⟩ := Multiset.mem_bind.1 hp
  obtain ⟨held, reply, rfl⟩ := mem_severingsOf.1 (Multiset.mem_coe.1 hp)
  exact Multiset.count_eq_zero.1 free
    (Multiset.mem_bind.2 ⟨_, hf, Multiset.mem_coe.2 (sound _ hf).1⟩)

theorem sorted_turn {old new : List Frame} (turn : Turn (s, old) (s', new))
    (sound : ∀ f ∈ old, f.Sound) (sound' : ∀ f ∈ others, f.Sound) (h : Sorted s (old + others)) :
    Sorted s' (new + others) := by
  have counted := counted_turn turn h.counted
  refine ⟨counted, fun d' => ?_⟩
  have linked := h.linked d'
  have sound_new : ∀ f ∈ (new : Multiset Frame) + others, f.Sound := fun f hf =>
    (Multiset.mem_add.1 hf).elim (fun hf => turn.sound sound f (Multiset.mem_coe.1 hf)) (sound' f)
  have kept : ∀ {d : DispatcherId} {x : Dispatcher} {S : Multiset (ObjectId × List ConnectionId)},
      ((s.dispatcher d).Linked S → x.Linked S) → (s.dispatcher d').Linked S →
      ((s.setDispatcher d x).dispatcher d').Linked S := fun hx hl =>
    Shared.setDispatcher_rel (R := fun x y => x.Linked _ → y.Linked _) (fun _ h => h) hx d' hl
  cases turn with
  | work alike carries => exact (h.alike alike carries).linked d'
  | host timeout =>
    rcases s.addDispatcher_views timeout d' with ⟨-, -, e⟩ | ⟨-, -, -, e, -, -, e'⟩
    · rw [e]
      exact linked
    · rw [e] at linked
      rw [e']
      exact linked.alike ⟨rfl, rfl⟩
  | share =>
    rw [Shared.dispatcher_share]
    exact linked
  | disown =>
    rw [Shared.dispatcher_disown, allSeverings_releasing]
    exact linked
  | hold _ opens =>
    rw [Shared.dispatcher_retain, allSeverings_of_eq opens.severings]
    exact linked
  | release =>
    rw [Shared.dispatcher_letGo, allSeverings_releasing]
    rwa [allSeverings_releasing] at linked
  | @close _ d held reply fs last =>
    by_cases e : d' = d
    · subst e
      have opened : 0 < s.handles d' := last ▸ Nat.one_pos
      have none : (s.letGo (.dispatcher d')).2.handles d' = 0 := by
        have := Shared.handles_letGo opened d'
        simp only [if_true] at this
        omega
      have count := counted d'
      rw [Shared.handles_setDispatcher, none] at count
      -- A destruction holds its dispatcher, so none is under way when the last handle goes.
      rw [allSeverings_eq_zero sound_new (by omega), Shared.dispatcher_close opened]
      exact Dispatcher.linked_of_empty (fun _ => rfl) fun _ => rfl
    · rw [allSeverings_releasing] at linked ⊢
      rw [Shared.dispatcher_setDispatcher_of_ne e, Shared.dispatcher_letGo]
      exact linked
  | register opened registered =>
    obtain ⟨metaClass, instances, rfl⟩ := Shared.register_eq_ok registered
    exact kept (fun h => h.register _ _ _) linked
  | cut d id => exact kept (fun h => h.disconnect id) linked
  | @destroy _ d _ o ids x held reply fs begun holds =>
    have opened : 0 < s.handles d := h.counted.opened
      (Multiset.mem_add.2 (.inl (Multiset.mem_coe.2 List.mem_cons_self))) holds
    rw [allSeverings_releasing] at linked
    rw [allSeverings_severing]
    split
    · rename_i e
      subst e
      rw [Shared.dispatcher_setDispatcher opened]
      exact linked.beginDestroy begun
    · rename_i ne
      rw [Shared.dispatcher_setDispatcher_of_ne ne]
      exact linked
  | @sever _ d o id ids held reply fs =>
    have opened : 0 < s.handles d := h.counted.opened
      (Multiset.mem_add.2 (.inl (Multiset.mem_coe.2 List.mem_cons_self)))
      (sound _ List.mem_cons_self).1
    rw [allSeverings_severing] at linked ⊢
    split
    · rename_i e
      subst e
      rw [if_pos rfl] at linked
      rw [Shared.dispatcher_setDispatcher opened]
      exact linked.sever
    · rename_i ne
      rw [if_neg ne] at linked
      rw [Shared.dispatcher_setDispatcher_of_ne ne]
      exact linked
  | @severed _ d o held reply fs =>
    have opened : 0 < s.handles d := h.counted.opened
      (Multiset.mem_add.2 (.inl (Multiset.mem_coe.2 List.mem_cons_self)))
      (sound _ List.mem_cons_self).1
    rw [allSeverings_severing] at linked
    rw [allSeverings_releasing]
    split at linked
    · rename_i e
      subst e
      rw [Shared.dispatcher_setDispatcher opened]
      exact linked.endDestroy
    · rename_i ne
      rw [Shared.dispatcher_setDispatcher_of_ne ne]
      exact linked

theorem kept_sorted : Kept Sorted where
  turn s s' old new others turn sound sound' h := sorted_turn turn sound sound' h
  skip s s' old new others skips h := h.alike skips.alike skips.carries
  connect s s' fs connects h := by
    cases connects with
    | @link d c opened admits =>
      refine ⟨h.counted.congr (fun _ => Shared.handles_setDispatcher _)
        (fun _ => Shared.owned_setDispatcher _) rfl, fun d' => ?_⟩
      have linked := h.linked d'
      rcases Shared.dispatcher_setDispatcher_or (s := s) (d := d) d' ((s.dispatcher d).link c).2 with e | ⟨rfl, e⟩
      · rw [e]
        exact linked
      · rw [e]
        exact linked.link admits

/-- After every run the handles are counted and the links of each dispatcher agree with its
connections, but for the objects that are just being destroyed. -/
theorem sorted_run (r : Registry) (moves : List Machine.Move) :
    Sorted ((Machine.start r).run moves).shared ((Machine.start r).run moves).frames := by
  refine kept_sorted.run (Machine.sound_start r) ⟨fun d => rfl, fun d => ?_⟩ moves
  exact Dispatcher.linked_of_empty (fun _ => rfl) fun _ => rfl

/-! ## Main theorem -/

namespace Machine

/-- An object of a dispatcher is being destroyed: some of its connections may be cut already, others
not yet. -/
def Destroys (m : Machine) (d : DispatcherId) : Prop :=
  ∃ th ∈ m.threads, ∃ o ids held reply, .severing d o ids held reply ∈ th.frames

theorem allSeverings_of_not_destroys {m : Machine} (h : ¬ m.Destroys d) :
    allSeverings d m.frames = 0 := by
  refine Multiset.eq_zero_of_forall_notMem fun ⟨o, ids⟩ hp => h ?_
  obtain ⟨f, hf, hp⟩ := Multiset.mem_bind.1 hp
  obtain ⟨held, reply, rfl⟩ := mem_severingsOf.1 (Multiset.mem_coe.1 hp)
  obtain ⟨th, hth, hf⟩ := List.mem_flatMap.1 (Multiset.mem_coe.1 hf)
  exact ⟨th, hth, o, ids, held, reply, hf⟩

theorem linked_of_not_destroys {r : Registry} {moves : List Move}
    (h : ¬ ((start r).run moves).Destroys d) :
    (((start r).run moves).shared.dispatcher d).Linked 0 :=
  allSeverings_of_not_destroys h ▸ (sorted_run r moves).linked d

/-- After every run, in the middle of other operations too, unless an object of the dispatcher is just
being destroyed:

* the ends of each connection are active;
* a connection is once in the list of its sender with its own signal, once in the list of its
  receiver if it has one, and in no other list;
* all that is in a list is such a connection;
* the lists of all senders together are as long as there are connections;
* the receivers of a signal are as many as there are connections of it. -/
theorem links_agree_with_connections (r : Registry) (moves : List Move) (d : DispatcherId)
    (complete : ¬ ((start r).run moves).Destroys d) :
    let x := ((start r).run moves).shared.dispatcher d
    (∀ id c, x.connections.get? id = some c →
      x.contains c.sender ∧ (∀ o, c.target.receiver? = some o → x.contains o) ∧
      ∀ o reg, x.object? o = some reg →
        (∀ signal, (reg.outgoingOf signal).count id =
          if c.sender = o ∧ c.signal = signal then 1 else 0) ∧
        reg.incoming.count id = if c.target.receiver? = some o then 1 else 0) ∧
    (∀ o reg, x.object? o = some reg →
      (∀ signal id, (signal, id) ∈ reg.outgoing →
        ∃ c, x.connections.get? id = some c ∧ c.sender = o ∧ c.signal = signal) ∧
      ∀ id ∈ reg.incoming, ∃ c, x.connections.get? id = some c ∧ c.target.receiver? = some o) ∧
    (x.objects.toList.map fun p => p.2.outgoing.length).sum = x.connections.size ∧
    ∀ o text, x.receivers o text = (x.connections.toList.filter fun p => p.2.sender = o ∧
      (x.object? o).bind (·.metaClass.indexOfSignal? text) = some p.2.signal).length := by
  intro x
  have h : x.Linked 0 := linked_of_not_destroys complete
  refine ⟨fun id c hc => ⟨h.contains_sender hc, fun o hr => h.contains_receiver hc hr, ?_⟩, ?_,
    h.sum_outgoing, h.receivers_eq⟩
  · exact fun o reg hr => ⟨h.count_outgoingOf hc hr, h.count_incoming hc hr⟩
  · exact fun o reg hr => ⟨fun signal id => (h.mem_outgoing_iff hr).1, fun id => (h.mem_incoming_iff hr).1⟩

/-! ### A run -/

/-- A class with a signal and a slot. -/
def bell : ClassTable where
  className := 0
  superClass := none
  strings := ["Bell", "rung", "rung()", "void", "hear", "hear()"]
  classInfo := []
  methods :=
    [{ name := 1, signature := 2, digest := 0, returnType := 3, parameterTypes := []
       declaredTypes := [], parameterNames := [], kind := .signal, access := .isPublic
       cloned := false },
     { name := 4, signature := 5, digest := 0, returnType := 3, parameterTypes := []
       declaredTypes := [], parameterNames := [], kind := .slot, access := .isPublic
       cloned := false }]
  properties := []
  enums := []

/-- The registry that knows the bell only. -/
def bells : Registry :=
  (({} : Registry).add bell).2

/-- A bell is registered and its signal connected to its own slot. -/
def hang : List Move :=
  [.spawn, .act 0 (.newDispatcher none), .act 0 (.newObject "Bell"), .act 0 (.register 0 0),
    .act 0 (.connectByIndex 0 ⟨0, 1⟩ 0 ⟨0, 1⟩ 1 .direct)]

/-- The connection of a bell with itself is once in each of its lists. -/
theorem hung_bell_is_linked :
    let m := (start bells).run hang
    ¬ m.Destroys 0 ∧ (m.shared.dispatcher 0).connections.size = 1 ∧
      ((m.shared.dispatcher 0).objects.toList.map fun p => p.2.outgoing.length).sum = 1 := by
  intro m
  have frames : ∀ th ∈ m.threads, th.frames = [.body .program] := List.forall_mem_singleton.2 rfl
  have complete : ¬ m.Destroys 0 := by
    rintro ⟨th, hth, o, ids, held, reply, h⟩
    rw [frames th hth] at h
    cases List.mem_singleton.1 h
  have size : (m.shared.dispatcher 0).connections.size = 1 := by decide
  have agree := links_agree_with_connections bells hang 0 complete
  exact ⟨complete, size, agree.2.2.1.trans size⟩

end Machine
end Reflection

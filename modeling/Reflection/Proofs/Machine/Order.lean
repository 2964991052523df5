import Reflection.Proofs.Dispatcher.Order
import Reflection.Proofs.Machine.Links
/-!
# Connections are listed in the order in which they were made

A connection that was cut never comes back (`lost_run`), so what is there after a run was made by one
move of it (`MadeAt`). The list of a sender is in the order of these moves (`outgoing_in_order`).
-/

namespace Reflection

variable {s s' : Shared} {d : DispatcherId} {id : ConnectionId}

/-! ## Dispatchers that are closed -/

namespace Shared

/-- A dispatcher was there and has no handle any more. -/
def Closed (s : Shared) (d : DispatcherId) : Prop :=
  d < s.dispatchers.length ∧ s.handles d = 0

theorem Closed.congr (h : s.Closed d) (size : s'.dispatchers.length = s.dispatchers.length)
    (handles : s'.handles d = s.handles d) : s'.Closed d :=
  ⟨size ▸ h.1, handles.trans h.2⟩

theorem Closed.setDispatcher (h : s.Closed d) (d' : DispatcherId) (x : Dispatcher) :
    (s.setDispatcher d' x).Closed d :=
  h.congr (size_setDispatcher x) (handles_setDispatcher x)

/-- A handle of another dispatcher does not open a closed one. -/
theorem Closed.of_opened {d' : DispatcherId} (h : s.Closed d) (opened : 0 < s.handles d')
    (size : s'.dispatchers.length = s.dispatchers.length)
    (handles : s'.handles d = s.handles d + if d' = d then 1 else 0) : s'.Closed d := by
  have ne : d' ≠ d := by
    rintro rfl
    exact Nat.lt_irrefl 0 (h.2 ▸ opened)
  rw [if_neg ne, Nat.add_zero] at handles
  exact h.congr size handles

theorem size_letGo (h : Held) : (s.letGo h).2.dispatchers.length = s.dispatchers.length := by
  cases h with
  | dispatcher d => exact List.length_modify ..
  | object i => rfl
  | callback c => rfl
  | completion k => rfl

theorem handles_letGo_le (d' : DispatcherId) :
    (s.letGo (.dispatcher d)).2.handles d' ≤ s.handles d' := by
  rcases Nat.eq_zero_or_pos (s.handles d) with none | opened
  · simp only [handles, letGo, List.getElem?_modify] at none ⊢
    cases hx : s.dispatchers[d']? with
    | none => simp
    | some x => by_cases e : d = d' <;> simp [e]
  · have := handles_letGo opened d'
    omega

theorem Closed.letGo (h : s.Closed d) (d' : DispatcherId) : (s.letGo (.dispatcher d')).2.Closed d :=
  ⟨(size_letGo _).symm ▸ h.1, Nat.le_zero.1 (h.2 ▸ handles_letGo_le d)⟩

theorem Closed.addDispatcher (h : s.Closed d) (timeout : Option Nat) :
    (s.addDispatcher timeout).2.Closed d := by
  refine ⟨Nat.lt_of_lt_of_le h.1 ?_, ?_⟩
  · simp [Shared.addDispatcher]
  · rcases addDispatcher_views timeout d with ⟨e, -⟩ | ⟨e, -⟩
    · exact e.trans h.2
    · exact absurd (e ▸ h.1) (Nat.lt_irrefl _)

/-- Giving back the last handle closes a dispatcher. -/
theorem closed_close (last : s.handles d = 1) (x : Dispatcher) :
    ((s.letGo (.dispatcher d)).2.setDispatcher d x).Closed d := by
  have opened : 0 < s.handles d := last ▸ Nat.one_pos
  have after := handles_letGo opened d
  rw [if_pos rfl] at after
  obtain ⟨y, hy⟩ := getElem?_of_handles opened
  refine ⟨?_, ?_⟩
  · rw [size_setDispatcher, size_letGo]
    exact (List.getElem?_eq_some_iff.1 hy).1
  · rw [handles_setDispatcher]
    omega

end Shared

/-! ## Dispatchers and their later states -/

/-- Dispatchers are related to what the operations that make no connection make of them. -/
structure Dispatcher.Follows (R : Dispatcher → Dispatcher → Prop) : Prop where
  alike : ∀ {x y}, x.Alike y → R x y
  register : ∀ x owner metaClass context, R x (x.register owner metaClass context).2
  disconnect : ∀ x id, R x (x.disconnect id).2
  beginDestroy : ∀ {x order o ids y}, x.beginDestroy? order o = some (ids, y) → R x y
  sever : ∀ x gone id, R x (x.sever gone id).2
  endDestroy : ∀ x o, R x (x.endDestroy o)

/-- A turn relates each dispatcher to its new state, unless it closes it. -/
theorem Turn.follows {R : Dispatcher → Dispatcher → Prop} (h : Dispatcher.Follows R)
    {old new : List Frame} (turn : Turn (s, old) (s', new)) (d : DispatcherId) :
    R (s.dispatcher d) (s'.dispatcher d) ∨ s'.Closed d ∧ s'.dispatcher d = {} := by
  have same : ∀ {x : Dispatcher}, x = s.dispatcher d → R (s.dispatcher d) x := by
    rintro x rfl
    exact h.alike (.refl _)
  have set : ∀ {d' : DispatcherId} {x : Dispatcher}, R (s.dispatcher d') x →
      R (s.dispatcher d) ((s.setDispatcher d' x).dispatcher d) := fun hx =>
    Shared.setDispatcher_rel (fun x => h.alike (.refl x)) hx d
  cases turn with
  | work alike => exact .inl (h.alike (alike.dispatcher d))
  | host timeout =>
    refine .inl ?_
    rcases s.addDispatcher_views timeout d with ⟨-, -, e⟩ | ⟨-, -, -, e, -, -, e'⟩
    · exact same e
    · rw [e, e']
      exact h.alike ⟨rfl, rfl⟩
  | share => exact .inl (same Shared.dispatcher_share)
  | disown => exact .inl (same Shared.dispatcher_disown)
  | hold => exact .inl (same (Shared.dispatcher_retain _))
  | release => exact .inl (same (Shared.dispatcher_letGo _))
  | @close _ d' held reply fs last =>
    by_cases e : d = d'
    · subst e
      exact .inr ⟨Shared.closed_close last _, Shared.dispatcher_close (last ▸ Nat.one_pos) _⟩
    · rw [Shared.dispatcher_setDispatcher_of_ne e]
      exact .inl (same (Shared.dispatcher_letGo _))
  | register opened registered =>
    obtain ⟨metaClass, instances, rfl⟩ := Shared.register_eq_ok registered
    exact .inl (set (h.register _ _ _ _))
  | cut d' id => exact .inl (set (h.disconnect _ id))
  | destroy begun => exact .inl (set (h.beginDestroy begun))
  | sever => exact .inl (set (h.sever _ _ _))
  | severed => exact .inl (set (h.endDestroy _ _))

theorem closed_turn {old new : List Frame} (turn : Turn (s, old) (s', new)) (h : s.Closed d) :
    s'.Closed d := by
  cases turn with
  | work alike => exact h.congr alike.size (alike.handles d)
  | host timeout => exact h.addDispatcher timeout
  | share opened => exact h.of_opened opened (List.length_modify ..) (Shared.handles_share opened)
  | disown => exact h.congr (List.length_modify ..) Shared.handles_disown
  | hold opened =>
    exact h.of_opened opened (Shared.size_retain _) (Shared.handles_retain opened)
  | release => exact h.letGo _
  | close => exact (h.letGo _).setDispatcher _ _
  | register opened registered =>
    obtain ⟨metaClass, instances, rfl⟩ := Shared.register_eq_ok registered
    exact h.setDispatcher _ _
  | cut | destroy | sever | severed => exact h.setDispatcher _ _

/-- A dispatcher that is closed stays so. -/
theorem kept_closed (d : DispatcherId) : Kept fun s _ => s.Closed d where
  turn s s' old new others turn _ _ h := closed_turn turn h
  skip s s' old new others skips h := h.congr skips.alike.size (skips.alike.handles d)
  connect s s' fs connects h := by
    cases connects with
    | link => exact h.setDispatcher _ _

/-! ## Connections that were cut -/

/-- A connection was there and cannot be there again. -/
def Shared.Lost (s : Shared) (d : DispatcherId) (id : ConnectionId) : Prop :=
  s.Closed d ∨ (s.dispatcher d).Lost id

/-- No turn but closing a dispatcher forgets which ids were given out. -/
theorem retires_turn {old new : List Frame} (turn : Turn (s, old) (s', new)) (d : DispatcherId) :
    (s.dispatcher d).Retires (s'.dispatcher d) ∨ s'.Closed d := by
  have follows : Dispatcher.Follows Dispatcher.Retires := {
    alike := fun alike => .of_eq alike.connections
    register := fun _ _ _ _ => .of_eq rfl
    disconnect := fun x id => .of_erase (x.connections_disconnect id)
    beginDestroy := fun begun => by
      obtain ⟨-, -, -, -, connections, -⟩ := Dispatcher.beginDestroy?_eq_some begun
      exact .of_eq connections
    sever := fun x gone id => .of_erase (x.connections_sever gone id)
    endDestroy := fun _ _ => .of_eq rfl }
  exact (turn.follows follows d).imp_right And.left

/-- What is true of a dispatcher as long as no id that it gave out is forgotten stays true until the
dispatcher is closed. -/
theorem kept_until_closed {P : Dispatcher → Prop} (retires : ∀ {x y : Dispatcher}, x.Retires y → P x → P y)
    (link : ∀ {x : Dispatcher} (c : Connection), P x → P (x.link c).2) (d : DispatcherId) :
    Kept fun s _ => s.Closed d ∨ P (s.dispatcher d) where
  turn s s' old new others turn _ _ h := by
    rcases h with closed | holds
    · exact .inl (closed_turn turn closed)
    · rcases retires_turn turn d with less | closed
      · exact .inr (retires less holds)
      · exact .inl closed
  skip s s' old new others skips h := by
    rcases h with closed | holds
    · exact .inl ((kept_closed d).skip s s' old new others skips closed)
    · exact .inr (retires (.of_eq (skips.alike.dispatcher d).connections) holds)
  connect s s' fs connects h := by
    rcases h with closed | holds
    · exact .inl ((kept_closed d).connect _ _ fs connects closed)
    · cases connects with
      | @link d' c opened admits =>
        refine .inr ?_
        rcases Shared.dispatcher_setDispatcher_or (s := s) (d := d') d ((s.dispatcher d').link c).2
          with e | ⟨rfl, e⟩
        · rw [e]
          exact holds
        · rw [e]
          exact link c holds

theorem kept_lost (d : DispatcherId) (id : ConnectionId) : Kept fun s _ => s.Lost d id :=
  kept_until_closed (P := fun x => x.Lost id) (fun less lost => lost.retires less)
    (fun c lost => lost.link c) d

/-! ## The order of lists -/

theorem shortens_turn {old new : List Frame} (turn : Turn (s, old) (s', new)) (d : DispatcherId) :
    (s.dispatcher d).Shortens (s'.dispatcher d) := by
  have follows : Dispatcher.Follows Dispatcher.Shortens := {
    alike := fun alike => .of_links alike.links
    register := Dispatcher.shortens_register
    disconnect := Dispatcher.shortens_disconnect
    beginDestroy := Dispatcher.shortens_beginDestroy
    sever := Dispatcher.shortens_sever
    endDestroy := fun _ _ => Dispatcher.shortens_endDestroy }
  rcases turn.follows follows d with shortens | ⟨-, empty⟩
  · exact shortens
  · rw [empty]
    exact .of_empty fun _ => rfl

/-- A move shortens all lists, unless it makes a connection. -/
theorem Machine.shortens_move {m : Machine} (sound : ∀ f ∈ m.frames, f.Sound) (a : Move) :
    (∀ d, (m.shared.dispatcher d).Shortens ((m.move a).shared.dispatcher d)) ∨
      Connects m.shared (m.move a).shared := by
  cases effect_move sound a with
  | turns keeps =>
    refine .inl (keeps (fun s _ => ∀ d, (m.shared.dispatcher d).Shortens (s.dispatcher d)) ?_
      fun _ => .refl _)
    intro s s' old new others turn _ _ h d
    exact (h d).trans (shortens_turn turn d)
  | skip skips => exact .inl fun d => .of_links (skips.alike.dispatcher d).links
  | connect connects => exact .inr connects

namespace Machine

/-- A connection is there. -/
def Live (m : Machine) (d : DispatcherId) (id : ConnectionId) : Prop :=
  ∃ c, (m.shared.dispatcher d).connections.get? id = some c

/-- The connection that there is after a run was made by the move of this number: it was not there
before and is there since. -/
structure MadeAt (r : Registry) (moves : List Move) (d : DispatcherId) (id : ConnectionId) (i : Nat) :
    Prop where
  within : i < moves.length
  before : ¬ ((start r).run (moves.take i)).Live d id
  since : ∀ k, i < k → k ≤ moves.length → ((start r).run (moves.take k)).Live d id

variable {r : Registry} {moves : List Move} {i j : Nat} {id' : ConnectionId}

theorem MadeAt.unique (h : MadeAt r moves d id i) (h' : MadeAt r moves d id j) : i = j := by
  -- Made first, a connection would be there when the other move makes it.
  rcases Nat.lt_trichotomy i j with lt | e | gt
  · exact absurd (h.since j lt (Nat.le_of_lt h'.within)) h'.before
  · exact e
  · exact absurd (h'.since i gt (Nat.le_of_lt h.within)) h.before

/-- A connection that is still there after one more move was made when it was made before. -/
theorem MadeAt.concat (h : MadeAt r moves d id i) {a : Move}
    (live : ((start r).run (moves ++ [a])).Live d id) : MadeAt r (moves ++ [a]) d id i where
  within := Nat.lt_of_lt_of_le h.within (by simp)
  before := by
    rw [List.take_append_of_le_length (Nat.le_of_lt h.within)]
    exact h.before
  since k lt le := by
    rcases Nat.lt_or_ge moves.length k with last | inside
    · have whole : (moves ++ [a]).length ≤ k := by
        rw [List.length_append, List.length_singleton]
        exact last
      rw [List.take_of_length_le whole]
      exact live
    · rw [List.take_append_of_le_length inside]
      exact h.since k lt inside

/-- A connection that is there after the last move and was not there before it was made by it. -/
theorem madeAt_concat {a : Move} (before : ¬ ((start r).run moves).Live d id)
    (live : ((start r).run (moves ++ [a])).Live d id) : MadeAt r (moves ++ [a]) d id moves.length where
  within := by simp
  before := by
    rw [List.take_append_of_le_length (Nat.le_refl _), List.take_length]
    exact before
  since k lt le := by
    have whole : (moves ++ [a]).length ≤ k := by
      rw [List.length_append, List.length_singleton]
      exact lt
    rw [List.take_of_length_le whole]
    exact live

/-- What there is was made by some move. -/
theorem exists_madeAt (live : ((start r).run moves).Live d id) : ∃ i, MadeAt r moves d id i := by
  induction moves using List.reverseRecOn with
  | nil =>
    obtain ⟨c, hc⟩ := live
    cases hc
  | append_singleton moves a ih =>
    -- It was there before the last move, or the last move made it.
    by_cases before : ((start r).run moves).Live d id
    · obtain ⟨i, made⟩ := ih before
      exact ⟨i, made.concat live⟩
    · exact ⟨moves.length, madeAt_concat before live⟩

/-- One connection was made before another. -/
def MadeBefore (r : Registry) (moves : List Move) (d : DispatcherId) (id id' : ConnectionId) : Prop :=
  ∃ i j, MadeAt r moves d id i ∧ MadeAt r moves d id' j ∧ i < j

theorem MadeBefore.concat (h : MadeBefore r moves d id id') {a : Move}
    (live : ((start r).run (moves ++ [a])).Live d id)
    (live' : ((start r).run (moves ++ [a])).Live d id') : MadeBefore r (moves ++ [a]) d id id' := by
  obtain ⟨i, j, made, made', lt⟩ := h
  exact ⟨i, j, made.concat live, made'.concat live', lt⟩

theorem live_of_outgoing {o : ObjectId} {l : Links} {signal : Nat}
    (hl : (((start r).run moves).shared.dispatcher d).links? o = some l)
    (h : (signal, id) ∈ l.outgoing) : ((start r).run moves).Live d id := by
  obtain ⟨c, hc, -⟩ := ((sorted_run r moves).linked d).of_outgoing o l signal id hl h
  exact ⟨c, hc⟩

/-- A connection that is made by the last move comes after all that were in its sender's list. -/
theorem madeBefore_concat {a : Move} (old : ((start r).run moves).Live d id)
    (live : ((start r).run (moves ++ [a])).Live d id)
    (new : ¬ ((start r).run moves).Live d id') (live' : ((start r).run (moves ++ [a])).Live d id') :
    MadeBefore r (moves ++ [a]) d id id' := by
  obtain ⟨i, made⟩ := exists_madeAt old
  exact ⟨i, moves.length, made.concat live, madeAt_concat new live', made.within⟩

/-- A list is in the order in which its connections were made. -/
def InOrder (r : Registry) (moves : List Move) (d : DispatcherId)
    (outgoing : List (Nat × ConnectionId)) : Prop :=
  outgoing.Pairwise fun p q => MadeBefore r moves d p.2 q.2

theorem InOrder.concat {outgoing : List (Nat × ConnectionId)} (h : InOrder r moves d outgoing)
    {a : Move} (live : ∀ p ∈ outgoing, ((start r).run (moves ++ [a])).Live d p.2) :
    InOrder r (moves ++ [a]) d outgoing :=
  h.imp_of_mem fun hp hq made => made.concat (live _ hp) (live _ hq)

/-- After a move that shortens the lists they are in order if they were before. -/
theorem inOrder_of_shortens {a : Move} {o : ObjectId} {l : Links}
    (ih : ∀ o l, (((start r).run moves).shared.dispatcher d).links? o = some l →
      InOrder r moves d l.outgoing)
    (shortens : (((start r).run moves).shared.dispatcher d).Shortens
      (((start r).run (moves ++ [a])).shared.dispatcher d))
    (hl : (((start r).run (moves ++ [a])).shared.dispatcher d).links? o = some l) :
    InOrder r (moves ++ [a]) d l.outgoing := by
  rcases shortens o l hl with e | ⟨old, ho, sub⟩
  · rw [e]
    exact .nil
  · exact InOrder.concat ((ih o old ho).sublist sub) fun p hp => live_of_outgoing hl hp

/-- After a move that makes a connection the lists are in order if they were before. -/
theorem inOrder_of_link {a : Move} {c : Connection} {o : ObjectId} {l : Links}
    (ih : ∀ o l, (((start r).run moves).shared.dispatcher d).links? o = some l →
      InOrder r moves d l.outgoing)
    (link : ((start r).run (moves ++ [a])).shared.dispatcher d =
      ((((start r).run moves).shared.dispatcher d).link c).2)
    (hl : (((start r).run (moves ++ [a])).shared.dispatcher d).links? o = some l) :
    InOrder r (moves ++ [a]) d l.outgoing := by
  have live : ∀ p ∈ l.outgoing, ((start r).run (moves ++ [a])).Live d p.2 :=
    fun p hp => live_of_outgoing hl hp
  have fresh := (Dispatcher.connection?_link (((start r).run moves).shared.dispatcher d) c).1
  rw [link, Dispatcher.links?_link] at hl
  generalize ((((start r).run moves).shared.dispatcher d).link c).1 = new at fresh hl
  obtain ⟨old, ho, rfl⟩ := Option.map_eq_some_iff.1 hl
  simp only [Dispatcher.joined] at live ⊢
  split at live
  · rename_i sends
    rw [if_pos sends]
    refine List.pairwise_append.2 ⟨?_, List.pairwise_singleton _ _, fun p hp q hq => ?_⟩
    · exact (ih o old ho).concat fun p hp => live p (List.mem_append_left _ hp)
    · cases List.mem_singleton.1 hq
      have unmade : ¬ ((start r).run moves).Live d new := by
        rintro ⟨c', hc'⟩
        rw [← Dispatcher.connection?, fresh] at hc'
        cases hc'
      exact madeBefore_concat (live_of_outgoing ho hp) (live p (List.mem_append_left _ hp)) unmade
        (live _ (List.mem_append_right _ hq))
  · rename_i other
    rw [if_neg other]
    exact (ih o old ho).concat live

/-- The list of a sender is in the order in which its connections were made. -/
theorem outgoing_in_order (r : Registry) (moves : List Move) (d : DispatcherId) (o : ObjectId)
    (l : Links) (hl : (((start r).run moves).shared.dispatcher d).links? o = some l) :
    InOrder r moves d l.outgoing := by
  induction moves using List.reverseRecOn generalizing o l with
  | nil => cases hl
  | append_singleton moves a ih =>
    have moved := run_concat (start r) moves a
    rcases shortens_move (sound_run (sound_start r) moves) a with shortens | connects
    · rw [← moved] at shortens
      exact inOrder_of_shortens ih (shortens d) hl
    · rw [← moved] at connects
      generalize after : ((start r).run (moves ++ [a])).shared = s' at connects
      cases connects with
      | @link d' c opened admits =>
        have set := Shared.dispatcher_setDispatcher_or (s := ((start r).run moves).shared) (d := d') d
          ((((start r).run moves).shared.dispatcher d').link c).2
        rw [← after] at set
        rcases set with e | ⟨rfl, e⟩
        · exact inOrder_of_shortens ih (.of_links (by rw [e])) hl
        · exact inOrder_of_link ih e hl

end Machine
end Reflection

import Reflection.Proofs.Dispatcher.Removal
import Reflection.Proofs.Machine.Connecting
import Reflection.Proofs.Machine.Cutting
import Reflection.Proofs.Machine.Destruction
/-!
# Removals are exact

Client code can have a connection removed, all connections of a sender, or an object with all connections
from it and to it (`Removal`). When nothing else happens until it is answered, exactly these are gone, and
what is left of each list is in its old order; asked for again, the removal finds nothing
(`removals_are_exact`). Whatever else happens, none of the connections that were to go is left
(`not_live_of_completes`).

An object that is being destroyed has given up its lists. Nothing can be removed from it then, not even in
the code that disposes of its callbacks (`removals_depend_on_what_disposers_do`).
-/

namespace Reflection

/-- What client code can have removed from a dispatcher. -/
inductive Removal where
  | connection (id : ConnectionId)
  /-- All connections of a sender. -/
  | allFrom (sender : ObjectId)
  /-- An object, with all connections from it and to it. -/
  | object (o : ObjectId)

namespace Removal

/-- What client code asks for. -/
def action (d : DispatcherId) : Removal → Action
  | .connection id => .disconnect d id
  | .allFrom sender => .disconnectAll d sender
  | .object o => .destroy d o

/-- The connections that are to go. -/
def Takes : Removal → ConnectionId → Connection → Prop
  | .connection id => fun j _ => j = id
  | .allFrom sender => fun _ c => c.sender = sender
  | .object o => fun _ c => c.sender = o ∨ c.target.receiver? = some o

/-- The object that is to go. -/
def object? : Removal → Option ObjectId
  | .object o => some o
  | _ => none

/-- The object that a removal is about is not in the middle of its destruction. -/
def Free (x : Dispatcher) : Removal → Prop
  | .connection _ => True
  | .allFrom o | .object o => ∀ r, x.object? o = some r → r.isActive

/-- Whether there is such a connection or such an active object, or how many connections there are. -/
def answer (x : Dispatcher) : Removal → Answer
  | .connection id => .flag (x.connections.get? id).isSome
  | .allFrom sender => .count (x.connections.toList.filter fun p => p.2.sender = sender).length
  | .object o => .flag (x.contains o)

/-- The answer if there is nothing to remove. -/
def denial : Removal → Answer
  | .connection _ | .object _ => .flag false
  | .allFrom _ => .count 0

/-- The answer, and the dispatcher then, if all is removed at once, the connections of the signals of `order`
first. -/
def outcome (order : List Nat) (x : Dispatcher) : Removal → Answer × Dispatcher
  | .connection id => (.flag (x.disconnect id).1.isSome, (x.disconnect id).2)
  | .allFrom sender => (.count (x.disconnectAll order sender).1, (x.disconnectAll order sender).2)
  | .object o => (.flag (x.destroy order o).1, (x.destroy order o).2)

variable {x : Dispatcher} {severing severing' : Multiset (ObjectId × List ConnectionId)} {R : Removal}
  {o : ObjectId} {order : List Nat}

theorem denies_denial (R : Removal) : R.denial.Denies := by
  cases R <;> rfl

theorem destroy_of_active?_eq_none (inactive : x.active? o = none) : x.destroy order o = (false, x) := by
  rw [Dispatcher.destroy, Dispatcher.beginDestroy?, inactive]

theorem disconnect_of_none {id : ConnectionId} (missing : x.connections.get? id = none) :
    x.disconnect id = (none, x) := by
  rw [Dispatcher.disconnect, missing]

theorem disconnectAll_of_empty {sender : ObjectId} (empty : x.outgoing order sender = []) :
    x.disconnectAll order sender = (0, x) := by
  rw [Dispatcher.disconnectAll, empty]
  rfl

/-- What is lost, if the object that the removal is about is not in the middle of its destruction. -/
theorem outcome_of_free (order : List Nat) (linked : x.Linked severing) (free : R.Free x) :
    (R.outcome order x).1 = R.answer x ∧ x.Loses (R.outcome order x).2 R.Takes R.object? := by
  cases R with
  | connection id =>
    refine ⟨?_, linked.loses_disconnect id⟩
    show Answer.flag _ = .flag _
    cases found : x.connections.get? id with
    | none => rw [disconnect_of_none found]
    | some c =>
      rw [Dispatcher.disconnect, found]
      dsimp only
      split <;> rfl
  | allFrom sender => 
    exact ⟨congrArg _ (linked.fst_disconnectAll free order), linked.loses_disconnectAll free order⟩
  | object o =>
    by_cases active : x.contains o
    · obtain ⟨yes, loses⟩ := linked.loses_destroy active order
      exact ⟨congrArg _ (yes.trans active.symm), loses⟩
    · -- An object that is not registered has no connections.
      have missing : x.object? o = none := by
        refine Option.eq_none_iff_forall_ne_some.2 fun r hr => active ?_
        have found : x.active? o = some r := Option.filter_eq_some_iff.2 ⟨hr, free r hr⟩
        rw [Dispatcher.contains, found]
        rfl
      have inactive : x.active? o = none := by rw [Dispatcher.active?, missing, Option.filter_none]
      have same : outcome order x (.object o) = (.flag false, x) := by
        rw [outcome, destroy_of_active?_eq_none inactive]
      have among : ∀ j c, x.connection? j = some c → (j ∈ ([] : List ConnectionId) ↔
          c.sender = o ∨ c.target.receiver? = some o) := by
        intro j c hc
        obtain ⟨sends, receives⟩ := linked.end_ne_of_none missing hc
        simp [sends, receives]
      rw [same]
      refine ⟨congrArg _ (Bool.eq_false_iff.2 active).symm, linked.loses among (by simp) (fun o' => ?_) rfl rfl⟩
      split
      · rename_i same
        rw [← Option.some.inj same, missing]
      · simp [Registration.keeping_all]

/-- An object in the middle of its destruction has nothing that could be removed. -/
theorem outcome_of_not_free (linked : x.Linked severing) (busy : ¬ R.Free x) :
    R.outcome order x = (R.denial, x) := by
  cases R with
  | connection id => exact absurd trivial busy
  | allFrom sender =>
    obtain ⟨r, hr, inactive⟩ : ∃ r, x.object? sender = some r ∧ ¬ r.isActive := by
      simpa [Free] using busy
    rw [outcome, disconnectAll_of_empty (linked.outgoing_of_inactive hr (Bool.eq_false_iff.2 inactive))]
    rfl
  | object o =>
    obtain ⟨r, hr, inactive⟩ : ∃ r, x.object? o = some r ∧ ¬ r.isActive := by
      simpa [Free] using busy
    have filtered : x.active? o = none := by
      rw [Dispatcher.active?, hr, Option.filter_some, if_neg inactive]
    rw [outcome, destroy_of_active?_eq_none filtered]
    rfl

/-- What was removed is not removed once more. -/
theorem outcome_outcome (order' : List Nat) (linked : x.Linked severing)
    (linked' : (R.outcome order x).2.Linked severing') :
    R.outcome order' (R.outcome order x).2 = (R.denial, (R.outcome order x).2) := by
  by_cases free : R.Free x
  · obtain ⟨-, loses⟩ := outcome_of_free order linked free
    cases R with
    | connection id =>
      have missing : (x.disconnect id).2.connections.get? id = none :=
        Option.eq_none_iff_forall_ne_some.2 fun c hc => ((loses.connections id c).1 hc).2 rfl
      show outcome order' (x.disconnect id).2 (.connection id) = (.flag false, (x.disconnect id).2)
      rw [outcome, disconnect_of_none missing]
      rfl
    | allFrom sender =>
      have empty : (x.disconnectAll order sender).2.outgoing order' sender = [] :=
        loses.outgoing linked' fun _ _ sends => sends
      show outcome order' (x.disconnectAll order sender).2 (.allFrom sender) =
        (.count 0, (x.disconnectAll order sender).2)
      rw [outcome, disconnectAll_of_empty empty]
    | object o =>
      have gone : (x.destroy order o).2.object? o = none := (loses.objects o).trans (if_pos rfl)
      have inactive : (x.destroy order o).2.active? o = none := by
        rw [Dispatcher.active?, gone, Option.filter_none]
      show outcome order' (x.destroy order o).2 (.object o) = (.flag false, (x.destroy order o).2)
      rw [outcome, destroy_of_active?_eq_none inactive]
  · rw [outcome_of_not_free linked free]
    exact outcome_of_not_free linked free

end Removal

namespace Machine

variable {m : Machine} {t : Nat} {th : Thread} {entry : Entry} {fs : List Frame} {d : DispatcherId}
  {R : Removal} {during : List Move} {answer : Answer}

/-! ## Removals that nothing disturbs -/

theorem opened_of_permits (permitted : Thread.permits m.shared (R.action d)) : 0 < m.shared.handles d := by
  refine Shared.isOpen_iff.1 ?_
  cases R <;> exact permitted

/-- What client code asks for is begun at once. -/
theorem removing_act (ht : m.threads[t]? = some th) (hf : th.frames = .body entry :: fs)
    (permitted : Thread.permits m.shared (R.action d)) :
    let y := R.outcome m.shared.signalOrder (m.shared.dispatcher d)
    ∃ p, m.act t (R.action d) = m.withThread t p ∧ Thread.Removing m.shared th d y.1 y.2 p := by
  intro y
  refine ⟨Thread.perform m.shared { th with answer := none } (R.action d), ?_, ?_⟩
  · rw [act_eq ht, Thread.act_eq_perform hf permitted]
    rfl
  let held := m.shared.retain (.dispatcher d)
  have before : held.dispatcher d = m.shared.dispatcher d := Shared.dispatcher_retain _
  have unchanged : held = held.withChanges d (m.shared.dispatcher d) m.shared.callbacks := by
    rw [← before]
    exact (held.withChanges_self d).symm
  cases R with
  | connection id =>
    let cut := (m.shared.dispatcher d).disconnect id
    refine (Thread.removing_of_cut th _ cut.1 (.releasing (.flag cut.1.isSome)) fun denies => ?_).1
    exact ⟨Option.isSome_eq_false_iff.1 denies |> Option.isNone_iff_eq_none.1, rfl⟩
  | allFrom sender =>
    have comes := Thread.ComesTo.disconnecting (d := d) (x := m.shared.dispatcher d)
      ((m.shared.dispatcher d).outgoing m.shared.signalOrder sender) 0
    rw [Nat.zero_add] at comes
    show Thread.Removing m.shared th d _ _ (held, _)
    rw [unchanged]
    exact .cutting .idle comes fun _ => ⟨rfl, rfl⟩
  | object o =>
    let x := m.shared.dispatcher d
    cases begun : x.beginDestroy? m.shared.signalOrder o with
    | none =>
      have outcome : Removal.outcome m.shared.signalOrder x (.object o) = (.flag false, x) := by
        rw [Removal.outcome, Dispatcher.destroy, begun]
      have performed : Thread.perform m.shared { th with answer := none } (.destroy d o) = (held,
          { th with frames := .releasing [.dispatcher d] (.answer (.flag false)) :: th.frames
                    answer := none }) := by
        unfold Thread.perform
        simp only [Thread.beginSevering, Shared.dispatcher_retain, Shared.signalOrder_retain, x] at begun ⊢
        rw [begun]
        rfl
      show Thread.Removing m.shared th d (Removal.outcome m.shared.signalOrder x _).1 (Removal.outcome m.shared.signalOrder x _).2
        (Thread.perform _ _ (.destroy d o))
      rw [outcome, performed, unchanged]
      exact .cutting .idle (.releasing _) fun _ => ⟨rfl, rfl⟩
    | some p =>
      obtain ⟨ids, x'⟩ := p
      have outcome : Removal.outcome m.shared.signalOrder x (.object o) = (.flag true, (x'.severEach o ids).endDestroy o) := by
        rw [Removal.outcome, Dispatcher.destroy, begun]
      have performed : Thread.perform m.shared { th with answer := none } (.destroy d o) =
          (held.withChanges d x' m.shared.callbacks, { th with
            frames := .severing d o ids [.dispatcher d] (.answer (.flag true)) :: th.frames, answer := none }) := by
        unfold Thread.perform
        simp only [Thread.beginSevering, Shared.dispatcher_retain, Shared.signalOrder_retain, x] at begun ⊢
        rw [begun]
        rfl
      show Thread.Removing m.shared th d (Removal.outcome m.shared.signalOrder x _).1 (Removal.outcome m.shared.signalOrder x _).2
        (Thread.perform _ _ (.destroy d o))
      rw [outcome, performed]
      exact .cutting .idle (.severing o ids) fun denies => by cases denies

/-- A removal that nothing disturbs does what removing all at once does. -/
theorem removed_of_completes (undisturbed : Undisturbed t during)
    (completes : m.Completes t (R.action d) during answer) :
    let y := R.outcome m.shared.signalOrder (m.shared.dispatcher d)
    0 < m.shared.handles d ∧ ∃ th callbacks, m.threads[t]? = some th ∧ answer = y.1 ∧
      (m.act t (R.action d)).run during =
        ⟨m.shared.withChanges d y.2 callbacks, m.threads.set t { th with answer := some answer }⟩ ∧
      (answer.Denies → callbacks = m.shared.callbacks) := by
  intro y
  obtain ⟨th, entry, fs, ht, hf, permitted⟩ := completes.asks
  have opened := opened_of_permits permitted
  have height : m.depth t = th.frames.length := depth_eq ht
  obtain ⟨p, begun, removing⟩ := removing_act ht hf permitted
  have above := completes.above
  have returns := completes.returns
  have answered := completes.answered
  rw [height, begun] at above returns
  rw [begun] at answered ⊢
  obtain ⟨p', ⟨callbacks, rfl, spared⟩, ends⟩ := removed_of_removing ht hf opened removing undisturbed above returns
  have told : answer = y.1 := by
    rw [ends, withThread, getElem?_set_thread ht] at answered
    exact (Option.some.inj answered).symm
  subst told
  exact ⟨opened, th, callbacks, ht, rfl, ends, spared⟩

/-- A removal that nothing disturbs is answered. -/
theorem exists_completes (asks : m.Asks t (R.action d)) :
    ∃ during answer, Undisturbed t during ∧ m.Completes t (R.action d) during answer := by
  obtain ⟨th, entry, fs, ht, hf, permitted⟩ := asks
  have height : m.depth t = th.frames.length := depth_eq ht
  obtain ⟨p, begun, removing⟩ := removing_act ht hf permitted
  obtain ⟨during, undisturbed, above, p', removed, ends⟩ :=
    exists_removed ht hf (opened_of_permits permitted) removing
  have returns := depth_of_removed ht removed
  obtain ⟨callbacks, rfl, -⟩ := removed
  rw [← begun] at above ends
  rw [← ends] at returns
  refine ⟨during, (R.outcome m.shared.signalOrder (m.shared.dispatcher d)).1, undisturbed,
    ⟨⟨⟨th, entry, fs, ht, hf, permitted⟩, height ▸ above⟩, ?_, ?_⟩⟩
  · exact height ▸ Nat.le_of_eq returns
  · rw [ends, withThread, getElem?_set_thread ht]
    rfl

/-! ## Removals while other things happen -/

/-- Whatever else happens until a removal is answered, no connection that was to go is left then. -/
theorem not_live_of_completes (regular : m.Regular) (completes : m.Completes t (R.action d) during answer)
    (free : R.Free (m.shared.dispatcher d)) (opened : ((m.act t (R.action d)).run during).shared.isOpen d)
    {id : ConnectionId} {c : Connection} (hc : (m.shared.dispatcher d).connections.get? id = some c)
    (takes : R.Takes id c) : ¬ ((m.act t (R.action d)).run during).Live d id := by
  obtain ⟨th, entry, fs, ht, hf, permitted⟩ := completes.asks
  have linked := regular.sorted.linked d
  refine not_live_of_lost ?_ opened
  cases R with
  | connection id' =>
    obtain rfl : id = id' := takes
    obtain ⟨-, answering⟩ := answering_of_disconnect ht hf permitted
    have told := completes.answer_eq regular ht hf answering
    obtain ⟨yes, -⟩ := Removal.outcome_of_free (R := .connection id) m.shared.signalOrder linked trivial
    have found : answer = .flag true := told.trans (yes.trans (by rw [Removal.answer, hc]; rfl))
    exact lost_of_completes regular (found ▸ completes)
  | allFrom sender =>
    have acts : th.act m.shared (.disconnectAll d sender) = _ := Thread.act_eq_perform hf permitted
    have begun : (m.act t (.disconnectAll d sender)).Cutting t (.body entry :: fs) d
        ((m.shared.dispatcher d).outgoing m.shared.signalOrder sender) := by
      rw [act_eq ht, acts]
      exact ⟨_, [], _, _, getElem?_set_thread ht _, congrArg (_ :: ·) hf, rfl, List.mem_singleton_self d,
        fun j hj => .inl hj⟩
    have live : ∀ j ∈ (m.shared.dispatcher d).outgoing m.shared.signalOrder sender, m.Live d j := fun j hj =>
      Option.isSome_iff_exists.1 (linked.live_of_outgoing hj)
    exact lost_of_cutting regular completes ht hf begun live id ((linked.mem_outgoing free hc).2 takes)
  | object o =>
    cases hr : (m.shared.dispatcher d).object? o with
    | none =>
      obtain ⟨sends, receives⟩ := linked.end_ne_of_none hr hc
      exact (takes.elim sends receives).elim
    | some reg =>
      have active : reg.state = .active := of_decide_eq_true (free reg hr)
      have acts : th.act m.shared (.destroy d o) = _ := Thread.act_eq_perform hf permitted
      have found : (m.shared.dispatcher d).active? o = some reg := Dispatcher.active?_eq_some_iff.2 ⟨hr, active⟩
      have begun : (m.act t (.destroy d o)).Cutting t (.body entry :: fs) d
          (reg.outgoingBy m.shared.signalOrder ++ reg.incoming) := by
        rw [act_eq ht, acts]
        unfold Thread.perform
        simp only [Thread.beginSevering, Shared.dispatcher_retain, Shared.signalOrder_retain, Dispatcher.beginDestroy?, found]
        exact ⟨_, [], _, _, getElem?_set_thread ht _, congrArg (_ :: ·) hf, rfl, List.mem_singleton_self d,
          fun j hj => .inl hj⟩
      have live : ∀ j ∈ reg.outgoingBy m.shared.signalOrder ++ reg.incoming, m.Live d j := by
        intro j hj
        have has : reg.links.Has j := by
          rcases List.mem_append.1 hj with sent | received
          · obtain ⟨⟨signal, _⟩, listed, rfl⟩ := List.mem_map.1 ((reg.perm_outgoingBy _).mem_iff.1 sent)
            exact .inl ⟨signal, listed⟩
          · exact .inr received
        obtain ⟨c', hc', -⟩ := linked.end_of_has (Dispatcher.links?_of_object? hr) has
        exact ⟨c', hc'⟩
      exact lost_of_cutting regular completes ht hf begun live id ((linked.mem_ends hr active hc).2 takes)

/-! ## Main theorem -/

/-- Let client code ask after any run for the removal of a connection, of all connections of a sender, or of an
object.

* It is answered if nothing disturbs it: no other thread moves, and the client code that disposes of callbacks
  asks for nothing.
* When it is answered and nothing has disturbed it, the thread is as it was but for the answer, and so is all
  that threads share but for the dispatcher and the numbers of holders of callbacks. If the object that it is
  about is not in the middle of its destruction, the answer tells what there was to remove, and the dispatcher
  has lost exactly that. Otherwise the answer is no, or zero, and nothing has changed. Asked for once more, it
  is answered with no, or zero, and changes nothing.
* Whatever else happens until it is answered, none of the connections that were to go is there then. -/
theorem removals_are_exact (r : Registry) (past : List Move) (t : Nat) (d : DispatcherId) (R : Removal)
    (asks : ((start r).run past).Asks t (R.action d)) :
    let m := (start r).run past
    let x := m.shared.dispatcher d
    (∃ during answer, Undisturbed t during ∧ m.Completes t (R.action d) during answer) ∧
    ∀ during answer, m.Completes t (R.action d) during answer →
      let m' := (m.act t (R.action d)).run during
      let y := m'.shared.dispatcher d
      (Undisturbed t during →
        (∃ th callbacks, m.threads[t]? = some th ∧ m'.threads = m.threads.set t { th with answer := some answer } ∧
          m'.shared = { m.shared.setDispatcher d y with callbacks }) ∧
        (R.Free x → answer = R.answer x ∧ x.Loses y R.Takes R.object?) ∧
        (¬ R.Free x → answer = R.denial ∧ m'.shared = m.shared) ∧
        ∀ again answer', Undisturbed t again → m'.Completes t (R.action d) again answer' →
          answer' = R.denial ∧ ((m'.act t (R.action d)).run again).shared = m'.shared) ∧
      (R.Free x → m'.shared.isOpen d → ∀ id c, x.connections.get? id = some c → R.Takes id c → ¬ m'.Live d id) := by
  intro m x
  have regular : m.Regular := regular_run r past
  refine ⟨exists_completes asks, fun during answer completes => ?_⟩
  intro m' y
  have regular' : m'.Regular := (regular.act t _).run during
  refine ⟨fun undisturbed => ?_, fun free opened id c => not_live_of_completes regular completes free opened⟩
  obtain ⟨opened, th, callbacks, ht, told, ends, spared⟩ := removed_of_completes undisturbed completes
  have shared : m'.shared = m.shared.withChanges d (R.outcome m.shared.signalOrder x).2 callbacks :=
    congrArg (·.shared) ends
  have left : y = (R.outcome m.shared.signalOrder x).2 := by
    show m'.shared.dispatcher d = _
    rw [shared, Shared.dispatcher_withChanges opened]
  have linked := regular.sorted.linked d
  have linked' : (R.outcome m.shared.signalOrder x).2.Linked (Frame.allSeverings d m'.frames) :=
    left ▸ regular'.sorted.linked d
  refine ⟨⟨th, callbacks, ht, congrArg (·.threads) ends, left ▸ shared⟩, fun free => ?_, fun busy => ?_, ?_⟩
  · rw [left, told]
    exact Removal.outcome_of_free _ linked free
  · have denied : R.outcome m.shared.signalOrder x = (R.denial, x) :=
      Removal.outcome_of_not_free linked busy
    have no : answer = R.denial := told.trans (congrArg (·.1) denied)
    refine ⟨no, ?_⟩
    rw [shared, denied, spared (no ▸ R.denies_denial)]
    exact m.shared.withChanges_self d
  · intro again answer' undisturbed' completes'
    obtain ⟨-, _, callbacks', -, told', ends', spared'⟩ := removed_of_completes undisturbed' completes'
    have denied : R.outcome m'.shared.signalOrder y = (R.denial, y) :=
      left ▸ Removal.outcome_outcome _ linked linked'
    have no : answer' = R.denial := told'.trans (congrArg (·.1) denied)
    refine ⟨no, (congrArg (·.shared) ends').trans ?_⟩
    show m'.shared.withChanges d (R.outcome m'.shared.signalOrder y).2 callbacks' = m'.shared
    rw [denied, spared' (no ▸ R.denies_denial)]
    exact m'.shared.withChanges_self d

/-! ### Runs -/

/-- A second bell is hung, and its signal is connected to the slot of the first. -/
def hangTwo : List Move :=
  hang ++ [.act 0 (.newObject "Bell"), .act 0 (.register 0 1),
    .act 0 (.connectByIndex 0 ⟨1, 1⟩ 0 ⟨0, 1⟩ 1 .direct)]

/-- Is an answer this number? -/
def saysCount (n : Nat) : Answer → Bool
  | .count n' => n' == n
  | _ => false

theorem eq_of_saysCount {n : Nat} {x : Option Answer} (h : x.any (saysCount n)) : x = some (.count n) := by
  obtain ⟨answer, rfl, same⟩ := (Option.any_eq_true _ _).1 h
  cases answer with
  | count n' => rw [eq_of_beq same]
  | _ => cases same

/-- Cutting all connections of the first bell leaves the one from the second. -/
theorem second_bell_stays_connected :
    let m := (start bells).run hangTwo
    let R := Removal.allFrom ⟨0, 1⟩
    let cut := List.replicate 4 (Move.advance 0)
    let y := ((m.act 0 (R.action 0)).run cut).shared.dispatcher 0
    m.Asks 0 (R.action 0) ∧ Undisturbed 0 cut ∧ m.Completes 0 (R.action 0) cut (.count 1) ∧
      R.Free (m.shared.dispatcher 0) ∧ (m.shared.dispatcher 0).Loses y R.Takes none ∧
      y.connections.keys = [⟨1, 1⟩] := by
  intro m R cut y
  have asks : m.Asks 0 (R.action 0) := asks_of_canAsk (by decide +kernel)
  have undisturbed : Undisturbed 0 cut := by
    intro a ha
    rw [List.eq_of_mem_replicate ha]
    rfl
  have completes : m.Completes 0 (R.action 0) cut (.count 1) := by
    refine ⟨⟨asks, above_of_take ?_⟩, ?_, ?_⟩
    · decide +kernel
    · decide +kernel
    · exact eq_of_saysCount (by decide +kernel)
  have free : R.Free (m.shared.dispatcher 0) := by
    have active : ((m.shared.dispatcher 0).object? ⟨0, 1⟩).all (·.isActive) := by decide +kernel
    intro reg hr
    rw [hr] at active
    exact active
  obtain ⟨-, exact⟩ := removals_are_exact bells hangTwo 0 0 R asks
  obtain ⟨undisturbedly, -⟩ := exact cut (.count 1) completes
  obtain ⟨-, loses, -⟩ := undisturbedly undisturbed
  exact ⟨asks, undisturbed, completes, free, (loses free).2, by decide +kernel⟩

/-- The signal of a bell is connected to a callback. -/
def hear : List Move :=
  hang.take 4 ++ [.act 0 .newCallback, .act 0 (.connectCallback 0 ⟨0, 1⟩ "rung()" 0 .direct)]

/-- The signal is connected to one more callback, and the bell is destroyed. The first callback is given back,
and the client code that disposes of it runs. -/
def hearBreaking : List Move :=
  hear ++ [.act 0 .newCallback, .act 0 (.connectCallback 0 ⟨0, 1⟩ "rung()" 1 .direct),
    .act 0 (.destroy 0 ⟨0, 1⟩), .advance 0, .advance 0]

/-- All connections of the bell are cut, but the client code that disposes of the callback connects it anew. -/
def hearAnew : List Move :=
  [.advance 0, .advance 0, .act 0 (.connectByIndex 0 ⟨0, 1⟩ 0 ⟨0, 1⟩ 1 .direct), .finish 0 (.returned none)] ++
    List.replicate 4 (.advance 0)

/-- When a callback is disposed of because its bell is being destroyed, there is still a connection of the bell,
but cutting all connections of the bell cuts none. And where the disposer of a callback connects the bell anew,
cutting them all twice cuts one both times. -/
theorem removals_depend_on_what_disposers_do :
    let a := Action.disconnectAll 0 ⟨0, 1⟩
    let m := (start bells).run hearBreaking
    let n := (start bells).run hear
    let n' := (n.act 0 a).run hearAnew
    (((m.shared.dispatcher 0).connections.toList.filter fun p => p.2.sender = ⟨0, 1⟩).length = 1 ∧
      m.Completes 0 a (List.replicate 3 (.advance 0)) (.count 0)) ∧
    n.Completes 0 a hearAnew (.count 1) ∧
      n'.Completes 0 a (List.replicate 4 (.advance 0)) (.count 1) := by
  intro a m n n'
  refine ⟨⟨by decide +kernel, ?_⟩, ?_, ?_⟩
  all_goals
    refine ⟨⟨asks_of_canAsk ?_, above_of_take ?_⟩, ?_, eq_of_saysCount ?_⟩
    all_goals decide +kernel

end Machine
end Reflection

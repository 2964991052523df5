import Reflection.Proofs.Dispatcher.Snapshot
import Reflection.Proofs.Machine.Deliveries
import Reflection.Proofs.Machine.Order
import Reflection.Proofs.Machine.Relinking
/-!
# Emissions deliver their snapshot

An emission attempts a delivery for each connection of its signal that there was when it began, in the
order in which they were made, and reports what became of each (`emission_delivers_snapshot`). What
slots do while it is under way changes neither which deliveries are attempted nor in which order.
-/

namespace Reflection

variable {s : Shared} {d : DispatcherId} {o : ObjectId} {signal : Nat} {args : List Variant}

/-! ## Reports -/

/-- Every ending is counted once. -/
theorem EmitReport.length_endings (report : EmitReport) :
    report.count .direct + report.count .queued + report.count .blocking + report.count .skipped +
      report.failures.length = report.endings.length := by
  obtain ⟨endings⟩ := report
  induction endings with
  | nil => rfl
  | cons p endings ih =>
    obtain ⟨id, ending⟩ := p
    simp only [count, failures, List.countP_cons, List.filterMap_cons, List.length_cons] at ih ⊢
    cases ending <;> simp <;> omega

/-! ## Asking for an emission -/

/-- An action asks for the emission of a signal, given by its absolute index. -/
inductive EmitsSignal (s : Shared) (d : DispatcherId) (o : ObjectId) (signal : Nat)
    (args : List Variant) : Action → Prop
  | named {text : String} {r : Registration}
      (spells : (s.dispatcher d).methodNamed o text = .ok (r, signal)) :
      EmitsSignal s d o signal args (.emit d o text args)
  | indexed : EmitsSignal s d o signal args (.emitByIndex d o signal args)
  /-- The object emits its own signal. -/
  | ownNamed {i : InstanceId} {text : String} {r : Registration}
      (registered : s.openBinding? i = some (d, o))
      (spells : (s.dispatcher d).methodNamed o text = .ok (r, signal)) :
      EmitsSignal s d o signal args (.emitOwn i text args)
  | ownIndexed {i : InstanceId} (registered : s.openBinding? i = some (d, o)) :
      EmitsSignal s d o signal args (.emitOwnByIndex i signal args)

namespace Thread

theorem act_eq_perform {th : Thread} {entry : Entry} {fs : List Frame} {a : Action}
    (hf : th.frames = .body entry :: fs) (permitted : permits s a) :
    th.act s a = perform s { th with answer := none } a := by
  unfold act
  rw [hf]
  exact if_pos permitted

/-- A registered object emits over the dispatcher where it is registered. -/
theorem emitOwn_of_registered {th : Thread} {i : InstanceId}
    (deliveries : Dispatcher → ObjectId → Except DispatchError (List (ConnectionId × Connection)))
    (registered : s.openBinding? i = some (d, o)) :
    ∃ held, emitOwn s th i args deliveries =
      beginEmitting s th d args held (deliveries (s.dispatcher d) o) := by
  unfold emitOwn
  rw [registered]
  exact ⟨_, rfl⟩

/-- An action that asks for an emission begins it, with the deliveries that it has to make. -/
theorem act_of_emitsSignal {th : Thread} {entry : Entry} {fs : List Frame} {a : Action}
    (hf : th.frames = .body entry :: fs) (permitted : permits s a)
    (emits : EmitsSignal s d o signal args a) :
    ∃ held, th.act s a = beginEmitting s { th with answer := none } d args held
      ((s.dispatcher d).beginEmission o signal args) := by
  rw [act_eq_perform hf permitted]
  cases emits with
  | named spells =>
    rw [← Dispatcher.beginEmissionNamed_of_named spells]
    exact ⟨_, rfl⟩
  | indexed => exact ⟨_, rfl⟩
  | ownNamed registered spells =>
    rw [← Dispatcher.beginEmissionNamed_of_named spells]
    exact emitOwn_of_registered (fun x id => x.beginEmissionNamed id _ args) registered
  | ownIndexed registered =>
    exact emitOwn_of_registered (fun x id => x.beginEmission id signal args) registered

end Thread

namespace Machine

variable {m : Machine} {t : Nat} {th : Thread} {entry : Entry} {fs : List Frame} {a : Action}
  {later : List Move} {answer : Answer} {all : List (ConnectionId × Connection)}

/-! ## Asking and getting an answer -/

/-- Client code runs at the top of a thread and may ask for an action. -/
def Asks (m : Machine) (t : Nat) (a : Action) : Prop :=
  ∃ th entry fs, m.threads[t]? = some th ∧ th.frames = .body entry :: fs ∧
    Thread.permits m.shared a

/-- Does client code run at the top of a thread, and may it ask for an action? -/
def canAsk (m : Machine) (t : Nat) (a : Action) : Bool :=
  match m.threads[t]? with
  | some { frames := .body _ :: _, .. } => Thread.permits m.shared a
  | _ => false

theorem asks_of_canAsk (h : m.canAsk t a) : m.Asks t a := by
  unfold canAsk at h
  split at h
  · rename_i ht
    exact ⟨_, _, _, ht, rfl, h⟩
  · cases h

/-- Client code has asked for an action, and does not go on before the last of the moves `later`. -/
structure Pends (m : Machine) (t : Nat) (a : Action) (later : List Move) : Prop where
  asks : m.Asks t a
  above : (m.act t a).Above t (m.depth t) later

/-- Client code has asked for an action, and goes on with an answer after the last of the moves
`later`. -/
structure Completes (m : Machine) (t : Nat) (a : Action) (later : List Move) (answer : Answer) : Prop
    extends Pends m t a later where
  returns : ((m.act t a).run later).depth t ≤ m.depth t
  answered : ((m.act t a).run later).threads[t]?.bind (·.answer) = some answer

theorem act_eq (ht : m.threads[t]? = some th) (a : Action) :
    m.act t a = ⟨(th.act m.shared a).1, m.threads.set t (th.act m.shared a).2⟩ :=
  onThread_of_some ht _

theorem Regular.act (h : m.Regular) (t : Nat) (a : Action) : (m.act t a).Regular :=
  h.move (.act t a)

theorem depth_of_frames (ht : m.threads[t]? = some th) (hf : th.frames = .body entry :: fs) :
    m.depth t = fs.length + 1 := by
  rw [depth_eq ht, hf]
  rfl

/-- An answer that is about to be handed to client code has not been handed to it. -/
theorem Answering.depth (h : m.Answering t (.body entry :: fs) answer) : fs.length + 1 < m.depth t := by
  obtain ⟨th, top, held, ht, hf⟩ := h
  rw [depth_eq ht, hf]
  simp
  omega

/-- While an emission is under way, client code does not go on. -/
theorem lt_depth_of_on {base : List Frame} {e : Emission} (ht : m.threads[t]? = some th)
    (on : e.On base th.frames) : base.length < m.depth t := by
  rw [depth_eq ht]
  generalize th.frames = frames at on
  cases on with
  | idle => simp
  | busy =>
    simp
    omega

theorem Answered.answer_eq {answer' : Answer} (h : m.Answered t (.body entry :: fs) answer)
    (answered : m.threads[t]?.bind (·.answer) = some answer') : answer' = answer := by
  obtain ⟨th, ht, -, has⟩ := h
  rw [ht, Option.bind_some, has] at answered
  exact (Option.some.inj answered).symm

/-- When client code goes on, the operation that it has asked for is over. -/
theorem Completes.over (h : m.Completes t a later answer) (ht : m.threads[t]? = some th)
    (hf : th.frames = .body entry :: fs) {P : Prop} {Q : Answer → Prop}
    (higher : P → fs.length + 1 < ((m.act t a).run later).depth t)
    (run : P ∨ ∃ answer, Q answer ∧ (((m.act t a).run later).Answering t (.body entry :: fs) answer ∨
      ((m.act t a).run later).Answered t (.body entry :: fs) answer)) : Q answer := by
  have height := depth_of_frames ht hf
  have returns := h.returns
  rw [height] at returns
  rcases run with underWay | ⟨answer', holds, answering | answered⟩
  · exact absurd returns (Nat.not_le.2 (higher underWay))
  · exact absurd returns (Nat.not_le.2 answering.depth)
  · exact answered.answer_eq h.answered ▸ holds

/-- Client code stays where it is while it waits for the answer to what it has asked for. -/
theorem Pends.body (regular : m.Regular) (h : m.Pends t a later) (ht : m.threads[t]? = some th)
    (hf : th.frames = .body entry :: fs) :
    ∃ th' top, ((m.act t a).run later).threads[t]? = some th' ∧ th'.frames = top ++ .body entry :: fs := by
  have above := h.above
  rw [depth_of_frames ht hf] at above
  clear h
  induction later using List.reverseRecOn with
  | nil =>
    obtain ⟨top, frames⟩ := Thread.act_body (s := m.shared) hf a
    refine ⟨_, top, ?_, frames⟩
    rw [run_nil, act_eq ht]
    exact getElem?_set_thread ht _
  | append_singleton before b ih =>
    obtain ⟨th', top, ht', hf'⟩ := ih above.init
    have regular' : ((m.act t a).run before).Regular := (regular.act t a).run before
    have higher := above.last
    rw [depth_eq ht', hf'] at higher
    rw [run_concat]
    rcases move_body (regular'.sound_frames ht') ht' hf' b with after | ⟨rfl, -⟩
    · exact after
    · simp at higher

/-- Client code goes on when everything above it is over. -/
theorem Completes.body (regular : m.Regular) (h : m.Completes t a later answer)
    (ht : m.threads[t]? = some th) (hf : th.frames = .body entry :: fs) :
    ∃ th', ((m.act t a).run later).threads[t]? = some th' ∧ th'.frames = .body entry :: fs := by
  obtain ⟨th', top, ht', hf'⟩ := h.toPends.body regular ht hf
  have returns := h.returns
  rw [depth_of_frames ht hf, depth_eq ht', hf', List.length_append, List.length_cons] at returns
  obtain rfl := List.eq_nil_of_length_eq_zero (Nat.le_zero.1 (Nat.le_of_add_le_add_right
    (returns.trans_eq (Nat.zero_add _).symm)))
  exact ⟨th', ht', hf'⟩

/-- The answer with which client code goes on is the one that was about to be handed to it. -/
theorem Completes.answer_eq (regular : m.Regular) (h : m.Completes t a later answer)
    (ht : m.threads[t]? = some th) (hf : th.frames = .body entry :: fs) {answer' : Answer}
    (begun : (m.act t a).Answering t (.body entry :: fs) answer') : answer = answer' := by
  have height := depth_of_frames ht hf
  obtain ⟨-, ends⟩ := answering_run (regular.act t a) begun later (height ▸ h.above)
  exact h.over ht hf (Q := (· = answer')) False.elim (.inr ⟨answer', rfl, ends⟩)

/-- An answer that client code has at once is the one with which it goes on. -/
theorem Completes.eq_of_answered (h : m.Completes t a later answer) {answer' : Answer}
    (answered : (m.act t a).Answered t (.body entry :: fs) answer')
    (same : m.depth t = fs.length + 1) : answer = answer' := by
  cases later with
  | nil => exact answered.answer_eq h.answered
  | cons first later =>
    -- Client code would have to go on before it has its answer.
    have higher : m.depth t < (m.act t a).depth t := h.above [] List.nil_prefix (by simp)
    rw [same, answered.depth] at higher
    exact absurd higher (Nat.lt_irrefl _)

theorem Completes.eq_of_reply (h : m.Completes t a later answer) (ht : m.threads[t]? = some th)
    (hf : th.frames = .body entry :: fs) {s' : Shared} {answer' : Answer}
    (replies : Thread.perform m.shared { th with answer := none } a =
      Thread.reply s' { th with answer := none } answer') : answer = answer' := by
  obtain ⟨th₀, entry₀, fs₀, -, -, permitted⟩ := h.asks
  have acts := act_eq ht a
  rw [Thread.act_eq_perform hf permitted, replies] at acts
  have answered : (m.act t a).Answered t (.body entry :: fs) answer' := by
    rw [acts]
    exact ⟨_, getElem?_set_thread ht _, hf, rfl⟩
  exact h.eq_of_answered answered (depth_of_frames ht hf)

/-- To see that a stack is higher, look at it after each number of moves. -/
theorem above_of_take {n : Nat} {moves : List Move}
    (h : ∀ k, k < moves.length → n < (m.run (moves.take k)).depth t) : m.Above t n moves := by
  intro before sub ne
  have part : before = moves.take before.length := List.prefix_iff_eq_take.1 sub
  rw [part]
  refine h _ (Nat.lt_of_le_of_ne sub.length_le fun whole => ne ?_)
  rw [part, whole, List.take_length]

/-! ## Emissions -/

/-- An emission that does not pass its checks has its answer at once. -/
theorem answering_of_emitsSignal (ht : m.threads[t]? = some th) (hf : th.frames = .body entry :: fs)
    (permitted : Thread.permits m.shared a) (emits : EmitsSignal m.shared d o signal args a)
    {error : DispatchError}
    (fails : (m.shared.dispatcher d).beginEmission o signal args = .error error) :
    (m.act t a).Answering t (.body entry :: fs) (.emitted (.error error)) := by
  obtain ⟨held, acts⟩ := Thread.act_of_emitsSignal hf permitted emits
  rw [fails] at acts
  rw [act_eq ht, acts]
  exact ⟨_, [], held, getElem?_set_thread ht _, congrArg (_ :: ·) hf⟩

/-- An emission that passes its checks comes on top of the client code that has asked for it. -/
theorem stands_of_emitsSignal (ht : m.threads[t]? = some th) (hf : th.frames = .body entry :: fs)
    (permitted : Thread.permits m.shared a) (emits : EmitsSignal m.shared d o signal args a)
    (passes : (m.shared.dispatcher d).beginEmission o signal args = .ok all) :
    ∃ held th', (m.act t a).threads[t]? = some th' ∧ th'.frames =
      .emitting { dispatcher := d, args, current := th.current, remaining := all, held } ::
        .body entry :: fs := by
  obtain ⟨held, acts⟩ := Thread.act_of_emitsSignal hf permitted emits
  rw [passes] at acts
  rw [act_eq ht, acts]
  exact ⟨held, _, getElem?_set_thread ht _, congrArg (_ :: ·) hf⟩

/-- An emission that passes its checks is under way, and nothing is attempted yet. -/
theorem emits_of_emitsSignal (ht : m.threads[t]? = some th) (hf : th.frames = .body entry :: fs)
    (permitted : Thread.permits m.shared a) (emits : EmitsSignal m.shared d o signal args a)
    (passes : (m.shared.dispatcher d).beginEmission o signal args = .ok all) :
    ∃ e, (m.act t a).Emits t (.body entry :: fs) d all [] (fun _ => False) e := by
  obtain ⟨held, th', ht', frames⟩ := stands_of_emitsSignal ht hf permitted emits passes
  let e : Emission := { dispatcher := d, args, current := th.current, remaining := all, held }
  refine ⟨e, ⟨th', ht', ?_⟩, ?_⟩
  · rw [frames]
    exact .idle rfl
  · exact {
      dispatcher := rfl
      split := rfl
      settled := .nil
      skipped := fun _ h => nomatch h
      awaiting := fun _ _ h => nomatch h }

/-- An emission attempts only deliveries that it has to make; when it is over, all of them were
attempted and have an ending. -/
theorem emission_run (regular : m.Regular) (pends : m.Pends t a later)
    (emits : EmitsSignal m.shared d o signal args a)
    (passes : (m.shared.dispatcher d).beginEmission o signal args = .ok all) :
    (m.act t a).attempts t (m.depth t) later <+: all ∧
      ∀ answer, m.Completes t a later answer → (m.act t a).attempts t (m.depth t) later = all ∧
        ∃ report, answer = .emitted (.ok report) ∧ Covers all ((m.act t a).GoneBy later d) report := by
  obtain ⟨⟨th, entry, fs, ht, hf, permitted⟩, above⟩ := pends
  have height := depth_of_frames ht hf
  obtain ⟨e, begun⟩ := emits_of_emitsSignal ht hf permitted emits passes
  rw [height] at above ⊢
  rcases emits_run (regular.act t a) begun (fun _ => id) later above with
    ⟨e', emits⟩ | ⟨whole, report, covers, ends⟩
  · refine ⟨⟨e'.remaining, emits.accounts.split.symm⟩, fun answer completes => ?_⟩
    obtain ⟨th', ht', on⟩ := emits.stands
    exact absurd completes.returns (Nat.not_le.2 (height ▸ lt_depth_of_on ht' on))
  · refine ⟨whole ▸ List.prefix_rfl, fun answer completes => ⟨whole, report, ?_, covers⟩⟩
    exact completes.over ht hf (Q := (· = .emitted (.ok report))) False.elim (.inr ⟨_, rfl, ends⟩)

/-- Each attempt of an emission does something for its delivery, and when the emission is over, its report
tells what has become of each delivery. -/
theorem tells_of_emitsSignal (reachable : m.Reachable) (ht : m.threads[t]? = some th)
    (pends : m.Pends t a later) (emits : EmitsSignal m.shared d o signal args a)
    (passes : (m.shared.dispatcher d).beginEmission o signal args = .ok all) :
    (m.act t a).Effective t (m.depth t) later d args th.current ∧
      ∀ answer, m.Completes t a later answer → ∃ report, answer = .emitted (.ok report) ∧
        ∀ id ending, (id, ending) ∈ report.endings → ∃ c, (id, c) ∈ all ∧
          (m.act t a).Delivered t (m.depth t) later d args th.current (id, c) ending := by
  obtain ⟨⟨th₀, entry, fs, ht₀, hf, permitted⟩, above⟩ := pends
  cases ht.symm.trans ht₀
  obtain ⟨held, th', ht', frames⟩ := stands_of_emitsSignal ht hf permitted emits passes
  have height := depth_of_frames ht hf
  rw [height] at above ⊢
  rcases pursues_run (reachable.run [.act t a]) ht' frames rfl rfl rfl later above with
    ⟨e, th, ht, on, tells⟩ | ⟨answer', ⟨report, told, tells⟩, ends⟩
  · refine ⟨tells.effective, fun answer completes => ?_⟩
    exact absurd completes.returns (Nat.not_le.2 (height ▸ lt_depth_of_on ht on))
  · refine ⟨tells.effective, fun answer completes => ⟨report, ?_, tells.delivered⟩⟩
    exact completes.over ht hf (Q := (· = .emitted (.ok report))) False.elim (.inr ⟨_, told, ends⟩)

/-- An emission attempts only deliveries over connections that there were when it began, whether or not
it passes its checks. -/
theorem attempts_were_live (regular : m.Regular) (pends : m.Pends t a later)
    (emits : EmitsSignal m.shared d o signal args a) {p : ConnectionId × Connection}
    (attempted : p ∈ (m.act t a).attempts t (m.depth t) later) :
    (m.shared.dispatcher d).connection? p.1 = some p.2 := by
  cases begun : (m.shared.dispatcher d).beginEmission o signal args with
  | ok all =>
    obtain ⟨sub, -⟩ := emission_run regular pends emits begun
    exact Dispatcher.live_of_beginEmission begun p (sub.subset attempted)
  | error error =>
    obtain ⟨⟨th, entry, fs, ht, hf, permitted⟩, above⟩ := pends
    have height := depth_of_frames ht hf
    rw [height] at above attempted
    have answering := answering_of_emitsSignal ht hf permitted emits begun
    obtain ⟨none, -⟩ := answering_run (regular.act t a) answering later above
    rw [none] at attempted
    cases attempted

/-! ## Disconnecting -/

/-- Whether there was a connection to cut is known at once, and handed to client code later. -/
theorem answering_of_disconnect (ht : m.threads[t]? = some th) (hf : th.frames = .body entry :: fs)
    {id : ConnectionId} (permitted : Thread.permits m.shared (.disconnect d id)) :
    let cut := (m.shared.dispatcher d).disconnect id
    (m.act t (.disconnect d id)).shared =
      (m.shared.retain (.dispatcher d)).setDispatcher d cut.2 ∧
    (m.act t (.disconnect d id)).Answering t (.body entry :: fs) (.flag cut.1.isSome) := by
  intro cut
  rw [act_eq ht, Thread.act_eq_perform hf permitted]
  refine ⟨rfl, _, Thread.afterCut cut.1 [], [.dispatcher d], getElem?_set_thread ht _, ?_⟩
  rw [← hf]
  exact Thread.afterCut_append cut.1 [] _

/-- A connection that was disconnected, as client code was told, cannot be there again. -/
theorem lost_of_completes (regular : m.Regular) {id : ConnectionId}
    (h : m.Completes t (.disconnect d id) later (.flag true)) :
    ((m.act t (.disconnect d id)).run later).shared.Lost d id := by
  obtain ⟨th, entry, fs, ht, hf, permitted⟩ := h.asks
  obtain ⟨shared, answering⟩ := answering_of_disconnect ht hf permitted
  have told := h.answer_eq regular ht hf answering
  obtain ⟨c, hc⟩ := Option.isSome_iff_exists.1 (Answer.flag.inj told).symm
  have lost : (m.act t (.disconnect d id)).shared.Lost d id := by
    rw [shared]
    have opened : 0 < (m.shared.retain (.dispatcher d)).handles d := by
      rw [Shared.handles_retain (Shared.isOpen_iff.1 permitted), if_pos rfl]
      exact Nat.succ_pos _
    refine .inr ?_
    rw [Shared.dispatcher_setDispatcher opened]
    exact Dispatcher.lost_disconnect hc
  exact (kept_lost d id).run (regular.act t _).sound lost later

/-- The dispatcher for which client code may ask an emission is not gone. -/
theorem opened_of_emitsSignal (permitted : Thread.permits s a)
    (emits : EmitsSignal s d o signal args a) : 0 < s.handles d := by
  have bound : ∀ {i}, s.openBinding? i = some (d, o) → s.isOpen d := fun registered =>
    (Option.filter_eq_some_iff.1 registered).2
  refine Shared.isOpen_iff.1 ?_
  cases emits with
  | named | indexed => exact permitted
  | ownNamed registered | ownIndexed registered => exact bound registered

/-! ## Main theorem -/

variable {r : Registry} {past : List Move} {reg : Registration} {id : ConnectionId}

theorem regular_run (r : Registry) (past : List Move) : ((start r).run past).Regular :=
  (regular_start r).run past

/-- A snapshot is in the order in which its connections were made. -/
theorem snapshot_in_order (hr : (((start r).run past).shared.dispatcher d).object? o = some reg)
    (signal : Nat) :
    (((((start r).run past).shared.dispatcher d).snapshot reg signal).map (·.1)).Pairwise
      (MadeBefore r past d) := by
  rw [((regular_run r past).sorted.linked d).map_fst_snapshot hr signal, Registration.outgoingOf,
    List.pairwise_map]
  exact (outgoing_in_order r past d o reg.links (Dispatcher.links?_of_object? hr)).filter _

/-- A connection that was disconnected, as client code was told, is not there any more. -/
theorem not_live_of_disconnected {before during rest : List Move} {t' : Nat}
    (parts : past = before ++ .act t' (.disconnect d id) :: (during ++ rest))
    (disconnected : ((start r).run before).Completes t' (.disconnect d id) during (.flag true))
    (opened : 0 < ((start r).run past).shared.handles d) :
    (((start r).run past).shared.dispatcher d).connection? id = none := by
  have regular := regular_run r before
  have lost := lost_of_completes regular disconnected
  have later := (kept_lost d id).run ((regular.act t' _).run during).sound lost rest
  rw [← run_append] at later
  have whole : (start r).run past =
      (((start r).run before).act t' (.disconnect d id)).run (during ++ rest) := by
    rw [parts, run_append]
    rfl
  rw [whole] at opened ⊢
  rcases later with closed | lost
  · exact absurd (closed.2 ▸ opened) (Nat.lt_irrefl 0)
  · exact lost.1

/-- Let client code ask for the emission of a signal after any run.

If the emission passes its checks and its sender is active and not blocked, the snapshot has the
connections of the signal that there are, in the order in which they were made. Whatever happens until
client code goes on, only deliveries of the snapshot are attempted, in its order; when client code goes
on, each was attempted once, and the report counts each once.

The move that attempts a delivery calls its slot on the same thread, puts one call for it into the queue of
its receiver, or does neither because the receiver is gone or the emission would have to wait for its own
context. The report tells what has become of it: a delivery is counted as direct or as failed by what the
slot has said at its end, as queued if its call was put into a queue, and as made over a blocking connection
if this call was executed to its end. One was skipped only if its receiver was not active any more or the
last reference to it was gone.

An emission attempts no delivery over a connection that was disconnected before, as client code was
told. A connection that is made or cut while an emission is under way makes no difference to it: the
steps that make deliveries do not depend on connections. -/
theorem emission_delivers_snapshot (r : Registry) (past : List Move) (t : Nat) (d : DispatcherId)
    (o : ObjectId) (signal : Nat) (args : List Variant) (a : Action)
    (emits : EmitsSignal ((start r).run past).shared d o signal args a) :
    let m := (start r).run past
    let x := m.shared.dispatcher d
    let attempts := (m.act t a).attempts t (m.depth t)
    (∀ reg, x.MayEmit o reg signal args →
      let snapshot := x.snapshot reg signal
      (∀ id c, (id, c) ∈ snapshot ↔
        x.connections.get? id = some c ∧ c.sender = o ∧ c.signal = signal) ∧
      (snapshot.map (·.1)).Nodup ∧
      (snapshot.map (·.1)).Pairwise (MadeBefore r past d) ∧
      (∀ later, m.Pends t a later → attempts later <+: snapshot) ∧
      (∀ th later, m.threads[t]? = some th → m.Pends t a later →
        (m.act t a).Effective t (m.depth t) later d args th.current) ∧
      ∀ later answer, m.Completes t a later answer →
        attempts later = snapshot ∧
        ∃ report, answer = .emitted (.ok report) ∧
          (report.endings.map (·.1)).Perm (snapshot.map (·.1)) ∧
          report.count .direct + report.count .queued + report.count .blocking +
            report.count .skipped + report.failures.length = snapshot.length ∧
          (∀ id, (id, .skipped) ∈ report.endings →
            ∃ c, (id, c) ∈ snapshot ∧ (m.act t a).GoneBy later d c.target) ∧
          ∀ th, m.threads[t]? = some th → ∀ id ending, (id, ending) ∈ report.endings →
            ∃ c, (id, c) ∈ snapshot ∧
              (m.act t a).Delivered t (m.depth t) later d args th.current (id, c) ending) ∧
    (∀ before t' id during rest, past = before ++ .act t' (.disconnect d id) :: (during ++ rest) →
      ((start r).run before).Completes t' (.disconnect d id) during (.flag true) →
      ∀ later, m.Pends t a later → ∀ p ∈ attempts later, p.1 ≠ id) ∧
    (∀ w : Machine, ∀ y, (w.shared.dispatcher d).Rewires y →
      w.Relinked { w with shared := w.shared.setDispatcher d y }) ∧
    ∀ w w' : Machine, ∀ t', w.Relinked w' → w.Delivers t' →
      (w.move (.advance t')).Relinked (w'.move (.advance t')) ∧
      (w.move (.expire t')).Relinked (w'.move (.expire t')) := by
  intro m x attempts
  have reachable : m.Reachable := ⟨r, past, rfl⟩
  have regular := reachable.regular
  have linked := regular.sorted.linked d
  refine ⟨fun reg admits => ?_, ?_, fun w y => relinked_of_rewires, ?_⟩
  · have hr := admits.object
    have passes := admits.beginEmission
    refine ⟨fun id c => linked.mem_snapshot_iff hr admits.active, ?_, snapshot_in_order hr signal,
      fun later pends => (emission_run regular pends emits passes).1,
      fun th later ht pends => (tells_of_emitsSignal reachable ht pends emits passes).1, ?_⟩
    · rw [linked.map_fst_snapshot hr]
      exact linked.nodup_outgoingOf hr signal
    · intro later answer completes
      obtain ⟨whole, report, told, covers⟩ :=
        (emission_run regular completes.toPends emits passes).2 answer completes
      refine ⟨whole, report, told, covers.ids, ?_, covers.skipped, fun th ht => ?_⟩
      -- Each delivery has one ending, and each ending is counted once.
      · have length := covers.ids.length_eq
        rw [List.length_map, List.length_map] at length
        exact report.length_endings.trans length
      · obtain ⟨report', told', delivered⟩ :=
          (tells_of_emitsSignal reachable ht completes.toPends emits passes).2 answer completes
        cases told.symm.trans told'
        exact delivered
  -- What is attempted was there when the emission began, and `id` was not.
  · rintro before t' id during rest parts disconnected later pends p attempted rfl
    obtain ⟨th, entry, fs, -, -, permitted⟩ := pends.asks
    have live := attempts_were_live regular pends emits attempted
    have none := not_live_of_disconnected parts disconnected (opened_of_emitsSignal permitted emits)
    rw [none] at live
    cases live
  · exact fun w w' t' h delivers => ⟨h.advance delivers, h.expire delivers⟩

/-! ### Runs -/

/-- A bell is hung twice, and the first connection is disconnected. -/
def rehang : List Move :=
  hang ++ .act 0 (.connectByIndex 0 ⟨0, 1⟩ 0 ⟨0, 1⟩ 1 .direct) ::
    .act 0 (.disconnect 0 ⟨0, 1⟩) :: [.advance 0, .advance 0]

/-- The bell rings: its slot is called, runs and ends, and what was held for it is given back. -/
def ring : List Move :=
  [.advance 0, .advance 0, .finish 0 (.returned none), .advance 0, .advance 0, .advance 0, .advance 0,
    .advance 0]

/-- A bell that was hung twice and taken down once is heard once, and its slot has run. -/
theorem rehung_bell_is_heard_once :
    let m := (start bells).run rehang
    let a := Action.emitByIndex 0 ⟨0, 1⟩ 0 []
    m.Completes 0 a ring (.emitted (.ok ⟨[(⟨1, 1⟩, .direct)]⟩)) ∧
      (∃ c entry y, (m.act 0 a).Performed 0 (m.depth 0) ring 0 [] (.own 0) (⟨1, 1⟩, c) entry y) ∧
      (∃ reg, (m.shared.dispatcher 0).MayEmit ⟨0, 1⟩ reg 0 [] ∧
        (m.act 0 a).attempts 0 (m.depth 0) ring = (m.shared.dispatcher 0).snapshot reg 0) ∧
      ∀ p ∈ (m.act 0 a).attempts 0 (m.depth 0) ring, p.1 ≠ ⟨0, 1⟩ := by
  have completes : ((start bells).run rehang).Completes 0 (.emitByIndex 0 ⟨0, 1⟩ 0 []) ring
      (.emitted (.ok ⟨[(⟨1, 1⟩, .direct)]⟩)) := by
    refine ⟨⟨⟨{ current := .own 0, answer := some (.flag true) }, .program, [], ?_, ?_, ?_⟩,
      above_of_take ?_⟩, ?_, ?_⟩
    · rfl
    · rfl
    · decide
    · decide
    · decide
    · rfl
  have disconnected : ((start bells).run (rehang.take 6)).Completes 0 (.disconnect 0 ⟨0, 1⟩)
      [.advance 0, .advance 0] (.flag true) := by
    refine ⟨⟨⟨{ current := .own 0, answer := some (.connected (.ok ⟨1, 1⟩)) }, .program, [], ?_, ?_,
      ?_⟩, above_of_take ?_⟩, ?_, ?_⟩
    · rfl
    · rfl
    · decide
    · decide
    · decide
    · rfl
  intro m a
  obtain ⟨reg, admits⟩ : ∃ reg, (m.shared.dispatcher 0).MayEmit ⟨0, 1⟩ reg 0 [] := by decide
  obtain ⟨delivers, forgets, -, -⟩ :=
    emission_delivers_snapshot bells rehang 0 0 ⟨0, 1⟩ 0 [] a .indexed
  obtain ⟨-, -, -, -, -, complete⟩ := delivers reg admits
  obtain ⟨whole, report, told, -, -, -, delivered⟩ := complete ring _ completes
  cases told
  obtain ⟨c, -, direct⟩ := delivered _ rfl _ _ (List.mem_singleton_self _)
  obtain ⟨entry, y, performed⟩ := direct.performed
  refine ⟨completes, ⟨c, entry, y, performed⟩, ⟨reg, admits, whole⟩, ?_⟩
  exact forgets (rehang.take 6) 0 ⟨0, 1⟩ _ [] rfl disconnected ring completes.toPends

/-- A bell whose last reference was given back, just before it goes. -/
def orphan : List Move :=
  hang ++ [.act 0 (.dropObject 0), .advance 0]

/-- The bell rings, and nothing runs. -/
def skip : List Move :=
  [.advance 0, .advance 0, .advance 0, .advance 0]

/-- A delivery to a bell whose last reference was given back is skipped while the bell is still
active. -/
theorem orphan_is_skipped_while_active :
    let m := (start bells).run orphan
    let x := m.shared.dispatcher 0
    let a := Action.emitByIndex 0 ⟨0, 1⟩ 0 []
    EmitsSignal m.shared 0 ⟨0, 1⟩ 0 [] a ∧ (∃ reg, x.MayEmit ⟨0, 1⟩ reg 0 []) ∧
      (x.object? ⟨0, 1⟩).map (x.snapshot · 0) =
        some [(⟨0, 1⟩, ⟨⟨0, 1⟩, 0, .method ⟨0, 1⟩ 1, .direct⟩)] ∧
      m.Completes 0 a skip (.emitted (.ok ⟨[(⟨0, 1⟩, .skipped)]⟩)) ∧
      ∀ k ≤ skip.length,
        (((m.act 0 a).run (skip.take k)).shared.dispatcher 0).contains ⟨0, 1⟩ := by
  let rest : List Frame := [.disposing 0, .releasing [] (.answer .done), .body .program]
  have completes : ((start bells).run orphan).Completes 0 (.emitByIndex 0 ⟨0, 1⟩ 0 []) skip
      (.emitted (.ok ⟨[(⟨0, 1⟩, .skipped)]⟩)) := by
    refine ⟨⟨⟨{ current := .own 0, frames := .body (.disposer 0) :: rest }, .disposer 0, rest, ?_, ?_,
      ?_⟩, above_of_take ?_⟩, ?_, ?_⟩
    · rfl
    · rfl
    · decide
    · decide
    · decide
    · rfl
  intro m x a
  exact ⟨.indexed, by decide, by decide, completes, by decide⟩

end Machine
end Reflection

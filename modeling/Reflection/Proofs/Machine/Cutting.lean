import Reflection.Proofs.Machine.Connecting
/-!
# Connections are cut step by step

An operation that removes connections holds its dispatcher, cuts one connection at a time, and gives the
callback of each back before it cuts the next. When the thread is left alone and the client code that
disposes of callbacks does nothing, there is one way for this to go on (`Removing.next`). So the operation
comes to an end, and then its dispatcher is what cutting all at once makes of it, and nothing else is
different but how many hold the callbacks (`removed_of_removing`, `exists_removed`).
-/

namespace Reflection

namespace Shared

variable {s : Shared} {d : DispatcherId} {x y : Dispatcher} {callbacks : List Nat}

theorem setDispatcher_self (s : Shared) (d : DispatcherId) : s.setDispatcher d (s.dispatcher d) = s := by
  have same : s.dispatchers.modify d (fun h => { h with dispatcher := s.dispatcher d }) = s.dispatchers := by
    refine List.ext_getElem? fun i => ?_
    rw [List.getElem?_modify]
    cases hx : s.dispatchers[i]? with
    | none => rfl
    | some h =>
      by_cases e : d = i
      · simp [dispatcher, e, hx]
      · simp [e]
  rw [setDispatcher, same]

theorem setDispatcher_setDispatcher (s : Shared) (d : DispatcherId) (x y : Dispatcher) :
    (s.setDispatcher d x).setDispatcher d y = s.setDispatcher d y := by
  rw [setDispatcher, setDispatcher, List.modify_modify_eq]
  rfl

/-- What threads share when a dispatcher has changed and the callbacks have other numbers of holders. -/
def withChanges (s : Shared) (d : DispatcherId) (x : Dispatcher) (callbacks : List Nat) : Shared :=
  { s.setDispatcher d x with callbacks }

theorem withChanges_self (s : Shared) (d : DispatcherId) :
    s.withChanges d (s.dispatcher d) s.callbacks = s := by
  rw [withChanges, setDispatcher_self]

theorem dispatcher_withChanges (opened : 0 < s.handles d) : (s.withChanges d x callbacks).dispatcher d = x :=
  dispatcher_setDispatcher opened x

theorem setDispatcher_withChanges :
    (s.withChanges d x callbacks).setDispatcher d y = s.withChanges d y callbacks := by
  have same := setDispatcher_setDispatcher s d x y
  exact congrArg (fun s : Shared => { s with callbacks }) same

/-- The handle that an operation holds is not the last one, so it can be given back. -/
theorem letGo_withChanges (opened : 0 < s.handles d) :
    ((s.retain (.dispatcher d)).withChanges d x callbacks).letGo (.dispatcher d) =
      (false, s.withChanges d x callbacks) := by
  obtain ⟨h, hd⟩ := getElem?_of_handles opened
  have others : h.handles ≠ 0 := by
    rw [handles, hd] at opened
    exact Nat.pos_iff_ne_zero.1 opened
  refine Prod.ext ?_ ?_
  · simp [letGo, withChanges, setDispatcher, retain, hd, others]
  · simp only [letGo, withChanges, setDispatcher, retain, List.modify_modify_eq]
    rfl

end Shared

/-- An answer says that nothing was removed. -/
def Answer.Denies : Answer → Prop
  | .flag yes => yes = false
  | .count n => n = 0
  | _ => False

/-- How many steps a removal under way has still to take at most, as far as a frame of it tells. -/
def Frame.stepsLeft : Frame → Nat
  | .disconnecting _ ids _ _ | .severing _ _ ids _ _ => 4 * ids.length + 4
  | .releasing held _ => 2 * held.length + 1
  | .body _ => 1
  | _ => 0

namespace Thread

variable {s : Shared} {th : Thread} {entry : Entry} {fs : List Frame} {d : DispatcherId} {x z : Dispatcher}
  {f : Frame} {answer : Answer} {p : Shared × Thread}

/-- What stands above an operation while a callback is given back: it is still to be given back, the
client code that disposes of it runs, or that has ended. -/
inductive GivesBack : List Frame → Prop
  | idle : GivesBack []
  | due (c : CallbackId) : GivesBack [.releasing [.callback c] .nothing]
  | disposes (c : CallbackId) : GivesBack [.body (.callbackDisposer c), .releasing [] .nothing]
  | given : GivesBack [.releasing [] .nothing]

/-- What a removal under way comes to in a dispatcher: its answer, and the dispatcher then. -/
inductive ComesTo (d : DispatcherId) (x : Dispatcher) : Frame → Answer → Dispatcher → Prop
  | disconnecting (ids : List ConnectionId) (count : Nat) :
      ComesTo d x (.disconnecting d ids count [.dispatcher d])
        (.count (count + (x.disconnectEach ids).1)) (x.disconnectEach ids).2
  | severing (o : ObjectId) (ids : List ConnectionId) :
      ComesTo d x (.severing d o ids [.dispatcher d] (.answer (.flag true))) (.flag true)
        ((x.severEach o ids).endDestroy o)
  | releasing (answer : Answer) : ComesTo d x (.releasing [.dispatcher d] (.answer answer)) answer x

/-- A removal that client code has asked for on `th` is under way: its dispatcher has come to `x`, or the
answer is about to be handed to the client code. -/
inductive Removing (s : Shared) (th : Thread) (d : DispatcherId) (answer : Answer) (z : Dispatcher) :
    Shared × Thread → Prop
  | cutting {x : Dispatcher} {callbacks : List Nat} {top : List Frame} {f : Frame} (above : GivesBack top)
      (comes : ComesTo d x f answer z) (spared : answer.Denies → top = [] ∧ callbacks = s.callbacks) :
      Removing s th d answer z ((s.retain (.dispatcher d)).withChanges d x callbacks,
        { th with frames := top ++ f :: th.frames, answer := none })
  | answering {callbacks : List Nat} (spared : answer.Denies → callbacks = s.callbacks) :
      Removing s th d answer z (s.withChanges d z callbacks,
        { th with frames := .releasing [] (.answer answer) :: th.frames, answer := none })

/-- A removal is over, and client code has its answer. -/
def Removed (s : Shared) (th : Thread) (d : DispatcherId) (answer : Answer) (z : Dispatcher)
    (p : Shared × Thread) : Prop :=
  ∃ callbacks, p = (s.withChanges d z callbacks, { th with answer := some answer }) ∧
    (answer.Denies → callbacks = s.callbacks)

/-- The one way in which a thread that is left alone goes on: by a step of an operation, or by the end of
client code, whatever it yields. -/
def GoesOn (p p' : Shared × Thread) : Prop :=
  (advance p.1 p.2 = some p' ∧ ∀ y, finish p.1 p.2 y = p) ∨
    (advance p.1 p.2 = none ∧ ∀ y, finish p.1 p.2 y = p')

/-- The steps that a thread has still to take at most. -/
def stepsLeft (th : Thread) : Nat :=
  (th.frames.map (·.stepsLeft)).sum

/-- A step of an operation whose frame is no client code. -/
theorem goesOn_of_advance {p' : Shared × Thread} {g : Frame} {below : List Frame}
    (hf : p.2.frames = g :: below) (outside : ∀ entry, g ≠ .body entry)
    (advances : advance p.1 p.2 = some p') : GoesOn p p' :=
  .inl ⟨advances, finish_of_outside hf outside⟩

/-- What is handed to no one changes nothing. -/
theorem resume_nothing (s : Shared) (th : Thread) : resume s th .nothing = (s, th) := by
  unfold resume
  split <;> first | rfl | contradiction

/-- Client code takes the answer that is handed to it. -/
theorem resume_answer (s : Shared) (th : Thread) (hf : th.frames = .body entry :: fs) (answer : Answer) :
    resume s th (.answer answer) = (s, { th with answer := some answer }) := by
  unfold resume
  rw [hf]

/-- A connection was cut, or there was none to cut. -/
theorem removing_of_cut (th : Thread) (callbacks : List Nat) (cut : Option Connection)
    (comes : ComesTo d x f answer z) (spared : answer.Denies → cut = none ∧ callbacks = s.callbacks) :
    let p := ((s.retain (.dispatcher d)).withChanges d x callbacks,
      { th with frames := afterCut cut (f :: th.frames), answer := none })
    Removing s th d answer z p ∧ p.2.stepsLeft ≤ 3 + f.stepsLeft + th.stepsLeft := by
  intro p
  have frames : ∃ top, GivesBack top ∧ afterCut cut (f :: th.frames) = top ++ f :: th.frames ∧
      (top.map (·.stepsLeft)).sum ≤ 3 ∧ (cut = none → top = []) := by
    cases cut with
    | none => exact ⟨[], .idle, rfl, Nat.zero_le _, fun _ => rfl⟩
    | some c =>
      rw [afterCut, afterDelivery]
      cases c.target.callback? with
      | none => exact ⟨[], .idle, rfl, Nat.zero_le _, by simp⟩
      | some n => exact ⟨_, .due n, rfl, Nat.le_refl _, by simp⟩
  obtain ⟨top, above, frames, few, bare⟩ := frames
  refine ⟨?_, ?_⟩
  · show Removing s th d answer z (_, { th with frames := afterCut cut (f :: th.frames), answer := none })
    rw [frames]
    exact .cutting above comes fun denies => ⟨bare (spared denies).1, (spared denies).2⟩
  · show ((afterCut cut (f :: th.frames)).map (·.stepsLeft)).sum ≤ _
    rw [frames]
    simp only [List.map_append, List.map_cons, List.sum_append, List.sum_cons, stepsLeft]
    omega

/-- The next step of a removal that gives no callback back: it cuts a connection, or is done with that. -/
theorem ComesTo.next (opened : 0 < s.handles d) (comes : ComesTo d x f answer z) {callbacks : List Nat}
    (spared : answer.Denies → callbacks = s.callbacks) :
    let p : Shared × Thread := ((s.retain (.dispatcher d)).withChanges d x callbacks,
      { th with frames := f :: th.frames, answer := none })
    ∃ p', Removing s th d answer z p' ∧ p'.2.stepsLeft < p.2.stepsLeft ∧ GoesOn p p' := by
  intro p
  have held : 0 < (s.retain (.dispatcher d)).handles d := by
    rw [Shared.handles_retain opened]
    omega
  have here : p.1.dispatcher d = x := Shared.dispatcher_withChanges held
  have change (y : Dispatcher) :
      p.1.setDispatcher d y = (s.retain (.dispatcher d)).withChanges d y callbacks :=
    Shared.setDispatcher_withChanges
  cases comes with
  | disconnecting ids count =>
    cases ids with
    | nil =>
      refine ⟨_, .cutting .idle (.releasing _) fun denies => ⟨rfl, spared denies⟩, ?_,
        goesOn_of_advance rfl (by simp) rfl⟩
      simp [p, stepsLeft, Frame.stepsLeft]
    | cons id ids =>
      let counted := if (x.disconnect id).1.isSome then count + 1 else count
      have total : count + (x.disconnectEach (id :: ids)).1 =
          counted + ((x.disconnect id).2.disconnectEach ids).1 := by
        simp only [Dispatcher.disconnectEach, counted]
        split <;> omega
      have comes : ComesTo d (x.disconnect id).2 (.disconnecting d ids counted [.dispatcher d])
          (.count (count + (x.disconnectEach (id :: ids)).1)) (x.disconnectEach (id :: ids)).2 :=
        total ▸ .disconnecting ids counted
      obtain ⟨removing, few⟩ := removing_of_cut th callbacks (x.disconnect id).1 comes fun denies => by
        -- What is cut would be counted.
        have nothing : count + (x.disconnectEach (id :: ids)).1 = 0 := denies
        refine ⟨Option.not_isSome_iff_eq_none.1 fun cut => ?_, spared denies⟩
        have one : counted = count + 1 := if_pos cut
        omega
      refine ⟨_, removing, Nat.lt_of_le_of_lt few ?_, goesOn_of_advance rfl (by simp) ?_⟩
      · simp [p, stepsLeft, Frame.stepsLeft]
        omega
      · show some (p.1.setDispatcher d _, _) = _
        rw [here, change]
        rfl
  | severing o ids =>
    cases ids with
    | nil =>
      refine ⟨_, .cutting .idle (.releasing _) fun denies => ⟨rfl, spared denies⟩, ?_,
        goesOn_of_advance rfl (by simp) ?_⟩
      · simp [p, stepsLeft, Frame.stepsLeft]
      · show some (p.1.setDispatcher d _, _) = _
        rw [here, change]
        rfl
    | cons id ids =>
      obtain ⟨removing, few⟩ := removing_of_cut th callbacks (x.sever o id).1
        (.severing (x := (x.sever o id).2) o ids) nofun
      refine ⟨_, removing, Nat.lt_of_le_of_lt few ?_, goesOn_of_advance rfl (by simp) ?_⟩
      · simp [p, stepsLeft, Frame.stepsLeft]
        omega
      · show some (p.1.setDispatcher d _, _) = _
        rw [here, change]
        rfl
  | releasing answer =>
    refine ⟨_, .answering spared, ?_, goesOn_of_advance rfl (by simp) ?_⟩
    · simp [p, stepsLeft, Frame.stepsLeft]
    · show some (release p.1 p.2 (.dispatcher d) [] (.answer answer) th.frames) = _
      unfold release
      rw [Shared.letGo_withChanges opened]
      rfl

/-- Giving back the callback of a connection that was cut, step by step. -/
theorem GivesBack.next {s' : Shared} {top below : List Frame} (above : GivesBack top) (ne : top ≠ []) :
    let p : Shared × Thread := (s', { th with frames := top ++ below, answer := none })
    ∃ callbacks top', GivesBack top' ∧ (top'.map (·.stepsLeft)).sum < (top.map (·.stepsLeft)).sum ∧
      GoesOn p ({ s' with callbacks }, { th with frames := top' ++ below, answer := none }) := by
  intro p
  cases above with
  | idle => exact absurd rfl ne
  | due c =>
    have released : ∃ top', GivesBack top' ∧ (top'.map (·.stepsLeft)).sum ≤ 2 ∧
        advance p.1 p.2 = some ({ s' with callbacks := s'.callbacks.modify c (· - 1) },
          { th with frames := top' ++ below, answer := none }) := by
      show ∃ top', _ ∧ _ ∧ some (release s' p.2 (.callback c) [] .nothing below) = _
      unfold release
      dsimp only [Shared.letGo]
      split
      · exact ⟨_, .given, by decide, rfl⟩
      · exact ⟨_, .disposes c, Nat.le_refl _, rfl⟩
    obtain ⟨top', above, few, advances⟩ := released
    exact ⟨_, top', above, Nat.lt_succ_of_le few, goesOn_of_advance rfl (by simp) advances⟩
  | disposes c =>
    exact ⟨s'.callbacks, _, .given, by simp [Frame.stepsLeft], .inr ⟨rfl, fun _ => rfl⟩⟩
  | given =>
    refine ⟨s'.callbacks, [], .idle, by simp [Frame.stepsLeft], goesOn_of_advance rfl (by simp) ?_⟩
    exact congrArg some (resume_nothing _ _)

/-- A removal goes on in one way only, and comes nearer to its end by that. -/
theorem Removing.next (opened : 0 < s.handles d) (hf : th.frames = .body entry :: fs)
    (h : Removing s th d answer z p) :
    ∃ p', (Removing s th d answer z p' ∨ Removed s th d answer z p') ∧
      p'.2.stepsLeft < p.2.stepsLeft ∧ GoesOn p p' := by
  cases h with
  | @cutting x callbacks top f above comes spared =>
    by_cases idle : top = []
    · subst idle
      obtain ⟨p', removing, less, goesOn⟩ := comes.next opened fun denies => (spared denies).2
      exact ⟨p', .inl removing, less, goesOn⟩
    · obtain ⟨callbacks', top', above', less, goesOn⟩ := above.next idle
      refine ⟨_, .inl (.cutting above' comes fun denies => absurd (spared denies).1 idle), ?_, goesOn⟩
      simp only [stepsLeft, List.map_append, List.sum_append]
      exact Nat.add_lt_add_right less _
  | @answering callbacks spared =>
    refine ⟨_, .inr ⟨callbacks, rfl, spared⟩, ?_, goesOn_of_advance rfl (by simp) ?_⟩
    · simp [stepsLeft, Frame.stepsLeft]
    · exact congrArg some (resume_answer _ { th with answer := none } hf answer)

end Thread

namespace Machine

variable {m : Machine} {t n : Nat} {th : Thread} {entry : Entry} {fs : List Frame} {d : DispatcherId}
  {answer : Answer} {z : Dispatcher} {p p' : Shared × Thread} {a : Move} {moves during : List Move}

/-- A thread goes on with what it does: an operation takes its next step, or client code ends. -/
def Move.Continues (t : Nat) : Move → Prop
  | .advance t' | .finish t' _ => t' = t
  | _ => False

/-- Only one thread moves, and its client code asks for nothing. -/
def Undisturbed (t : Nat) (moves : List Move) : Prop :=
  ∀ a ∈ moves, a.Continues t

/-- The machine in which one thread has come to something. -/
def withThread (m : Machine) (t : Nat) (p : Shared × Thread) : Machine :=
  ⟨p.1, m.threads.set t p.2⟩

theorem depth_withThread (ht : m.threads[t]? = some th) : (m.withThread t p).depth t = p.2.frames.length :=
  depth_eq (getElem?_set_thread ht p.2)

theorem advance_withThread (ht : m.threads[t]? = some th) :
    (m.withThread t p).move (.advance t) = m.withThread t ((p.2.advance p.1).getD p) := by
  have here : (m.withThread t p).threads[t]? = some p.2 := getElem?_set_thread ht p.2
  rw [move, advance?, here]
  dsimp only [withThread]
  cases p.2.advance p.1 with
  | none => rfl
  | some p' => exact congrArg (Machine.mk p'.1) (List.set_set ..)

theorem finish_withThread (ht : m.threads[t]? = some th) (y : Yield) :
    (m.withThread t p).move (.finish t y) = m.withThread t (p.2.finish p.1 y) := by
  have here : (m.withThread t p).threads[t]? = some p.2 := getElem?_set_thread ht p.2
  rw [move, finish, onThread_of_some here]
  exact congrArg (Machine.mk (p.2.finish p.1 y).1) (List.set_set ..)

/-- Each move of a thread that is left alone takes it on or changes nothing. -/
theorem move_of_goesOn (ht : m.threads[t]? = some th) (goesOn : Thread.GoesOn p p') (continues : a.Continues t) :
    (m.withThread t p).move a = m.withThread t p ∨ (m.withThread t p).move a = m.withThread t p' := by
  cases a with
  | advance t' =>
    obtain rfl : t' = t := continues
    rw [advance_withThread ht]
    rcases goesOn with ⟨advances, -⟩ | ⟨stays, -⟩
    · exact .inr (by rw [advances, Option.getD_some])
    · exact .inl (by rw [stays, Option.getD_none])
  | finish t' y =>
    obtain rfl : t' = t := continues
    rw [finish_withThread ht]
    rcases goesOn with ⟨-, stays⟩ | ⟨-, ends⟩
    · exact .inl (by rw [stays])
    · exact .inr (by rw [ends])
  | _ => exact continues.elim

/-- There is a move by which a thread that is left alone goes on. -/
theorem exists_move_of_goesOn (ht : m.threads[t]? = some th) (goesOn : Thread.GoesOn p p') :
    ∃ a : Move, a.Continues t ∧ (m.withThread t p).move a = m.withThread t p' := by
  rcases goesOn with ⟨advances, -⟩ | ⟨-, ends⟩
  · exact ⟨.advance t, rfl, by rw [advance_withThread ht, advances, Option.getD_some]⟩
  · exact ⟨.finish t (.returned none), rfl, by rw [finish_withThread ht, ends]⟩

theorem Above.tail (above : m.Above t n (a :: moves)) : (m.move a).Above t n moves := by
  show (m.run [a]).Above t n moves
  exact Above.drop above

/-! ## Removals -/

theorem lt_depth_of_removing (ht : m.threads[t]? = some th)
    (h : Thread.Removing m.shared th d answer z p) : th.frames.length < (m.withThread t p).depth t := by
  rw [depth_withThread ht]
  cases h <;> simp
  omega

theorem depth_of_removed (ht : m.threads[t]? = some th) (h : Thread.Removed m.shared th d answer z p) :
    (m.withThread t p).depth t = th.frames.length := by
  obtain ⟨callbacks, rfl, -⟩ := h
  exact depth_withThread ht

/-- When client code goes on after a removal that nothing has disturbed, the removal is over. -/
theorem removed_of_removing (ht : m.threads[t]? = some th) (hf : th.frames = .body entry :: fs)
    (opened : 0 < m.shared.handles d) (h : Thread.Removing m.shared th d answer z p)
    (undisturbed : Undisturbed t moves) (above : (m.withThread t p).Above t th.frames.length moves)
    (returns : ((m.withThread t p).run moves).depth t ≤ th.frames.length) :
    ∃ p', Thread.Removed m.shared th d answer z p' ∧ (m.withThread t p).run moves = m.withThread t p' := by
  induction moves generalizing p with
  | nil => exact absurd returns (Nat.not_le.2 (lt_depth_of_removing ht h))
  | cons a moves ih =>
    obtain ⟨continues, undisturbed⟩ := List.forall_mem_cons.1 undisturbed
    obtain ⟨p', after, -, goesOn⟩ := h.next opened hf
    have above' := above.tail
    show ∃ p', _ ∧ ((m.withThread t p).move a).run moves = _
    have returns : (((m.withThread t p).move a).run moves).depth t ≤ th.frames.length := returns
    rcases move_of_goesOn ht goesOn continues with same | moved
    · rw [same] at above' returns ⊢
      exact ih h undisturbed above' returns
    · rw [moved] at above' returns ⊢
      rcases after with removing | removed
      · exact ih removing undisturbed above' returns
      · cases moves with
        | nil => exact ⟨p', removed, rfl⟩
        | cons b moves =>
          -- Client code would have gone on before.
          have higher := above' [] List.nil_prefix (List.cons_ne_nil _ _).symm
          exact absurd (depth_of_removed ht removed) (Nat.ne_of_gt higher)

/-- A removal that nothing disturbs comes to an end. -/
theorem exists_removed (ht : m.threads[t]? = some th) (hf : th.frames = .body entry :: fs)
    (opened : 0 < m.shared.handles d) (h : Thread.Removing m.shared th d answer z p) :
    ∃ moves, Undisturbed t moves ∧ (m.withThread t p).Above t th.frames.length moves ∧
      ∃ p', Thread.Removed m.shared th d answer z p' ∧ (m.withThread t p).run moves = m.withThread t p' := by
  generalize left : p.2.stepsLeft = k
  induction k using Nat.strong_induction_on generalizing p with
  | _ k ih =>
    obtain ⟨p', after, less, goesOn⟩ := h.next opened hf
    obtain ⟨a, continues, moved⟩ := exists_move_of_goesOn ht goesOn
    have higher := lt_depth_of_removing ht h
    rcases after with removing | removed
    · obtain ⟨moves, undisturbed, above, ends⟩ := ih _ (left ▸ less) removing rfl
      rw [← moved] at above ends
      exact ⟨a :: moves, List.forall_mem_cons.2 ⟨continues, undisturbed⟩, above.cons higher, ends⟩
    · refine ⟨[a], List.forall_mem_singleton.2 continues, Above.cons higher ?_, p', removed, moved⟩
      intro before sub ne
      exact absurd (List.prefix_nil.1 sub) ne

/-! ## Cutting while other things happen -/

/-- Connections are being cut, and those that are not to be cut any more cannot be there again. -/
def Cutting (m : Machine) (t : Nat) (base : List Frame) (d : DispatcherId) (all : List ConnectionId) : Prop :=
  ∃ th top g ids, m.threads[t]? = some th ∧ th.frames = top ++ g :: base ∧ g.cuts? = some (d, ids) ∧
    d ∈ g.handles ∧ ∀ j ∈ all, j ∈ ids ∨ m.shared.Lost d j

theorem Cutting.move {base : List Frame} {all : List ConnectionId} (regular : m.Regular)
    (h : m.Cutting t base d all) (issued : ∀ j ∈ all, m.shared.Issued d j) (a : Move) :
    (m.move a).Cutting t base d all ∨ ∀ j ∈ all, (m.move a).shared.Lost d j := by
  obtain ⟨th, top, g, ids, ht, hf, cuts, holds, split⟩ := h
  have keeps : ∀ j, m.shared.Lost d j → (m.move a).shared.Lost d j := fun j lost =>
    (kept_lost d j).effect (effect_move regular.sound a) lost
  have stays : ∀ j ∈ all, j ∈ ids ∨ (m.move a).shared.Lost d j := fun j hj =>
    (split j hj).imp_right (keeps j)
  rcases move_thread ht a with ⟨-, s', th', moves, moved⟩ | same
  · have there : (m.move a).threads[t]? = some th' := by
      rw [moved]
      exact getElem?_set_thread ht th'
    rcases moves.cutting (regular.sound_frames ht) hf cuts with
      rfl | ⟨top', frames⟩ | ⟨now, next, ids', x, top', g', rfl, shared, erased, frames, cuts', same⟩
    · exact .inr fun j hj => (stays j hj).resolve_left List.not_mem_nil
    · exact .inl ⟨th', top', g, ids, there, frames, cuts, holds, stays⟩
    · refine .inl ⟨th', top', g', ids', there, frames, cuts', same ▸ holds, fun j hj => ?_⟩
      rcases stays j hj with among | lost
      · rcases List.mem_cons.1 among with rfl | later
        · have opened : 0 < m.shared.handles d :=
            regular.opened ht (hf ▸ List.mem_append_right _ List.mem_cons_self) holds
          have known := (issued j hj).resolve_left fun closed => absurd (closed.2 ▸ opened) (Nat.lt_irrefl 0)
          have after : (m.move a).shared = s' := by rw [moved]
          refine .inr (.inr ?_)
          rw [after, shared, Shared.dispatcher_setDispatcher (s := { m.shared with now }) opened]
          exact Dispatcher.lost_of_erase known erased
        · exact .inl later
      · exact .inr lost
  · exact .inl ⟨th, top, g, ids, same, hf, cuts, holds, stays⟩

theorem cutting_run {base : List Frame} {all : List ConnectionId} (regular : m.Regular)
    (h : m.Cutting t base d all) (issued : ∀ j ∈ all, m.shared.Issued d j) (moves : List Move) :
    (m.run moves).Cutting t base d all ∨ ∀ j ∈ all, (m.run moves).shared.Lost d j := by
  induction moves using List.reverseRecOn with
  | nil => exact .inl h
  | append_singleton moves a ih =>
    rw [run_concat]
    have regular' := regular.run moves
    rcases ih with cutting | lost
    · exact cutting.move regular' (fun j hj => (kept_issued d j).run regular.sound (issued j hj) moves) a
    · exact .inr fun j hj => (kept_lost d j).effect (effect_move regular'.sound a) (lost j hj)

theorem Cutting.depth {base : List Frame} {all : List ConnectionId} (h : m.Cutting t base d all) :
    base.length < m.depth t := by
  obtain ⟨th, top, g, ids, ht, hf, -⟩ := h
  rw [depth_eq ht, hf]
  simp
  omega

/-- What is to be cut when client code asks for it is lost when client code goes on. -/
theorem lost_of_cutting (regular : m.Regular) {a : Action} (completes : m.Completes t a during answer)
    (ht : m.threads[t]? = some th) (hf : th.frames = .body entry :: fs) {all : List ConnectionId}
    (begun : (m.act t a).Cutting t (.body entry :: fs) d all) (live : ∀ j ∈ all, m.Live d j) :
    ∀ j ∈ all, ((m.act t a).run during).shared.Lost d j := by
  have issued : ∀ j ∈ all, (m.act t a).shared.Issued d j := by
    intro j hj
    obtain ⟨c, hc⟩ := live j hj
    exact (kept_issued d j).effect (effect_move regular.sound (.act t a)) (.inr (Arena.issued_of_get? hc))
  rcases cutting_run (regular.act t a) begun issued during with cutting | lost
  · have returns := completes.returns
    rw [depth_of_frames ht hf] at returns
    exact absurd returns (Nat.not_le.2 cutting.depth)
  · exact lost

theorem not_live_of_lost {id : ConnectionId} (lost : m.shared.Lost d id) (opened : m.shared.isOpen d) :
    ¬ m.Live d id := by
  rintro ⟨c, hc⟩
  rcases lost with closed | ⟨missing, -⟩
  · exact absurd (closed.2 ▸ Shared.isOpen_iff.1 opened) (Nat.lt_irrefl 0)
  · rw [Dispatcher.connection?, hc] at missing
    cases missing

end Machine
end Reflection

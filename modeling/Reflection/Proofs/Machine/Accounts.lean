import Reflection.Proofs.Machine.Delivery
/-!
# Every delivery is accounted for

While an emission is under way, each delivery that it attempted has an ending, runs or is waited for,
and those still to be attempted are the rest of the snapshot (`Emission.Accounts`). Every step keeps
this, so it holds until the emission is over (`Machine.emits_run`).
-/

namespace Reflection

variable {s s' : Shared} {d : DispatcherId} {e e' : Emission} {base : List Frame}
  {all attempted : List (ConnectionId × Connection)} {Gone Gone' : Target → Prop}

/-! ## The invariant -/

/-- What an emission at the dispatcher `d` has to do with the deliveries `all` of its snapshot, of which
it attempted some. `Gone` says of which targets it is known that they were gone. -/
structure Emission.Accounts (e : Emission) (s : Shared) (fs : Multiset Frame) (d : DispatcherId)
    (all attempted : List (ConnectionId × Connection)) (Gone : Target → Prop) : Prop where
  dispatcher : e.dispatcher = d
  split : all = attempted ++ e.remaining
  settled : (e.report.endings.map (·.1) ++ e.delivering.toList.map (·.1) ++ e.awaiting.map (·.1)).Perm
    (attempted.map (·.1))
  skipped : ∀ id, (id, .skipped) ∈ e.report.endings → ∃ c, (id, c) ∈ all ∧ Gone c.target
  awaiting : ∀ id k, (id, k) ∈ e.awaiting → ∃ c, (id, c) ∈ all ∧
    (s.Closed d ∨ Tracked s fs k d c.target (Gone c.target))

/-- A skipped delivery was skipped before or just now. -/
theorem Emission.mem_settle {id id' : ConnectionId} {ending : Ending}
    (h : (id', .skipped) ∈ (e.settle id ending).report.endings) :
    (id', .skipped) ∈ e.report.endings ∨ id' = id ∧ ending = .skipped := by
  rcases List.mem_append.1 h with h | h
  · exact .inl h
  · cases List.mem_singleton.1 h
    exact .inr ⟨rfl, rfl⟩

/-- One more delivery was attempted. -/
theorem perm_attempt {α : Type} {l₁ l₂ l : List α} (h : (l₁ ++ l₂).Perm l) (a : α) :
    (l₁ ++ a :: l₂).Perm (l ++ [a]) :=
  List.perm_middle.trans ((h.cons a).trans (List.perm_append_singleton a l).symm)

namespace Emission.Accounts

/-- Nothing has happened to the emission. -/
theorem move {fs fs' : Multiset Frame} (h : e.Accounts s fs d all attempted Gone)
    (known : ∀ target, Gone target → Gone' target)
    (tracked : ∀ k target, s.Closed d ∨ Tracked s fs k d target (Gone target) →
      s'.Closed d ∨ Tracked s' fs' k d target (Gone' target)) :
    e.Accounts s' fs' d all attempted Gone' := by
  refine { h with skipped := fun id hid => ?_, awaiting := fun id k hk => ?_ }
  · obtain ⟨c, hc, gone⟩ := h.skipped id hid
    exact ⟨c, hc, known _ gone⟩
  · obtain ⟨c, hc, follows⟩ := h.awaiting id k hk
    exact ⟨c, hc, tracked k _ follows⟩

variable {old new : List Frame} {others : Multiset Frame}
  {attempt : Option (ConnectionId × Connection)}

/-- A step of the emission. -/
theorem step (h : e.Accounts s (old + others) d all attempted Gone) (bounded : Bounded s (old + others))
    (opened : ¬ s.Closed d) (step : e.Step base (s, old) (s', new) attempt e')
    (known : ∀ target, Gone target ∨ s.IsGone d target → Gone' target)
    (tracked : ∀ k target, s.Closed d ∨ Tracked s (old + others) k d target (Gone target) →
      s'.Closed d ∨ Tracked s' (new + others) k d target (Gone' target)) :
    e'.Accounts s' (new + others) d all (attempted ++ attempt.toList) Gone' := by
  have after := h.move (fun target gone => known target (.inl gone)) tracked
  have perm := h.settled
  cases step with
  | rest => simpa using after
  | @returned _ _ id c r delivering made =>
    rw [Option.toList_none, List.append_nil]
    refine { after with settled := ?_, skipped := fun id' hid => ?_ }
    · simpa [settle, delivering] using perm
    · rcases mem_settle hid with hid | ⟨-, skips⟩
      · exact after.skipped id' hid
      · cases r with
        | skipped => exact absurd rfl made
        | returned | failed => cases skips
  | @told _ _ id k more heard last rests awaiting told =>
    rw [Option.toList_none, List.append_nil]
    -- The caller is told that the call was given up, which it was only if its target was gone.
    have first := h.awaiting id k (awaiting ▸ List.mem_cons_self)
    refine { after with settled := ?_, skipped := fun id' hid => ?_, awaiting := fun id' k' hk => ?_ }
    · simpa [settle, rests, awaiting] using perm
    · rcases mem_settle hid with hid | ⟨rfl, skip⟩
      · exact after.skipped id' hid
      · obtain ⟨c, hc, closed | follows⟩ := first
        · exact absurd closed opened
        · refine ⟨c, hc, known _ (.inl (follows.told (told _ ?_)))⟩
          match heard, skip with
          | some .dropped, _ => rfl
    · exact after.awaiting id' k' (awaiting ▸ List.mem_cons_of_mem _ hk)
  | @settled _ _ _ id c more ending _ remaining rests atOnce becomes =>
    subst becomes
    have split : all = attempted ++ [(id, c)] ++ more := by
      rw [h.split, remaining, List.append_assoc]
      rfl
    refine { after with split := split, settled := ?_, skipped := fun id' hid => ?_ }
    · rw [rests] at perm
      simpa [settle] using perm_attempt perm id
    · rcases mem_settle hid with hid | ⟨rfl, skip⟩
      · exact after.skipped id' hid
      · cases skip
        cases atOnce with
        | skipped gone =>
          refine ⟨c, ?_, known _ (.inr (h.dispatcher ▸ gone))⟩
          rw [split]
          simp
  | @awaits _ _ id c more context _ remaining rests blocks way becomes stack =>
    subst becomes
    have split : all = attempted ++ [(id, c)] ++ more := by
      rw [h.split, remaining, List.append_assoc]
      rfl
    refine { after with split := split, settled := ?_, awaiting := fun id' k hk => ?_ }
    · simpa using perm.append_right [id]
    · rcases List.mem_append.1 hk with hk | hk
      · exact after.awaiting id' k hk
      · cases List.mem_singleton.1 hk
        refine ⟨c, ?_, .inr ?_⟩
        · rw [split]
          simp
        -- From here on the call is followed until its caller is told.
        · rw [h.dispatcher]
          refine tracked_enqueueWaiting bounded ?_
          rw [stack, Thread.dismisses_afterDelivery]
          rfl
  | @calls _ _ _ id c more entry held _ remaining rests way code becomes =>
    subst becomes
    have split : all = attempted ++ [(id, c)] ++ more := by
      rw [h.split, remaining, List.append_assoc]
      rfl
    refine { after with split := split, settled := ?_ }
    rw [rests] at perm
    simpa using perm_attempt perm id

end Emission.Accounts

/-! ## Moves -/

namespace Thread

/-- The delivery that an emission attempts next if it is at the top of a stack and lies on `n` frames. -/
def attempt? (th : Thread) (n : Nat) : Option (ConnectionId × Connection) :=
  match th.frames with
  | .emitting e :: rest => if rest.length = n then e.remaining.head? else none
  | _ => none

theorem attempt?_emitting {th : Thread} (hf : th.frames = .emitting e :: base) :
    th.attempt? base.length = e.remaining.head? := by
  simp [attempt?, hf]

/-- An emission attempts no delivery below a frame that calls, waits or gives back what was held. -/
theorem attempt?_of_simple {th : Thread} {top below : List Frame} {g : Frame} (hg : g.Simple)
    (hf : th.frames = top ++ g :: below) {n : Nat} (le : n ≤ below.length) : th.attempt? n = none := by
  unfold attempt?
  rw [hf]
  cases top with
  | nil =>
    cases g with
    | emitting => exact hg.elim
    | _ => rfl
  | cons f top =>
    cases f with
    | emitting e =>
      refine if_neg ?_
      show (top ++ g :: below).length ≠ n
      rw [List.length_append, List.length_cons]
      omega
    | _ => rfl

end Thread

namespace Machine

/-- The delivery that a move attempts for the emission that lies on `n` frames of a thread. -/
def attempt? (m : Machine) (t n : Nat) : Move → Option (ConnectionId × Connection)
  | .advance t' => if t' = t then m.threads[t]?.bind (·.attempt? n) else none
  | _ => none

variable {m : Machine} {t : Nat} {th : Thread}

theorem attempt?_advance (ht : m.threads[t]? = some th) (n : Nat) :
    m.attempt? t n (.advance t) = th.attempt? n := by
  simp [attempt?, ht]

theorem attempt?_eq_none {n : Nat} {a : Move}
    (h : a = .advance t → ∀ th, m.threads[t]? = some th → th.attempt? n = none) :
    m.attempt? t n a = none := by
  cases a with
  | advance t' =>
    by_cases e : t' = t
    · subst e
      cases ht : m.threads[t']? with
      | none => simp [attempt?, ht]
      | some th => exact (attempt?_advance ht n).trans (h rfl th ht)
    · exact if_neg e
  | _ => rfl

/-- What a move does to a thread. -/
theorem move_thread (ht : m.threads[t]? = some th) (a : Move) :
    (a.thread? = some t ∧ ∃ s' th', Thread.Moves m.shared th s' th' ∧
      m.move a = ⟨s', m.threads.set t th'⟩) ∨ (m.move a).threads[t]? = some th := by
  rcases m.move_cases a with e | e | ⟨order, e⟩ | ⟨t', on, step⟩
  · rw [e]
    exact .inr ht
  · rw [e]
    exact .inr ((List.getElem?_append_left (List.getElem?_eq_some_iff.1 ht).1).trans ht)
  · rw [e]
    exact .inr ht
  · generalize m.move a = m' at step
    cases step with
    | @intro th₀ th' s found moves =>
      by_cases e : t' = t
      · subst e
        cases ht.symm.trans found
        exact .inl ⟨on, s, th', moves, rfl⟩
      · exact .inr ((List.getElem?_set_ne e).trans ht)

theorem onThread_of_some (ht : m.threads[t]? = some th) (f : Shared → Thread → Shared × Thread) :
    m.onThread t f = ⟨(f m.shared th).1, m.threads.set t (f m.shared th).2⟩ := by
  simp only [onThread, ht]

theorem getElem?_set_thread (ht : m.threads[t]? = some th) (th' : Thread) :
    (m.threads.set t th')[t]? = some th' :=
  List.getElem?_set_self (List.getElem?_eq_some_iff.1 ht).1

/-- There is always a next step of the emission at the top of a stack. -/
theorem advance_emitting_isSome (s : Shared) (hf : th.frames = .emitting e :: base) :
    ∃ s' th', th.advance s = some (s', th') := by
  unfold Thread.advance
  rw [hf]
  dsimp only
  split <;> exact ⟨_, _, rfl⟩

/-- A thread whose client code does not run is changed by its next step at most, or by its deadline. -/
theorem move_outside {f : Frame} (ht : m.threads[t]? = some th) (hf : th.frames = f :: base)
    (outside : ∀ entry, f ≠ .body entry) (a : Move) :
    a = .advance t ∨ a = .expire t ∨ (m.move a).threads[t]? = some th := by
  by_cases on : a.thread? = some t
  · cases a with
    | spawn | reorder => cases on
    | act t' x =>
      cases on
      rw [move, act, onThread_of_some ht, Thread.act_of_outside hf outside]
      exact .inr (.inr (getElem?_set_thread ht th))
    | finish t' y =>
      cases on
      rw [move, finish, onThread_of_some ht, Thread.finish_of_outside hf outside]
      exact .inr (.inr (getElem?_set_thread ht th))
    | advance t' =>
      cases on
      exact .inl rfl
    | expire t' =>
      cases on
      exact .inr (.inl rfl)
  · rcases move_thread ht a with ⟨on', -⟩ | same
    · exact absurd on' on
    · exact .inr (.inr same)

/-- Client code stays where it is until it ends, which it does only at the top of a stack. -/
theorem move_body (sound : ∀ f ∈ th.frames, f.Sound) (ht : m.threads[t]? = some th) {top below : List Frame}
    {entry : Entry} (hf : th.frames = top ++ .body entry :: below) (a : Move) :
    (∃ th' top', (m.move a).threads[t]? = some th' ∧ th'.frames = top' ++ .body entry :: below) ∨
      top = [] ∧ ∃ y, a = .finish t y := by
  have same : (m.move a).threads[t]? = some th → ∃ th' top', (m.move a).threads[t]? = some th' ∧
      th'.frames = top' ++ .body entry :: below := fun same => ⟨th, top, same, hf⟩
  rcases move_thread ht a with ⟨on, s', th', moves, moved⟩ | stays
  · have found : (m.move a).threads[t]? = some th' := by
      rw [moved]
      exact getElem?_set_thread ht th'
    cases top with
    | cons f top =>
      obtain ⟨top', frames⟩ := moves.body sound hf
      exact .inl ⟨th', top', found, frames⟩
    | nil =>
      cases a with
      | spawn | reorder => cases on
      | act t' x =>
        cases on
        obtain ⟨top, frames⟩ := Thread.act_body (s := m.shared) hf x
        refine .inl ⟨_, top, ?_, frames⟩
        rw [move, act, onThread_of_some ht]
        exact getElem?_set_thread ht _
      | finish t' y =>
        cases on
        exact .inr ⟨rfl, y, rfl⟩
      | advance t' =>
        cases on
        refine .inl (same ?_)
        simp only [move, advance?, ht, Thread.advance_body hf]
        exact ht
      | expire t' =>
        cases on
        have patient : m.deadline? t = none := by
          rw [deadline?, ht, Option.bind_some, Thread.deadline?_body hf]
        refine .inl (same ?_)
        rw [move, expire, patient]
        exact ht
  · exact .inl (same stays)

/-- Only the next step of the emission at the top of a stack changes its thread. -/
theorem move_emitting (ht : m.threads[t]? = some th) (hf : th.frames = .emitting e :: base) (a : Move) :
    (a = .advance t ∧ ∃ s' th', th.advance m.shared = some (s', th') ∧
      m.move a = ⟨s', m.threads.set t th'⟩) ∨
      a ≠ .advance t ∧ (m.move a).threads[t]? = some th := by
  by_cases on : a = .advance t
  · subst on
    obtain ⟨s', th', h⟩ := advance_emitting_isSome m.shared hf
    refine .inl ⟨rfl, s', th', h, ?_⟩
    simp only [move, advance?, ht, h, Option.map_some, Option.getD_some]
  · refine .inr ⟨on, ?_⟩
    rcases move_outside ht hf (by simp) a with next | rfl | same
    · exact absurd next on
    · -- An emission has no deadline.
      have patient : m.deadline? t = none := by
        rw [deadline?, ht, Option.bind_some, Thread.deadline?, hf]
      rw [move, expire, patient]
      exact ht
    · exact same

/-! ## Runs -/

/-- What holds in every run. -/
structure Regular (m : Machine) : Prop where
  sound : ∀ f ∈ m.frames, f.Sound
  sorted : Sorted m.shared m.frames
  bounded : Bounded m.shared m.frames

theorem Regular.sound_frames (h : m.Regular) (ht : m.threads[t]? = some th) :
    ∀ f ∈ th.frames, f.Sound := fun f hf =>
  h.sound f (Multiset.mem_coe.2 (List.mem_flatMap.2 ⟨th, List.mem_of_getElem? ht, hf⟩))

/-- A dispatcher is not gone as long as a frame holds it. -/
theorem Regular.opened (h : m.Regular) (ht : m.threads[t]? = some th) {f : Frame} (hf : f ∈ th.frames)
    (holds : d ∈ f.handles) : 0 < m.shared.handles d :=
  h.sorted.counted.opened
    (Multiset.mem_coe.2 (List.mem_flatMap.2 ⟨th, List.mem_of_getElem? ht, hf⟩)) holds

/-- The dispatcher of an emission is not gone as long as the emission is under way. -/
theorem Regular.opened_of_on (h : m.Regular) (ht : m.threads[t]? = some th) (on : e.On base th.frames) :
    0 < m.shared.handles e.dispatcher := by
  have inside : .emitting e ∈ th.frames := by
    generalize th.frames = fs at on
    cases on <;> simp
  exact h.opened ht inside (h.sound_frames ht _ inside)

theorem Regular.move (h : m.Regular) (a : Move) : (m.move a).Regular :=
  have effect := effect_move h.sound a
  ⟨kept_sound.effect effect h.sound, kept_sorted.effect effect h.sorted,
    kept_bounded.effect effect h.bounded⟩

theorem regular_start (r : Registry) : (start r).Regular where
  sound := sound_start r
  sorted := sorted_run r []
  bounded := by
    refine ⟨fun d k target hk => ?_, fun k hk => ?_, fun k hk => ?_⟩
    · obtain ⟨q, i, hi, -⟩ := hk
      cases hi
    · obtain ⟨f, hf, -⟩ := hk
      exact absurd hf (Multiset.notMem_zero f)
    · obtain ⟨f, hf, -⟩ := hk
      exact absurd hf (Multiset.notMem_zero f)

theorem Regular.run (h : m.Regular) (moves : List Move) : (m.run moves).Regular := by
  induction moves using List.reverseRecOn with
  | nil => exact h
  | append_singleton moves a ih =>
    rw [run_concat]
    exact ih.move a

/-- An emission is under way on a thread, above the frames `base`. -/
structure Emits (m : Machine) (t : Nat) (base : List Frame) (d : DispatcherId)
    (all attempted : List (ConnectionId × Connection)) (Gone : Target → Prop) (e : Emission) : Prop where
  stands : ∃ th, m.threads[t]? = some th ∧ e.On base th.frames
  accounts : e.Accounts m.shared m.frames d all attempted Gone

/-- An operation is over, and its answer is about to be handed to the client code at the top of the
frames `base`. -/
def Answering (m : Machine) (t : Nat) (base : List Frame) (answer : Answer) : Prop :=
  ∃ th top held, m.threads[t]? = some th ∧
    th.frames = top ++ .releasing held (.answer answer) :: base

/-- Client code has the answer to what it asked for. -/
def Answered (m : Machine) (t : Nat) (base : List Frame) (answer : Answer) : Prop :=
  ∃ th, m.threads[t]? = some th ∧ th.frames = base ∧ th.answer = some answer

/-- The dispatcher of an emission under way is not closed. -/
theorem Emits.opened (regular : m.Regular) (h : m.Emits t base d all attempted Gone e) :
    ¬ m.shared.Closed d := by
  obtain ⟨th, ht, on⟩ := h.stands
  have opened := regular.opened_of_on ht on
  rw [h.accounts.dispatcher] at opened
  exact fun closed => Nat.lt_irrefl 0 (closed.2 ▸ opened)

/-- A report that says what became of each delivery of a snapshot. -/
structure Covers (all : List (ConnectionId × Connection)) (Gone : Target → Prop) (report : EmitReport) :
    Prop where
  ids : (report.endings.map (·.1)).Perm (all.map (·.1))
  skipped : ∀ id, (id, .skipped) ∈ report.endings → ∃ c, (id, c) ∈ all ∧ Gone c.target

/-- When nothing is left to be attempted or waited for, the report is complete. -/
theorem covers_of_accounts {fs : Multiset Frame} (h : e.Accounts s fs d all attempted Gone)
    (rests : e.delivering = none) (last : e.remaining = []) (answered : e.awaiting = []) :
    attempted = all ∧ Covers all Gone e.report := by
  have split := h.split
  rw [last, List.append_nil] at split
  have settled := h.settled
  rw [rests, answered] at settled
  refine ⟨split.symm, ?_, h.skipped⟩
  rw [split]
  simpa using settled

/-- What a move does to a stack on which an emission stands: nothing happens to the emission, it takes a
step, or it is over and nothing is left to be attempted or waited for. -/
theorem move_of_on (regular : m.Regular) (ht : m.threads[t]? = some th) (on : e.On base th.frames)
    (a : Move) :
    ((m.move a).threads[t]? = some th ∧ m.attempt? t base.length a = none) ∨
    (∃ s' th' e', m.move a = ⟨s', m.threads.set t th'⟩ ∧
      e.Step base (m.shared, th.frames) (s', th'.frames) (m.attempt? t base.length a) e' ∧
      e'.On base th'.frames) ∨
    m.attempt? t base.length a = none ∧ (e.delivering = none ∧ e.remaining = [] ∧ e.awaiting = []) ∧
      (m.move a).Answering t base (.emitted (.ok e.report)) := by
  generalize hf : th.frames = fs at on
  cases on with
  | idle rests =>
    rcases move_emitting ht hf a with ⟨rfl, s', th', next, moved⟩ | ⟨other, same⟩
    · have attempts : m.attempt? t base.length (.advance t) = e.remaining.head? :=
        (attempt?_advance ht _).trans (Thread.attempt?_emitting hf)
      rcases Thread.advance_emitting rests hf next with ⟨e', step, on'⟩ | ⟨last, answered, frames⟩
      · rw [← attempts, hf] at step
        exact .inr (.inl ⟨s', th', e', moved, step, on'⟩)
      · refine .inr (.inr ⟨?_, ⟨rests, last, answered⟩, th', [], e.held, ?_, frames⟩)
        · rw [attempts, last]
          rfl
        · rw [moved]
          exact getElem?_set_thread ht th'
    · exact .inl ⟨same, attempt?_eq_none fun e => absurd e other⟩
  | @busy top g serves =>
    have none : m.attempt? t base.length a = none := by
      refine attempt?_eq_none fun _ th' ht' => ?_
      cases ht.symm.trans ht'
      exact Thread.attempt?_of_simple serves.simple hf (Nat.le_succ _)
    rcases move_thread ht a with ⟨-, s', th', moves, moved⟩ | same
    · obtain ⟨e', step, on'⟩ := moves.serving (regular.sound_frames ht) serves hf
      rw [← none, hf] at step
      exact .inr (.inl ⟨s', th', e', moved, step, on'⟩)
    · exact .inl ⟨same, none⟩

/-- What a move does to an emission under way: it goes on, or it is over and complete. -/
theorem Emits.move (regular : m.Regular) (h : m.Emits t base d all attempted Gone e) (a : Move) :
    (∃ e', (m.move a).Emits t base d all (attempted ++ (m.attempt? t base.length a).toList)
      (fun target => Gone target ∨ m.shared.IsGone d target) e') ∨
    m.attempt? t base.length a = none ∧ attempted = all ∧ Covers all Gone e.report ∧
      (m.move a).Answering t base (.emitted (.ok e.report)) := by
  have opened := h.opened regular
  -- What becomes of calls in queues is the same whatever the move does to the emission.
  obtain ⟨⟨th, ht, on⟩, accounts⟩ := h
  have tracked : ∀ k target,
      m.shared.Closed d ∨ Tracked m.shared m.frames k d target (Gone target) →
      (m.move a).shared.Closed d ∨ Tracked (m.move a).shared (m.move a).frames k d target
        (Gone target ∨ m.shared.IsGone d target) := fun k target follows =>
    tracked_move regular.sound follows a
  rcases move_of_on regular ht on a with
    ⟨same, none⟩ | ⟨s', th', e', moved, step, on'⟩ | ⟨none, ⟨rests, last, answered⟩, answering⟩
  · rw [none, Option.toList_none, List.append_nil]
    exact .inl ⟨e, ⟨th, same, on⟩, accounts.move (fun _ => .inl) tracked⟩
  · obtain ⟨others, before, after⟩ := frames_set ht
    have bounded := regular.bounded
    rw [moved, after] at tracked
    rw [before] at accounts tracked bounded
    refine .inl ⟨e', ⟨th', ?_, on'⟩, ?_⟩
    · rw [moved]
      exact getElem?_set_thread ht th'
    · rw [moved, after]
      exact accounts.step bounded opened step (fun _ => id) tracked
  · obtain ⟨whole, covers⟩ := covers_of_accounts accounts rests last answered
    exact .inr ⟨none, whole, covers, answering⟩

/-- What a move does to an answer that is about to be handed to client code. -/
theorem Answering.move (regular : m.Regular) {entry : Entry} {fs : List Frame} {answer : Answer}
    (h : m.Answering t (.body entry :: fs) answer) (a : Move) :
    m.attempt? t (fs.length + 1) a = none ∧
      ((m.move a).Answering t (.body entry :: fs) answer ∨
        (m.move a).Answered t (.body entry :: fs) answer) := by
  obtain ⟨th, top, held, ht, hf⟩ := h
  have simple : (Frame.releasing held (.answer answer)).Simple := trivial
  refine ⟨attempt?_eq_none fun _ th' ht' => ?_, ?_⟩
  · cases ht.symm.trans ht'
    exact Thread.attempt?_of_simple simple hf (Nat.le_refl _)
  · rcases move_thread ht a with ⟨-, s', th', moves, moved⟩ | same
    · have found : (m.move a).threads[t]? = some th' := by
        rw [moved]
        exact getElem?_set_thread ht th'
      rcases moves.above (regular.sound_frames ht) simple hf with
        ⟨top', g', frames, becomes⟩ | ⟨-, now, r, pop, resumed⟩
      · cases becomes with
        | same => exact .inl ⟨th', top', held, found, frames⟩
        | released held held' => exact .inl ⟨th', top', held', found, frames⟩
      · cases pop with
        | released reply unskipped =>
          cases resumed
          exact .inr ⟨_, found, rfl, rfl⟩
    · exact .inl ⟨th, top, held, same, hf⟩

/-! ## Runs -/

/-- The deliveries that a run attempts for the emission that lies on `n` frames of a thread. -/
def attempts (m : Machine) (t n : Nat) : List Move → List (ConnectionId × Connection)
  | [] => []
  | a :: moves => (m.attempt? t n a).toList ++ (m.move a).attempts t n moves

theorem attempts_concat (m : Machine) (t n : Nat) (moves : List Move) (a : Move) :
    m.attempts t n (moves ++ [a]) =
      m.attempts t n moves ++ ((m.run moves).attempt? t n a).toList := by
  induction moves generalizing m with
  | nil => simp [attempts, run]
  | cons b moves ih =>
    show (m.attempt? t n b).toList ++ (m.move b).attempts t n (moves ++ [a]) = _
    rw [ih, ← List.append_assoc]
    rfl

/-- The height of the stack of a thread. -/
def depth (m : Machine) (t : Nat) : Nat :=
  (m.threads[t]?.map (·.frames.length)).getD 0

theorem depth_eq (ht : m.threads[t]? = some th) : m.depth t = th.frames.length := by
  rw [depth, ht]
  rfl

/-- At some point of a run the target of a call was gone. -/
def GoneBy (m : Machine) (moves : List Move) (d : DispatcherId) (target : Target) : Prop :=
  ∃ before, before <+: moves ∧ (m.run before).shared.IsGone d target

theorem goneBy_concat {moves : List Move} {target : Target} {a : Move}
    (h : m.GoneBy moves d target ∨ (m.run moves).shared.IsGone d target) :
    m.GoneBy (moves ++ [a]) d target := by
  rcases h with ⟨before, sub, gone⟩ | gone
  · exact ⟨before, sub.trans (List.prefix_append _ _), gone⟩
  · exact ⟨moves, List.prefix_append _ _, gone⟩

theorem Emits.mono (h : m.Emits t base d all attempted Gone e)
    (known : ∀ target, Gone target → Gone' target) : m.Emits t base d all attempted Gone' e :=
  ⟨h.stands, h.accounts.move known fun _ _ => Or.imp_right (·.mono (known _))⟩

theorem Covers.mono {report : EmitReport} (h : Covers all Gone report)
    (known : ∀ target, Gone target → Gone' target) : Covers all Gone' report :=
  ⟨h.ids, fun id hid => (h.skipped id hid).imp fun _ => And.imp_right (known _)⟩

/-- Before the last of these moves the stack of a thread is higher than `n` frames. -/
def Above (m : Machine) (t n : Nat) (moves : List Move) : Prop :=
  ∀ before, before <+: moves → before ≠ moves → n < (m.run before).depth t

theorem Above.init {n : Nat} {moves : List Move} {a : Move} (h : m.Above t n (moves ++ [a])) :
    m.Above t n moves := by
  intro before sub ne
  refine h before (sub.trans (List.prefix_append _ _)) fun whole => ?_
  rw [whole] at sub
  exact absurd sub.length_le (by simp)

theorem Above.last {n : Nat} {moves : List Move} {a : Move} (h : m.Above t n (moves ++ [a])) :
    n < (m.run moves).depth t :=
  h moves (List.prefix_append _ _) (by simp)

theorem Above.drop {k : Nat} {before later : List Move} (h : m.Above t k (before ++ later)) :
    (m.run before).Above t k later := by
  intro part sub ne
  rw [← run_append]
  exact h (before ++ part) ((List.prefix_append_right_inj before).2 sub)
    fun same => ne (List.append_cancel_left same)

theorem Above.cons {n : Nat} {moves : List Move} {a : Move} (higher : n < m.depth t)
    (above : (m.move a).Above t n moves) : m.Above t n (a :: moves) := by
  intro before sub ne
  cases before with
  | nil => exact higher
  | cons b before =>
    obtain ⟨rfl, rest⟩ := List.cons_prefix_cons.1 sub
    exact above before rest fun whole => ne (congrArg (b :: ·) whole)

/-- Client code goes on when the stack is as low as it was. -/
theorem Answered.depth {answer : Answer} (h : m.Answered t base answer) :
    m.depth t = base.length := by
  obtain ⟨th, ht, frames, -⟩ := h
  rw [depth_eq ht, frames]

/-- An answer that is about to be handed to client code is handed to it, and until then nothing is
attempted at its height. -/
theorem answering_run (regular : m.Regular) {entry : Entry} {fs : List Frame} {answer : Answer}
    (begun : m.Answering t (.body entry :: fs) answer) (moves : List Move)
    (above : m.Above t (fs.length + 1) moves) :
    m.attempts t (fs.length + 1) moves = [] ∧
      ((m.run moves).Answering t (.body entry :: fs) answer ∨
        (m.run moves).Answered t (.body entry :: fs) answer) := by
  induction moves using List.reverseRecOn with
  | nil => exact ⟨rfl, .inl begun⟩
  | append_singleton moves a ih =>
    rw [run_concat, attempts_concat]
    obtain ⟨none, answering | answered⟩ := ih above.init
    · obtain ⟨nothing, after⟩ := answering.move (regular.run moves) a
      exact ⟨congrArg₂ (· ++ ·.toList) none nothing, after⟩
    · exact absurd above.last (Nat.not_lt.2 (Nat.le_of_eq answered.depth))

/-- An operation is under way until its answer is handed down and then to client code, as long as the
stack does not get as low as it was when the operation began. `P` holds while it is under way, and `Q`
from then on. -/
theorem operation_run (regular : m.Regular) (entry : Entry) (fs : List Frame) {P : List Move → Prop}
    {Q : List Move → Answer → Prop} (begun : P [])
    (goesOn : ∀ moves a, P moves → P (moves ++ [a]) ∨ ∃ answer, Q (moves ++ [a]) answer ∧
      ((m.run moves).move a).Answering t (.body entry :: fs) answer)
    (keeps : ∀ moves a answer, (m.run moves).Answering t (.body entry :: fs) answer →
      Q moves answer → Q (moves ++ [a]) answer)
    (moves : List Move) (above : m.Above t (fs.length + 1) moves) :
    P moves ∨ ∃ answer, Q moves answer ∧ ((m.run moves).Answering t (.body entry :: fs) answer ∨
      (m.run moves).Answered t (.body entry :: fs) answer) := by
  induction moves using List.reverseRecOn with
  | nil => exact .inl begun
  | append_singleton moves a ih =>
    rw [run_concat]
    -- The operation is under way, or its answer is on the way, or client code went on too early.
    rcases ih above.init with underWay | ⟨answer, holds, answering | answered⟩
    · exact (goesOn moves a underWay).imp_right fun ⟨answer, holds, answering⟩ =>
        ⟨answer, holds, .inl answering⟩
    · have after := (answering.move (regular.run moves) a).2
      exact .inr ⟨answer, keeps moves a answer answering holds, after⟩
    · exact absurd above.last (Nat.not_lt.2 (Nat.le_of_eq answered.depth))

/-- An emission is under way until all deliveries were attempted and have an ending; then its report
is handed down. This holds as long as the stack does not get as low as it was when the emission
began. -/
theorem emits_run (regular : m.Regular) {entry : Entry} {fs : List Frame} {Gone : Target → Prop}
    (begun : m.Emits t (.body entry :: fs) d all [] Gone e) (none : ∀ target, ¬ Gone target)
    (moves : List Move) (above : m.Above t (fs.length + 1) moves) :
    (∃ e', (m.run moves).Emits t (.body entry :: fs) d all (m.attempts t (fs.length + 1) moves)
      (m.GoneBy moves d) e') ∨
    m.attempts t (fs.length + 1) moves = all ∧ ∃ report, Covers all (m.GoneBy moves d) report ∧
      ((m.run moves).Answering t (.body entry :: fs) (.emitted (.ok report)) ∨
        (m.run moves).Answered t (.body entry :: fs) (.emitted (.ok report))) := by
  let Over (moves : List Move) (answer : Answer) : Prop :=
    m.attempts t (fs.length + 1) moves = all ∧
      ∃ report, answer = .emitted (.ok report) ∧ Covers all (m.GoneBy moves d) report
  have known : ∀ moves a target, m.GoneBy moves d target → m.GoneBy (moves ++ [a]) d target :=
    fun _ _ _ gone => goneBy_concat (.inl gone)
  have run := operation_run (Q := Over) regular entry fs
    (P := fun moves => ∃ e', (m.run moves).Emits t (.body entry :: fs) d all
      (m.attempts t (fs.length + 1) moves) (m.GoneBy moves d) e')
    ⟨e, begun.mono fun target gone => absurd gone (none target)⟩ ?_ ?_ moves above
  · refine run.imp_right fun ⟨answer, ⟨whole, report, told, covers⟩, ends⟩ => ?_
    exact ⟨whole, report, covers, told ▸ ends⟩
  · rintro moves a ⟨e', emits⟩
    rw [run_concat, attempts_concat]
    rcases emits.move (regular.run moves) a with ⟨e'', after⟩ | ⟨nothing, whole, covers, answering⟩
    · exact .inl ⟨e'', after.mono fun _ => goneBy_concat⟩
    · refine .inr ⟨_, ⟨?_, e'.report, rfl, covers.mono (known moves a)⟩, answering⟩
      rw [attempts_concat]
      exact (congrArg₂ (· ++ ·.toList) whole nothing).trans (List.append_nil all)
  · rintro moves a answer answering ⟨whole, report, told, covers⟩
    obtain ⟨nothing, -⟩ := answering.move (regular.run moves) a
    refine ⟨?_, report, told, covers.mono (known moves a)⟩
    rw [attempts_concat]
    exact (congrArg₂ (· ++ ·.toList) whole nothing).trans (List.append_nil all)

end Machine

end Reflection

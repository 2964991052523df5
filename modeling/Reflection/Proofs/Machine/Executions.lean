import Reflection.Proofs.Machine.ClientCode
import Reflection.Proofs.Machine.Queues
import Reflection.Proofs.Machine.Single
/-!
# Calls that wait are executed once or given up

A call for which a caller waits stays in its queue until a loop takes it. If its receiver is there, the
thread of the loop calls the code of the target and runs it, and when this code has ended, whatever it
says, the caller is told that the call was delivered; if not, no code ever runs for the call
(`Machine.Stage`).
Every move leads from such a stage to the same one or a later one (`Machine.Followed.move`).
-/

namespace Reflection

variable {s s' : Shared} {d : DispatcherId} {k : CompletionId} {i : Invocation} {entry : Entry}

/-! ## What loops do with calls that they take -/

namespace Thread

variable {th : Thread} {rest : List Frame}

theorem execute_of_gone (gone : s.callee d i.target i.args = .gone) :
    execute s th d i rest = (s, th.withFrames (.releasing i.held .nothing :: rest)) := by
  unfold execute
  rw [gone]
  rfl

theorem execute_of_code {held : List Held} (code : s.callee d i.target i.args = .code entry held) :
    execute s th d i rest = (s.retainAll held, th.withFrames (callFrames entry held (.executing i :: rest))) := by
  unfold execute
  rw [code]

end Thread

/-- Calls wait where they did before, and callers were told the same. -/
structure Shared.SameCalls (s s' : Shared) : Prop where
  dispatcher : ∀ d, s'.dispatcher d = s.dispatcher d
  completions : s'.completions = s.completions

theorem Single.of_same {fs : Multiset Frame} (h : Single s fs k d i) (same : s.SameCalls s') :
    Single s' fs k d i :=
  h.fewer (same.completions ▸ h.made) (fun d' => (same.dispatcher d').symm ▸ le_rfl) le_rfl
    (same.completions ▸ rfl) id

theorem Tracked.of_same {fs : Multiset Frame} {target : Target} {gone : Prop}
    (h : Tracked s fs k d target gone) (same : s.SameCalls s') : Tracked s' fs k d target gone where
  made := same.completions ▸ h.made
  awaited d' target' waits := h.awaited d' target' (same.dispatcher d' ▸ waits)
  told := same.completions ▸ h.told
  dismissed := same.completions ▸ h.dismissed

/-- Completions are never taken back. -/
theorem kept_made (n : Nat) : Kept fun s _ => n ≤ s.completions.length where
  turn s s' old new others turn _ _ made := by
    rcases turn.work_or_closes with work | closes
    · cases work with
      | idle awaited completions => exact completions ▸ made
      | await d context target args =>
        rw [Shared.completions_enqueueWaiting, List.length_append]
        exact Nat.le_add_right_of_le made
      | take => exact made
      | @deliver _ j fs =>
        cases j.completion with
        | none => exact made
        | some k => exact (Shared.length_complete k _).symm ▸ made
      | dismiss => exact (Shared.length_complete _ _).symm ▸ made
    · cases closes with
      | intro => exact made
  skip s s' old new others skips made := by
    cases skips with
    | intro => exact made
  connect s s' fs connects made := by
    cases connects with
    | link => exact made

namespace Machine

variable {m : Machine} {moves moves' : List Move} {a : Move} {t : Nat} {c : Context} {y : Yield}

/-! ## Runs of code -/

/-- A loop takes a call, and its thread calls code for it, which runs in the next steps of the thread. -/
def Begins (m : Machine) (d : DispatcherId) (i : Invocation) (entry : Entry) (a : Move) : Prop :=
  (∃ c, (d, .taken c (.work i)) ∈ m.traffic a) ∧
    ∃ held, m.shared.callee d i.target i.args = .code entry held

/-- In the course of a run some thread has called code for a call. -/
def Began (m : Machine) (moves : List Move) (d : DispatcherId) (i : Invocation) (entry : Entry) : Prop :=
  ∃ before a, before ++ [a] <+: moves ∧ (m.run before).Begins d i entry a

/-- The code of a call is what a thread runs now. -/
def Runs (m : Machine) (t : Nat) (i : Invocation) (entry : Entry) : Prop :=
  ∃ th held below, m.threads[t]? = some th ∧
    th.frames = .body entry :: .calling held :: .executing i :: below

/-- In the course of a run some thread has run the code of a call to its end. -/
def Ran (m : Machine) (moves : List Move) (d : DispatcherId) (i : Invocation) (y : Yield) : Prop :=
  ∃ before t entry, before ++ [.finish t y] <+: moves ∧ m.Began before d i entry ∧
    (m.run before).Runs t i entry

theorem Began.mono (h : m.Began moves d i entry) (sub : moves <+: moves') : m.Began moves' d i entry := by
  obtain ⟨before, a, part, begins⟩ := h
  exact ⟨before, a, part.trans sub, begins⟩

theorem Ran.mono (h : m.Ran moves d i y) (sub : moves <+: moves') : m.Ran moves' d i y := by
  obtain ⟨before, t, entry, part, ran⟩ := h
  exact ⟨before, t, entry, part.trans sub, ran⟩

theorem began_concat (h : m.Began (moves ++ [a]) d i entry) :
    m.Began moves d i entry ∨ (m.run moves).Begins d i entry a := by
  obtain ⟨before, a', part, begins⟩ := h
  rcases List.prefix_concat_iff.1 part with whole | earlier
  · obtain ⟨rfl, e⟩ := List.append_inj' whole rfl
    cases e
    exact .inr begins
  · exact .inl ⟨before, a', earlier, begins⟩

/-! ## Stages -/

/-- What has become of a call of a completion in the course of a run. -/
inductive Stage (m : Machine) (moves : List Move) (d : DispatcherId) (k : CompletionId)
    (i : Invocation) : Prop
  | waits {c : Context} (waiting : .work i ∈ ((m.run moves).shared.dispatcher d).queues.waiting c)
      (unbegun : ∀ entry, ¬ m.Began moves d i entry)
  | performs {t : Nat} {th : Thread} {entry : Entry} {below : List Frame} {said : Option Yield}
      (began : m.Began moves d i entry) (ran : ∀ y, said = some y → m.Ran moves d i y)
      (ht : (m.run moves).threads[t]? = some th)
      (performs : th.Performs entry (.executing i :: below) said)
  | told {y : Yield} (ran : m.Ran moves d i y)
      (told : (m.run moves).shared.completions[k]? = some (some .delivered))
  | givenUp (givenUp : GivenUp (m.run moves).shared (m.run moves).frames k)
      (unbegun : ∀ entry, ¬ m.Began moves d i entry)

/-- A call for which a caller waits is followed from the move on that has put it into a queue. -/
structure Followed (m : Machine) (moves : List Move) (d : DispatcherId) (k : CompletionId)
    (i : Invocation) : Prop where
  completion : i.completion = some k
  tracked : Tracked (m.run moves).shared (m.run moves).frames k d i.target (m.GoneBy moves d i.target)
  single : Single (m.run moves).shared (m.run moves).frames k d i
  stage : m.Stage moves d k i

/-- Some run leads here. -/
def Reachable (m : Machine) : Prop :=
  ∃ r moves, m = (start r).run moves

namespace Reachable

theorem run (h : m.Reachable) (moves : List Move) : (m.run moves).Reachable := by
  obtain ⟨r, past, rfl⟩ := h
  exact ⟨r, past ++ moves, (run_append _ past moves).symm⟩

theorem regular (h : m.Reachable) : m.Regular := by
  obtain ⟨r, past, rfl⟩ := h
  exact (regular_start r).run past

theorem follows (h : m.Reachable) : ∃ es, m.Follows es := by
  obtain ⟨r, past, rfl⟩ := h
  exact ⟨_, follows_run r past⟩

/-- A call that is due finds its method. -/
theorem known (h : m.Reachable) {th : Thread} (ht : m.threads[t]? = some th) {target : Target}
    {args : List Variant} (due : th.Due m.shared d target args) (error : DispatchError) :
    m.shared.callee d target args ≠ .unknown error := by
  obtain ⟨r, past, rfl⟩ := h
  have typed := typed_run r past
  exact typed.known (sound_run (sound_start r) past) (sorted_run r past) (List.mem_of_getElem? ht) due error

end Reachable

/-! ### Calls that wait -/

theorem mem_callsOf_of_mem_waiting {x : Dispatcher} (waiting : .work i ∈ x.queues.waiting c)
    (completion : i.completion = some k) : i ∈ x.callsOf k := by
  cases own : x.queues.of? c with
  | none =>
    rw [Queues.waiting_of_of?_none own] at waiting
    cases waiting
  | some q =>
    rw [Queues.waiting_of_of? own] at waiting
    exact Dispatcher.mem_callsOf_of_waiting waiting completion

/-- What waits for a context goes on waiting if it is not taken. -/
theorem waiting_move (reachable : m.Reachable) {item : QueueItem Invocation}
    (waiting : item ∈ (m.shared.dispatcher d).queues.waiting c) (a : Move) :
    (m.move a).shared.Closed d ∨ (d, .taken c item) ∈ m.traffic a ∨
      item ∈ ((m.move a).shared.dispatcher d).queues.waiting c := by
  have regular := reachable.regular
  obtain ⟨es, follows⟩ := reachable.follows
  rcases follows.runs d with run | ⟨closed, -⟩
  · rcases (settles_move (fun _ _ ht => follows.knows regular ht) a).runs d with run' | ⟨closed, -⟩
    · have all : (m.shared.dispatcher d).queues.waiting c ++ _ =
          _ ++ ((m.move a).shared.dispatcher d).queues.waiting c :=
        run'.waiting (run.held Queues.held_empty) c
      have among := List.mem_append_left
        (QueueEvent.postedTo c ((m.traffic a).filterMap (ofDispatcher d))) waiting
      rw [all] at among
      refine .inr ((List.mem_append.1 among).imp_left fun taken => ?_)
      obtain ⟨e, he, taken⟩ := List.mem_filterMap.1 taken
      cases e with
      | posted => cases taken
      | taken c' item' =>
        obtain ⟨rfl, rfl⟩ : c' = c ∧ item' = item := by simpa [QueueEvent.taken?] using taken
        exact mem_filterMap_ofDispatcher.1 he
    · exact .inl closed
  · exact .inl ((kept_closed d).effect (effect_move regular.sound a) closed)

theorem waited_of_taken (taken : (d, .taken c (.work i)) ∈ m.traffic a) (completion : i.completion = some k) :
    i ∈ (m.shared.dispatcher d).callsOf k := by
  obtain ⟨t, th, p, -, -, takes, -⟩ := move_of_taken taken
  cases takes with
  | intro now serves pop => exact Dispatcher.mem_callsOf_of_waiting (Queues.mem_queue_pop pop).1 completion

/-- A call that was given up is not taken. -/
theorem not_taken_of_givenUp (gone : GivenUp m.shared m.frames k) (completion : i.completion = some k)
    (a : Move) : (d, .taken c (.work i)) ∉ m.traffic a := by
  intro taken
  have waits := waited_of_taken taken completion
  rw [gone.calls] at waits
  exact Multiset.notMem_zero i waits

/-- No code has run for a call whose completion is not made yet. -/
theorem unbegun_of_unmade (regular : m.Regular) (completion : i.completion = some k)
    (unmade : (m.run moves).shared.completions.length ≤ k) : ¬ m.Began moves d i entry := by
  rintro ⟨before, a, ⟨rest, rfl⟩, ⟨c, taken⟩, -⟩
  have waited := waited_of_taken taken completion
  have made := (regular.run before).bounded.awaited d k _ (Dispatcher.awaits_of_mem_callsOf waited)
  have later := (kept_made _).run (regular.run before).sound (Nat.le_refl _) (a :: rest)
  rw [List.append_assoc, run_append] at unmade
  exact absurd (Nat.lt_of_lt_of_le made later) (Nat.not_lt.2 unmade)

namespace Followed

/-- A call of which nothing was taken is not running. -/
theorem unbegun_concat (unbegun : ∀ entry, ¬ m.Began moves d i entry)
    (left : ∀ c, (d, .taken c (.work i)) ∉ (m.run moves).traffic a) :
    ∀ entry, ¬ m.Began (moves ++ [a]) d i entry := by
  intro entry began
  rcases began_concat began with earlier | ⟨⟨c, taken⟩, -⟩
  · exact unbegun entry earlier
  · exact left c taken

/-- Code is called for a call that is taken, unless its receiver is gone. -/
theorem taken (reachable : m.Reachable) (h : m.Followed moves d k i)
    (unbegun : ∀ entry, ¬ m.Began moves d i entry)
    (taken : (d, .taken c (.work i)) ∈ (m.run moves).traffic a) : m.Stage (moves ++ [a]) d k i := by
  obtain ⟨t, th, p, -, ht, takes, moved⟩ := move_of_taken taken
  cases takes with
  | @intro v below queues now serves pop =>
    let s := (m.run moves).shared
    let s₁ : Shared := { s.setDispatcher v.dispatcher { s.dispatcher v.dispatcher with queues } with now }
    have callee : s₁.callee v.dispatcher i.target i.args = s.callee v.dispatcher i.target i.args :=
      Thread.callee_setDispatcher_queues queues i.target i.args
    cases hc : (m.run moves).shared.callee v.dispatcher i.target i.args with
    | gone =>
      rw [Thread.execute_of_gone (s := s₁) (callee.trans hc)] at moved
      refine .givenUp ?_ fun entry began => ?_
      · obtain ⟨others, before, after⟩ := frames_set ht
        have single := h.single
        rw [before, serves, ← List.singleton_append, ← Multiset.coe_add, add_assoc] at single
        have skipped : GivenUp s₁ _ k := single.skip (n := v.executed + 1) pop h.completion
        rw [run_concat, moved, after]
        rwa [← add_assoc, Multiset.coe_add] at skipped
      · rcases began_concat began with earlier | ⟨-, held, code⟩
        · exact unbegun entry earlier
        · cases hc.symm.trans code
    | unknown error => exact absurd hc ((reachable.run moves).known ht (.queued serves pop) error)
    | code entry held =>
      rw [Thread.execute_of_code (s := s₁) (callee.trans hc)] at moved
      let th' := th.withFrames (Thread.callFrames entry held
        (.executing i :: .serving { v with executed := v.executed + 1 } :: below))
      have ht' : (m.run (moves ++ [a])).threads[t]? = some th' := by
        rw [run_concat, moved]
        exact getElem?_set_thread ht th'
      have began : m.Began (moves ++ [a]) v.dispatcher i entry :=
        ⟨moves, a, List.prefix_rfl, ⟨_, taken⟩, held, hc⟩
      refine .performs began ?_ ht' (.called rfl)
      exact nofun

/-- The caller was not told anything as long as a frame executes the call. -/
theorem untold_of_executing (h : m.Followed moves d k i) {th : Thread}
    (ht : (m.run moves).threads[t]? = some th) (executing : .executing i ∈ th.frames) :
    (m.run moves).shared.completions[k]? = some none := by
  have inside : .executing i ∈ (m.run moves).frames :=
    Multiset.mem_coe.2 (List.mem_flatMap.2 ⟨th, List.mem_of_getElem? ht, executing⟩)
  exact (h.single.untold (Nat.add_pos_right _ (Frame.executions_pos inside h.completion))).1

theorem untold_of_waiting (h : m.Followed moves d k i)
    (waiting : .work i ∈ ((m.run moves).shared.dispatcher d).queues.waiting c) :
    (m.run moves).shared.completions[k]? = some none := by
  have waits := mem_callsOf_of_mem_waiting waiting h.completion
  exact (h.single.untold (Nat.add_pos_left (Multiset.card_pos_iff_exists_mem.2 ⟨i, waits⟩) _)).1

/-! ### Calls that run -/

/-- Code goes on that was called for a call. When it has ended and what was held for it is given back, the
caller is told. -/
theorem performs (reachable : m.Reachable) (h : m.Followed moves d k i) {th : Thread}
    {below : List Frame} {said : Option Yield} (began : m.Began moves d i entry)
    (ran : ∀ y, said = some y → m.Ran moves d i y) (ht : (m.run moves).threads[t]? = some th)
    (performs : th.Performs entry (.executing i :: below) said) (a : Move) :
    m.Stage (moves ++ [a]) d k i := by
  have began' : m.Began (moves ++ [a]) d i entry := began.mono (List.prefix_append _ _)
  have ran' : ∀ y, said = some y → m.Ran (moves ++ [a]) d i y := fun y hy =>
    (ran y hy).mono (List.prefix_append _ _)
  rcases performs_move (reachable.run moves).regular ht performs a with
    ⟨th', ht', performs'⟩ | ⟨y, held, th', rfl, frames, ht', performs'⟩ |
    ⟨y, s', th', now, said, moved, resumed⟩
  · exact .performs began' ran' (run_concat m moves a ▸ ht') performs'
  · have ran : m.Ran (moves ++ [Move.finish t y]) d i y :=
      ⟨moves, t, entry, List.prefix_rfl, began, th, held, below, ht, frames⟩
    exact .performs began' (fun _ e => Option.some.inj e ▸ ran) (run_concat m moves _ ▸ ht') performs'
  · have made : Reply.called y.result ≠ .called .skipped := by cases y <;> exact nofun
    rw [Thread.resume_executing made rfl, h.completion] at resumed
    obtain ⟨rfl, -⟩ := Prod.mk.inj resumed
    refine .told (ran' y said) ?_
    rw [run_concat, moved]
    have untold := h.untold_of_executing ht (performs.mem List.mem_cons_self)
    exact (Shared.getElem?_complete k k .delivered).trans (by rw [if_pos rfl, untold]; rfl)

/-! ### All stages -/

/-- What a move does to a call, as long as nothing else is known of it than its stage. -/
theorem stage_move (reachable : m.Reachable) (h : m.Followed moves d k i) (a : Move) :
    (m.run (moves ++ [a])).shared.Closed d ∨ m.Stage (moves ++ [a]) d k i := by
  have effect := effect_move (reachable.run moves).regular.sound a
  cases h.stage with
  | waits waiting unbegun =>
    by_cases left : ∀ c, (d, .taken c (.work i)) ∉ (m.run moves).traffic a
    · rw [run_concat]
      refine (waiting_move (reachable.run moves) waiting a).imp_right fun after => ?_
      have waits := after.resolve_left (left _)
      exact .waits (run_concat m moves a ▸ waits) (unbegun_concat unbegun left)
    · obtain ⟨c, taken⟩ := not_forall_not.1 left
      exact .inr (h.taken reachable unbegun taken)
  | performs began ran ht performs => exact .inr (h.performs reachable began ran ht performs a)
  | told ran told =>
    refine .inr (.told (ran.mono (List.prefix_append _ _)) ?_)
    exact run_concat m moves a ▸ (kept_told k .delivered).effect effect told
  | givenUp gone unbegun =>
    refine .inr (.givenUp ?_ (unbegun_concat unbegun fun _ => not_taken_of_givenUp gone h.completion a))
    exact run_concat m moves a ▸ (kept_givenUp k).effect effect gone

/-- A call is followed as long as its dispatcher is not closed. -/
theorem move (reachable : m.Reachable) (h : m.Followed moves d k i) (a : Move) :
    (m.run (moves ++ [a])).shared.Closed d ∨ m.Followed (moves ++ [a]) d k i := by
  have sound := (reachable.run moves).regular.sound
  have tracked := tracked_move sound (.inr h.tracked) a
  have single := (kept_single k d i).effect (effect_move sound a) h.single
  rw [← run_concat] at tracked single
  rcases tracked, h.stage_move reachable a with ⟨closed | tracked, closed | stage⟩
  · exact .inl closed
  · exact .inl closed
  · exact .inl closed
  · exact .inr ⟨h.completion, tracked.mono goneBy_concat, single, stage⟩

/-- A caller is told that its call was delivered only if the code of the target has run to its end. -/
theorem ran_of_delivered (h : m.Followed moves d k i)
    (told : (m.run moves).shared.completions[k]? = some (some .delivered)) : ∃ y, m.Ran moves d i y := by
  cases h.stage with
  | waits waiting => cases (h.untold_of_waiting waiting).symm.trans told
  | performs _ _ ht performs =>
    cases (h.untold_of_executing ht (performs.mem List.mem_cons_self)).symm.trans told
  | told ran => exact ⟨_, ran⟩
  | givenUp gone => exact absurd told gone.undelivered

/-- A caller is told that its call was given up only if no code runs for it, then or later. -/
theorem never_of_dropped (reachable : m.Reachable) (h : m.Followed moves d k i)
    (told : (m.run moves).shared.completions[k]? = some (some .dropped)) (later : List Move)
    (entry : Entry) : ¬ m.Began (moves ++ later) d i entry := by
  cases h.stage with
  | waits waiting => cases (h.untold_of_waiting waiting).symm.trans told
  | performs _ _ ht performs =>
    cases (h.untold_of_executing ht (performs.mem List.mem_cons_self)).symm.trans told
  | told _ delivered => cases delivered.symm.trans told
  | givenUp gone unbegun =>
    induction later using List.reverseRecOn generalizing entry with
    | nil =>
      rw [List.append_nil]
      exact unbegun entry
    | append_singleton later a ih =>
      have gone := (kept_givenUp k).run (reachable.run moves).regular.sound gone later
      rw [← run_append] at gone
      rw [← List.append_assoc]
      exact unbegun_concat ih (fun _ => not_taken_of_givenUp gone h.completion a) entry

end Followed

/-! ## What callers hear -/

/-- What has become of a call, by what its caller has heard of it until it stopped waiting. -/
inductive Fate (m : Machine) (moves : List Move) (d : DispatcherId) (i : Invocation) :
    Option Completion → Prop
  /-- The code of the target has run to its end, whatever it said then. -/
  | ran {y : Yield} (ran : m.Ran moves d i y) : Fate m moves d i (some .delivered)
  /-- The receiver was gone, and no code runs for the call, then or later. -/
  | givenUp (gone : m.GoneBy moves d i.target)
      (never : ∀ later entry, ¬ m.Began (moves ++ later) d i entry) : Fate m moves d i (some .dropped)
  | late : Fate m moves d i none

theorem Fate.concat {heard : Option Completion} (h : m.Fate moves d i heard) (a : Move) :
    m.Fate (moves ++ [a]) d i heard := by
  cases h with
  | ran ran => exact .ran (ran.mono (List.prefix_append _ _))
  | givenUp gone never =>
    refine .givenUp (goneBy_concat (.inl gone)) fun later => ?_
    rw [List.append_assoc]
    exact never ([a] ++ later)
  | late => exact .late

theorem Followed.fate (reachable : m.Reachable) (h : m.Followed moves d k i) {heard : Option Completion}
    (told : (m.run moves).shared.Heard k heard) : m.Fate moves d i heard := by
  match heard with
  | none => exact .late
  | some .delivered =>
    obtain ⟨y, ran⟩ := h.ran_of_delivered (told _ rfl)
    exact .ran ran
  | some .dropped =>
    have told := told _ rfl
    exact .givenUp (h.tracked.told told) (h.never_of_dropped reachable told)

/-! ## Calls that are put into queues -/

/-- The call of a caller that is about to wait. -/
def waitingCall (s : Shared) (target : Target) (args : List Variant) : Invocation where
  target
  args
  completion := some s.completions.length

/-- A call is put behind all others that wait for its context. -/
theorem waiting_enqueue (known : d < s.dispatchers.length) (context : Context) (i : Invocation)
    (x : Context) : ((s.enqueue d context i).dispatcher d).queues.waiting x =
      (s.dispatcher d).queues.waiting x ++ if x = context then [.work i] else [] := by
  have set : (s.enqueue d context i).dispatcher d = (s.dispatcher d).enqueue context i :=
    (Shared.dispatcher_retainAll _ _).trans (Shared.dispatcher_setDispatcher_of_lt known _)
  rw [set]
  show (Queues.post _ _ _).waiting x = _
  rw [Queues.waiting_post]
  split
  · rename_i same
    rw [same]
  · rw [List.append_nil]

/-- A call is followed from the move on that puts it into a queue. -/
theorem followed_of_enqueueWaiting {old new : List Frame} {others : Multiset Frame} {target : Target}
    {args : List Variant} (bounded : Bounded s (old + others)) (known : d < s.dispatchers.length)
    (executes : new.flatMap (·.executes) = old.flatMap (·.executes))
    (dismisses : new.flatMap (·.dismisses) = old.flatMap (·.dismisses))
    (same : (s.enqueueWaiting d c target args).2.SameCalls (m.run moves).shared)
    (frames : (m.run moves).frames = new + others)
    (unbegun : ∀ entry, ¬ m.Began moves d (waitingCall s target args) entry) :
    m.Followed moves d s.completions.length (waitingCall s target args) := by
  have waiting : .work (waitingCall s target args) ∈
      ((m.run moves).shared.dispatcher d).queues.waiting c := by
    have waiting := waiting_enqueue (s := s.addCompletion.2) known c (waitingCall s target args) c
    rw [same.dispatcher]
    rw [if_pos rfl] at waiting
    exact waiting ▸ List.mem_append_right _ (List.mem_singleton_self _)
  refine ⟨rfl, ?_, ?_, .waits waiting unbegun⟩
  · rw [frames]
    exact (tracked_enqueueWaiting bounded dismisses).of_same same
  · rw [frames]
    exact (single_enqueueWaiting bounded executes dismisses).of_same same

end Machine
end Reflection

import Reflection.Proofs.Machine.Emission
/-!
# What is told of calls that block

A delivery over a blocking connection is counted as made if its call was executed to the end, whatever
the slot has said, and as skipped if the receiver was gone and the call will never be executed
(`Machine.Outcome`). Client code that asks for a blocking call gets the same answer in both cases. The
last of these theorems says so for all runs (`blocking_answers_tell_that_calls_are_over`).
-/

namespace Reflection
namespace Machine

variable {m : Machine} {t n : Nat} {th : Thread} {moves : List Move} {a : Move} {d : DispatcherId}
  {k : CompletionId} {i : Invocation} {base : List Frame} {ending : Ending}
  {p : ConnectionId × Connection}

/-! ## Deliveries -/

/-- The move that attempts a delivery of an emission puts a call for it into a queue. -/
def PostedFor (m : Machine) (t n : Nat) (moves : List Move) (d : DispatcherId)
    (p : ConnectionId × Connection) (i : Invocation) : Prop :=
  ∃ before a context, before ++ [a] <+: moves ∧ (m.run before).attempt? t n a = some p ∧
    (m.run before).traffic a = [(d, .posted context (.work i))]

/-- How a delivery has ended of an emission, with some arguments, of client code in the context
`current`. -/
inductive Outcome (m : Machine) (t n : Nat) (moves : List Move) (d : DispatcherId) (args : List Variant)
    (current : Context) (p : ConnectionId × Connection) : Ending → Prop
  | other {ending : Ending} (goesOn : p.2.type ≠ .blocking) (apart : ending ≠ .blocking) :
      Outcome m t n moves d args current p ending
  /-- The receiver is in the context of the emission. -/
  | refused (blocks : p.2.type = .blocking) :
      Outcome m t n moves d args current p (.failed (.blockingSameContext current))
  /-- There was no receiver when the delivery was attempted. -/
  | gone (blocks : p.2.type = .blocking) (gone : m.GoneBy moves d p.2.target) :
      Outcome m t n moves d args current p .skipped
  | waited (blocks : p.2.type = .blocking) {i : Invocation} {heard : Option Completion} (ms : Nat)
      (posted : m.PostedFor t n moves d p i) (target : i.target = p.2.target) (arguments : i.args = args)
      (fate : m.Fate moves d i heard) :
      Outcome m t n moves d args current p (.waited (.timeout ms) heard)

/-- A delivery over a blocking connection that is counted as made was executed to the end. -/
theorem Outcome.ran {args : List Variant} {current : Context}
    (h : m.Outcome t n moves d args current p .blocking) :
    ∃ i y, i.target = p.2.target ∧ i.args = args ∧ m.Ran moves d i y := by
  generalize he : Ending.blocking = ending at h
  cases h with
  | other goesOn apart => exact absurd he.symm apart
  | refused | gone => cases he
  | @waited _ i heard ms posted target arguments fate =>
    cases fate with
    | @ran y ran => exact ⟨i, y, target, arguments, ran⟩
    | givenUp | late => cases he

/-- A call that was put into a queue when its delivery was attempted. -/
theorem Attempted.postedFor {args : List Variant} {current : Context}
    (h : m.Attempted t n moves d args current p (.posted i)) : m.PostedFor t n moves d p i := by
  obtain ⟨before, a, part, attempts, makes⟩ := h
  cases makes with
  | @posted context _ there apart target arguments completion posts =>
    exact ⟨before, a, context, part, attempts, posts⟩

/-- What has become of a delivery says how it has ended. -/
theorem Delivered.outcome {args : List Variant} {current : Context}
    (h : m.Delivered t n moves d args current p ending) : m.Outcome t n moves d args current p ending := by
  cases h with
  | skipped attempted =>
    by_cases blocks : p.2.type = .blocking
    · obtain ⟨before, a, part, -, makes⟩ := attempted
      cases makes with
      | skipped gone => exact .gone blocks ⟨before, (List.prefix_append _ _).trans part, gone⟩
    · exact .other blocks nofun
  | refused attempted =>
    obtain ⟨before, a, -, -, makes⟩ := attempted
    cases makes with
    | refused blocks => exact .refused blocks
  | queued goesOn => exact .other goesOn nofun
  | @called entry y goesOn performed => exact .other goesOn (by cases y <;> exact nofun)
  | waited ms blocks attempted target arguments fate =>
    exact .waited blocks ms attempted.postedFor target arguments fate

/-- The deliveries of an emission account for all that its report says. -/
def Explains (m : Machine) (t n : Nat) (moves : List Move) (d : DispatcherId) (args : List Variant)
    (current : Context) (all : List (ConnectionId × Connection)) (report : EmitReport) : Prop :=
  ∀ id ending, (id, ending) ∈ report.endings →
    ∃ c, (id, c) ∈ all ∧ m.Outcome t n moves d args current (id, c) ending

/-! ## Calls of client code -/

/-- What client code is told in the end of a call that blocks, by what was heard of the call until the
time of waiting was over. -/
def answerTo (late : DispatchError) : Option Completion → Except DispatchError (Option Variant)
  | some _ => .ok none
  | none => .error late

/-- How a blocking call has ended that client code has asked for. -/
inductive CallEnds (m : Machine) (t : Nat) (later : List Move) (d : DispatcherId) (o : ObjectId)
    (text : String) (args : List Variant) : Except DispatchError (Option Variant) → Prop
  /-- No call was put into a queue. -/
  | refused (error : DispatchError) (nothing : m.traffic (.act t (.call d o text .blocking args)) = []) :
      CallEnds m t later d o text args (.error error)
  | waited {reg : Registration} {index : Nat} {i : Invocation} {heard : Option Completion} (ms : Nat)
      (named : (m.shared.dispatcher d).methodNamed o text = .ok (reg, index))
      (posted : m.traffic (.act t (.call d o text .blocking args)) =
        [(d, .posted reg.context (.work i))])
      (target : i.target = .method o index) (arguments : i.args = args)
      (fate : (m.act t (.call d o text .blocking args)).Fate later d i heard) :
      CallEnds m t later d o text args (answerTo (.timeout ms) heard)

/-- The way of a blocking call. -/
theorem beginCall_blocking {x : Dispatcher} {o : ObjectId} {text : String} {args : List Variant}
    {current : Context} {route : Route} (h : x.beginCall o text .blocking args current = .ok route) :
    ∃ r index, x.methodNamed o text = .ok (r, index) ∧
      (route = .fail (.blockingSameContext current) ∨ route = .wait r.context (.method o index)) := by
  simp only [Dispatcher.beginCall, bind_eq_ok_iff, refuse_bind_eq_ok_iff] at h
  obtain ⟨⟨r, index⟩, named, -, -, -, h⟩ := h
  refine ⟨r, index, named, ?_⟩
  cases h
  unfold Dispatcher.route
  dsimp only
  split
  · rename_i here
    exact .inl (here ▸ rfl)
  · exact .inr rfl

/-- What client code posts is what it has asked for. -/
theorem traffic_act {entry : Entry} {fs : List Frame} {a : Action} (ht : m.threads[t]? = some th)
    (hf : th.frames = .body entry :: fs) (permitted : Thread.permits m.shared a) :
    m.traffic (.act t a) = th.asked m.shared a := by
  simp only [traffic, ht, Option.map_some, Option.getD_some, Thread.acted, hf]
  exact if_pos permitted

/-- Client code at the top of the frames `base` waits for a call. -/
structure Waits (m : Machine) (t : Nat) (base : List Frame) (moves : List Move) (d : DispatcherId)
    (k : CompletionId) (i : Invocation) : Prop where
  stands : ∃ th top deadline, (m.run moves).threads[t]? = some th ∧
    th.frames = top ++ .waiting k deadline :: .invoking d [.dispatcher d] :: base
  followed : m.Followed moves d k i

/-- Client code that waits for a call is told what its answer says. -/
theorem resume_invoking_completed {s : Shared} {held : List Held} (hf : th.frames = .invoking d held :: base)
    (heard : Option Completion) :
    let told := Answer.returned (answerTo (s.timeoutError d) heard)
    Thread.resume s th (.completed heard) = (s, th.withFrames (.releasing held (.answer told) :: base)) := by
  unfold Thread.resume
  rw [hf]
  cases heard <;> rfl

/-- What a move does to client code that waits. -/
theorem Waits.move (reachable : m.Reachable) (h : m.Waits t base moves d k i) (a : Move) :
    m.Waits t base (moves ++ [a]) d k i ∨
      ∃ ms heard, m.Fate (moves ++ [a]) d i heard ∧
        ((m.run moves).move a).Answering t base (.returned (answerTo (.timeout ms) heard)) := by
  obtain ⟨th, top, deadline, ht, hf⟩ := h.stands
  have regular := (reachable.run moves).regular
  have goesOn : ∀ th' top', ((m.run moves).move a).threads[t]? = some th' →
      th'.frames = top' ++ .waiting k deadline :: .invoking d [.dispatcher d] :: base →
      m.Waits t base (moves ++ [a]) d k i := by
    intro th' top' ht' hf'
    rw [← run_concat] at ht'
    refine ⟨⟨th', top', deadline, ht', hf'⟩, (h.followed.move reachable a).resolve_left fun closed => ?_⟩
    have inside : .invoking d [.dispatcher d] ∈ th'.frames := by simp [hf']
    have opened := (reachable.run (moves ++ [a])).regular.opened ht' inside (List.mem_singleton_self d)
    exact absurd (closed.2 ▸ opened) (Nat.lt_irrefl 0)
  have answers : ∀ {s' th'} now heard, (m.run moves).move a = ⟨s', (m.run moves).threads.set t th'⟩ →
      (s', th') = Thread.resume { (m.run moves).shared with now }
        (th.withFrames (.invoking d [.dispatcher d] :: base)) (.completed heard) →
      (m.run moves).shared.Heard k heard → ∃ ms heard, m.Fate (moves ++ [a]) d i heard ∧
        ((m.run moves).move a).Answering t base (.returned (answerTo (.timeout ms) heard)) := by
    intro s' th' now heard moved resumed told
    let ms := ((m.run moves).shared.dispatcher d).timeout.getD 0
    refine ⟨ms, heard, (h.followed.fate reachable told).concat a, th', [], [.dispatcher d], ?_, ?_⟩
    · rw [moved]
      exact getElem?_set_thread ht th'
    · rw [resume_invoking_completed rfl] at resumed
      cases resumed
      rfl
  rcases move_thread ht a with ⟨-, s', th', step, moved⟩ | same
  · rcases step.above (regular.sound_frames ht) (g := .waiting k deadline) trivial hf with
      ⟨top', g', frames, becomes⟩ | ⟨-, now, r, pop, resumed⟩
    · cases becomes with
      | same =>
        refine .inl (goesOn th' top' ?_ frames)
        rw [moved]
        exact getElem?_set_thread ht th'
    · refine .inr ?_
      cases pop with
      | @told _ c told => exact answers now (some c) moved resumed fun c' same => same ▸ told
      | untold => exact answers now none moved resumed nofun
  · exact .inl (goesOn th top same hf)

/-- A call that client code waits for has a new completion, and nothing has become of it yet. -/
theorem waits_of_call {entry : Entry} {fs : List Frame} {o : ObjectId} {text : String}
    {args : List Variant} {context : Context} {target : Target} (reachable : m.Reachable)
    (ht : m.threads[t]? = some th) (hf : th.frames = .body entry :: fs) (opened : m.shared.isOpen d)
    (route : (m.shared.dispatcher d).beginCall o text .blocking args th.current =
      .ok (.wait context target)) :
    (m.act t (.call d o text .blocking args)).Waits t (.body entry :: fs) [] d
      m.shared.completions.length (waitingCall m.shared target args) := by
  have permitted : Thread.permits m.shared (.call d o text .blocking args) := opened
  let posted := (m.shared.enqueueWaiting d context target args).2
  let frames : List Frame := [.waiting m.shared.completions.length (posted.deadline d),
    .invoking d [.dispatcher d], .body entry]
  let th' : Thread := { th with answer := none, frames := frames ++ fs }
  have acts : m.act t (.call d o text .blocking args) =
      ⟨posted.retain (.dispatcher d), m.threads.set t th'⟩ := by
    rw [act_eq ht, Thread.act_eq_perform hf permitted]
    unfold Thread.perform
    simp only [route, Thread.beginCalling, hf]
    rfl
  have ht' : (m.act t (.call d o text .blocking args)).threads[t]? = some th' := by
    rw [acts]
    exact getElem?_set_thread ht th'
  refine ⟨⟨th', [], posted.deadline d, ht', rfl⟩, ?_⟩
  obtain ⟨others, whole, others'⟩ := frames_set ht
  have bounded := reachable.regular.bounded
  rw [whole, hf] at bounded
  have same : posted.SameCalls (m.act t (.call d o text .blocking args)).shared := by
    rw [acts]
    exact ⟨fun _ => Shared.dispatcher_retain _, Shared.completions_retain _⟩
  have stack : (m.act t (.call d o text .blocking args)).frames = th'.frames + others := by
    rw [acts]
    exact others' _ th'
  have known : d < m.shared.dispatchers.length := Shared.lt_of_handles (Shared.isOpen_iff.1 opened)
  refine followed_of_enqueueWaiting bounded known ?_ ?_ same stack ?_
  · rfl
  · rfl
  · rintro entry ⟨before, a, part, -⟩
    exact absurd part.length_le (by simp)

/-- Client code waits until it is told what has become of its call, or until the time is over. -/
theorem waits_run {entry : Entry} {fs : List Frame} (reachable : m.Reachable)
    (begun : m.Waits t (.body entry :: fs) [] d k i) (moves : List Move)
    (above : m.Above t (fs.length + 1) moves) :
    m.Waits t (.body entry :: fs) moves d k i ∨
    ∃ answer, (∃ ms heard, answer = .returned (answerTo (.timeout ms) heard) ∧ m.Fate moves d i heard) ∧
      ((m.run moves).Answering t (.body entry :: fs) answer ∨
        (m.run moves).Answered t (.body entry :: fs) answer) := by
  refine operation_run reachable.regular entry fs (P := fun moves => m.Waits t (.body entry :: fs) moves d k i)
    (Q := fun moves answer => ∃ ms heard, answer = .returned (answerTo (.timeout ms) heard) ∧
      m.Fate moves d i heard) begun ?_ ?_ moves above
  · intro moves a waits
    exact (waits.move reachable a).imp_right fun ⟨ms, heard, fate, answering⟩ =>
      ⟨_, ⟨ms, heard, rfl, fate⟩, answering⟩
  · rintro moves a answer - ⟨ms, heard, told, fate⟩
    exact ⟨ms, heard, told, fate.concat a⟩

theorem Waits.depth (h : m.Waits t base moves d k i) : base.length < (m.run moves).depth t := by
  obtain ⟨th, top, deadline, ht, hf⟩ := h.stands
  rw [depth_eq ht, hf]
  simp
  omega

/-- What client code is told in the end tells how the call has ended that it has asked for. -/
theorem callEnds_of_completes {o : ObjectId} {text : String} {args : List Variant} {later : List Move}
    {answer : Answer} (reachable : m.Reachable)
    (completes : m.Completes t (.call d o text .blocking args) later answer) :
    ∃ result, answer = .returned result ∧ m.CallEnds t later d o text args result := by
  obtain ⟨th, entry, fs, ht, hf, permitted⟩ := completes.asks
  have asked := traffic_act ht hf permitted
  have refused : ∀ error, Thread.perform m.shared { th with answer := none } (.call d o text .blocking args) =
      Thread.reply m.shared { th with answer := none } (.returned (.error error)) →
      th.asked m.shared (.call d o text .blocking args) = [] →
      ∃ result, answer = .returned result ∧ m.CallEnds t later d o text args result :=
    fun error replies nothing =>
      ⟨_, completes.eq_of_reply ht hf replies, .refused error (asked.trans nothing)⟩
  cases begun : (m.shared.dispatcher d).beginCall o text .blocking args th.current with
  | error error =>
    refine refused error ?_ (Thread.asked_of_refused begun)
    unfold Thread.perform
    simp only [begun]
  | ok route =>
    obtain ⟨reg, index, named, rfl | rfl⟩ := beginCall_blocking begun
    · refine refused (.blockingSameContext th.current) ?_ (Thread.asked_of_route begun)
      unfold Thread.perform
      simp only [begun, Thread.beginCalling]
    · have waits := waits_of_call reachable ht hf permitted begun
      have above := depth_of_frames ht hf ▸ completes.above
      have run := waits_run (reachable.run [.act t (.call d o text .blocking args)]) waits later above
      obtain ⟨ms, heard, told, fate⟩ := completes.over ht hf (P := _) (Q := fun answer => ∃ ms heard,
        answer = .returned (answerTo (.timeout ms) heard) ∧
          (m.act t (.call d o text .blocking args)).Fate later d _ heard) Waits.depth run
      refine ⟨_, told, .waited ms named ?_ rfl rfl fate⟩
      exact asked.trans (Thread.asked_of_route begun)

/-! ## Main theorem -/

/-- Let client code ask, after any run, for an emission that passes its checks.

Its report has one ending for each delivery. A delivery over a blocking connection that is counted as
made was executed: the code of its target has run to the end, whatever it said then. It is counted as
skipped only if its receiver was gone, and then no code runs for it, also later. It is counted as failed
only if the receiver is in the context of the emission or the time of waiting is over.

Now let client code ask for a blocking call. Either it is refused before anything is put into a queue,
or client code waits. Then it is told that there is no value both if the code has run to the end,
whatever it said, and if the call was given up and no code runs for it; an error tells only that the
time is over. -/
theorem blocking_answers_tell_that_calls_are_over (r : Registry) (past : List Move) (t : Nat)
    (th : Thread) (d : DispatcherId) (o : ObjectId) (args : List Variant)
    (ht : ((start r).run past).threads[t]? = some th) :
    let m := (start r).run past
    (∀ signal a all, EmitsSignal m.shared d o signal args a →
      (m.shared.dispatcher d).beginEmission o signal args = .ok all →
      ∀ later answer, m.Completes t a later answer → ∃ report, answer = .emitted (.ok report) ∧
        (report.endings.map (·.1)).Perm (all.map (·.1)) ∧
        (m.act t a).Explains t (m.depth t) later d args th.current all report) ∧
    ∀ text later answer, m.Completes t (.call d o text .blocking args) later answer →
      ∃ result, answer = .returned result ∧ m.CallEnds t later d o text args result := by
  intro m
  have reachable : m.Reachable := ⟨r, past, rfl⟩
  refine ⟨fun signal a all emits passes later answer completes => ?_,
    fun text later answer => callEnds_of_completes reachable⟩
  obtain ⟨report, told, delivered⟩ :=
    (tells_of_emitsSignal reachable ht completes.toPends emits passes).2 answer completes
  obtain ⟨-, report', told', covers⟩ :=
    (emission_run reachable.regular completes.toPends emits passes).2 answer completes
  cases told.symm.trans told'
  refine ⟨report, told, covers.ids, fun id ending hid => ?_⟩
  obtain ⟨c, hc, delivered⟩ := delivered id ending hid
  exact ⟨c, hc, delivered.outcome⟩

/-! ### Runs -/

/-- A bell in the context of another thread hears itself over a blocking connection. -/
def hangApart : List Move :=
  hang.take 4 ++ [.act 0 (.connectByIndex 0 ⟨0, 1⟩ 0 ⟨0, 1⟩ 1 .blocking),
    .act 0 (.move 0 ⟨0, 1⟩ (.own 1)), .spawn]

/-- The other thread serves its queue, and the slot fails. -/
def crack : List Move :=
  [.advance 0, .advance 0, .act 1 (.serve 0 (.own 1) .untilQuit), .advance 1, .advance 1,
    .finish 1 (.failed (.failed "cracked")), .advance 1, .advance 1, .advance 1, .advance 0, .advance 0,
    .advance 0, .advance 0]

/-- The other thread destroys the bell and serves its queue then. -/
def fall : List Move :=
  .act 1 (.destroy 0 ⟨0, 1⟩) :: List.replicate 5 (.advance 1) ++
    [.act 1 (.serve 0 (.own 1) .untilQuit), .advance 1, .advance 1, .advance 0, .advance 0, .advance 0]

theorem completes_crack :
    ((start bells).run hangApart).Completes 0 (.emitByIndex 0 ⟨0, 1⟩ 0 []) crack
      (.emitted (.ok ⟨[(⟨0, 1⟩, .blocking)]⟩)) := by
  refine ⟨⟨⟨{ current := .own 0, answer := some (.changed (.ok ())) }, .program, [], ?_, ?_, ?_⟩,
    above_of_take ?_⟩, ?_, ?_⟩
  · rfl
  · rfl
  · decide
  · decide
  · decide
  · rfl

theorem completes_fall :
    ((start bells).run hangApart).Completes 0 (.call 0 ⟨0, 1⟩ "hear()" .blocking []) fall
      (.returned (.ok none)) := by
  refine ⟨⟨⟨{ current := .own 0, answer := some (.changed (.ok ())) }, .program, [], ?_, ?_, ?_⟩,
    above_of_take ?_⟩, ?_, ?_⟩
  · rfl
  · rfl
  · decide
  · decide
  · decide
  · rfl

/-- The call of the bell in the other context. -/
def hearing : Invocation where
  target := .method ⟨0, 1⟩ 1
  args := []
  completion := some 0

/-- The slot of the bell runs in the other thread, and fails. -/
theorem ran_crack :
    (((start bells).run hangApart).act 0 (.emitByIndex 0 ⟨0, 1⟩ 0 [])).Ran crack 0 hearing
      (.failed (.failed "cracked")) := by
  generalize rung : ((start bells).run hangApart).act 0 (.emitByIndex 0 ⟨0, 1⟩ 0 []) = m
  have taken : (m.run (crack.take 3)).traffic (.advance 1) =
      [(0, .taken (.own 1) (.work hearing))] := by
    rw [← rung]
    rfl
  obtain ⟨entry, held, code, runs⟩ : ∃ entry held,
      (m.run (crack.take 3)).shared.callee 0 hearing.target hearing.args = .code entry held ∧
        (m.run (crack.take 5)).Runs 1 hearing entry := by
    rw [← rung]
    exact ⟨_, _, rfl, _, _, _, rfl, rfl⟩
  have began : m.Began (crack.take 5) 0 hearing entry :=
    ⟨crack.take 3, .advance 1, ⟨[.advance 1], rfl⟩, ⟨.own 1, taken ▸ List.mem_singleton_self _⟩, held, code⟩
  exact ⟨crack.take 5, 1, entry, ⟨crack.drop 6, rfl⟩, began, runs⟩

/-- A slot that fails in another context is counted like one that does not, and client code that asked
for a call is told nothing of it when the call was given up. -/
theorem cracked_and_fallen_bells_pass_for_rung :
    let m := (start bells).run hangApart
    let emits := Action.emitByIndex 0 ⟨0, 1⟩ 0 []
    let calls := Action.call 0 ⟨0, 1⟩ "hear()" .blocking []
    (m.Completes 0 emits crack (.emitted (.ok ⟨[(⟨0, 1⟩, .blocking)]⟩)) ∧
      (m.act 0 emits).Ran crack 0 hearing (.failed (.failed "cracked"))) ∧
    m.Completes 0 calls fall (.returned (.ok none)) ∧
      ((m.act 0 calls).run fall).shared.completions = [some .dropped] := by
  intro m emits calls
  exact ⟨⟨completes_crack, ran_crack⟩, completes_fall, by decide +kernel⟩

/-- What is told of the two bells is explained: the slot of the first one has run, and the call of the
second one has ended. -/
theorem cracked_and_fallen_bells_are_over :
    let m := (start bells).run hangApart
    let emits := Action.emitByIndex 0 ⟨0, 1⟩ 0 []
    let calls := Action.call 0 ⟨0, 1⟩ "hear()" .blocking []
    (m.Completes 0 emits crack (.emitted (.ok ⟨[(⟨0, 1⟩, .blocking)]⟩)) ∧
      ∃ i y, i.target = .method ⟨0, 1⟩ 1 ∧ (m.act 0 emits).Ran crack 0 i y) ∧
    m.Completes 0 calls fall (.returned (.ok none)) ∧
      m.CallEnds 0 fall 0 ⟨0, 1⟩ "hear()" [] (.ok none) := by
  intro m emits calls
  have passes : (m.shared.dispatcher 0).beginEmission ⟨0, 1⟩ 0 [] =
      .ok [(⟨0, 1⟩, ⟨⟨0, 1⟩, 0, .method ⟨0, 1⟩ 1, .blocking⟩)] := rfl
  obtain ⟨emissions, calls⟩ :=
    blocking_answers_tell_that_calls_are_over bells hangApart 0 _ 0 ⟨0, 1⟩ [] (by rfl)
  obtain ⟨report, told, -, explains⟩ :=
    emissions 0 emits _ .indexed passes crack _ completes_crack
  obtain ⟨result, told', ends⟩ := calls "hear()" fall _ completes_fall
  cases told
  cases told'
  obtain ⟨c, hc, outcome⟩ := explains _ _ (List.mem_singleton_self _)
  cases List.mem_singleton.1 hc
  obtain ⟨i, y, target, -, ran⟩ := outcome.ran
  exact ⟨⟨completes_crack, i, y, target, ran⟩, completes_fall, ends⟩

end Machine
end Reflection

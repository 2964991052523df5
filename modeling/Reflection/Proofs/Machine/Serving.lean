import Reflection.Proofs.Machine.Emission
import Reflection.Proofs.Machine.Queues
/-!
# Loops that run

While a loop runs, its frame stays where it is on the stack, whatever the calls that it executes do
above it (`Serves.move`). It ends by one step, which takes a quit request if the loop was asked to quit;
then it takes nothing more, and client code gets its answer (`ends_of_completes`).
-/

namespace Reflection

namespace Thread

variable {s s' : Shared} {th th' : Thread} {v : Serving} {below top : List Frame}
  {p : Shared × Thread}

/-- What becomes of a loop at the top of a stack: it runs on, or it ends with an answer to come. -/
inductive Serves (s : Shared) (th : Thread) (v : Serving) (below : List Frame) (p : Shared × Thread) :
    Prop
  | goesOn {top : List Frame} {n : Nat}
      (frames : p.2.frames = top ++ .serving { v with executed := n } :: below)
  /-- It runs until it is asked to quit, and only if it is asked to quit it takes a request. -/
  | ends {exit : LoopExit} {held : List Held}
      (frames : p.2.frames = .releasing held (.answer (.served exit v.executed)) :: below)
      (untilQuit : v.mode = .untilQuit → exit = .quit)
      (asked : exit = .quit → traffic s th = [(v.dispatcher, .taken v.loop.context .quit)])

theorem frames_execute (s : Shared) (th : Thread) (d : DispatcherId) (i : Invocation)
    (rest : List Frame) : ∃ top, (execute s th d i rest).2.frames = top ++ rest := by
  have resumed : ∀ r, ∃ top,
      (resume s (th.withFrames (.executing i :: rest)) (.called r)).2.frames = top ++ rest :=
    fun _ => ⟨[.releasing i.held .nothing], rfl⟩
  unfold execute
  split
  · exact resumed _
  · exact resumed _
  · exact ⟨[_, _, _], rfl⟩

theorem serves_advance (hf : th.frames = .serving v :: below) (h : advance s th = some p) :
    Serves s th v below p := by
  have h : serveNext s th v below = some p := by rwa [advance, hf] at h
  unfold serveNext at h
  dsimp only at h
  split at h
  · split at h
    · rename_i mode
      cases h
      refine .ends rfl (fun e => ?_) fun e => ?_
      · cases mode.symm.trans e
      · cases e
    · cases h
  · rename_i item queues pop
    split at h
    · rename_i i
      cases h
      obtain ⟨top, frames⟩ := frames_execute
        (s.setDispatcher v.dispatcher { s.dispatcher v.dispatcher with queues }) th v.dispatcher i
        (.serving { v with executed := v.executed + 1 } :: below)
      exact .goesOn frames
    · split at h
      · cases h
        have same : th.frames = [] ++ .serving { v with executed := v.executed } :: below := hf
        exact .goesOn same
      · cases h
        exact .ends rfl (fun _ => rfl) fun _ => traffic_serving hf pop

theorem serves_expire (hf : th.frames = .serving v :: below) (waits : th.deadline?.isSome) :
    Serves s th v below (expire s th) := by
  unfold expire
  split
  · rename_i h
    exact serves_advance hf h
  · rename_i hf'
    cases hf.symm.trans hf'
  · rename_i hf'
    cases hf.symm.trans hf'
    -- Only a loop that runs until some time gives up waiting.
    refine .ends rfl (fun e => ?_) nofun
    rw [deadline?, hf] at waits
    simp [e] at waits
  · rename_i other
    exact absurd hf (other v below)

/-- No reply is for a loop. -/
theorem resume_serving (hf : th.frames = .serving v :: below) (r : Reply) : resume s th r = (s, th) := by
  unfold resume
  rw [hf]

/-- A loop stays where it is while something happens above it. -/
theorem Moves.over_serving {f : Frame} (sound : ∀ f ∈ th.frames, f.Sound) (h : Moves s th s' th')
    (hf : th.frames = f :: (top ++ .serving v :: below)) :
    ∃ top', th'.frames = top' ++ .serving v :: below := by
  rcases h.over sound hf with ⟨new, hn⟩ | ⟨now, th₁, r, left, resumed⟩
  · exact ⟨new, hn⟩
  · rw [resume_serving left] at resumed
    cases resumed
    exact ⟨[], left⟩

end Thread

namespace Machine

variable {m : Machine} {t : Nat} {th : Thread} {base fs : List Frame} {d : DispatcherId} {c : Context}
  {mode : LoopMode} {entry : Entry} {a : Action} {answer : Answer} {exit : LoopExit} {n : Nat}

/-- A loop runs on a thread, above the frames `base`. -/
def Serves (m : Machine) (t : Nat) (base : List Frame) (d : DispatcherId) (c : Context)
    (mode : LoopMode) : Prop :=
  ∃ th top v, m.threads[t]? = some th ∧ th.frames = top ++ .serving v :: base ∧
    v.dispatcher = d ∧ v.loop.context = c ∧ v.mode = mode

/-- A move ends a loop, and its answer is about to be handed to the client code at the top of the
frames `base`. If the loop was asked to quit, the move takes a quit request from its queue. -/
structure Ends (m : Machine) (t : Nat) (base : List Frame) (d : DispatcherId) (c : Context)
    (mode : LoopMode) (stop : Move) (exit : LoopExit) (n : Nat) : Prop where
  answering : (m.move stop).Answering t base (.served exit n)
  untilQuit : mode = .untilQuit → exit = .quit
  asked : exit = .quit → m.traffic stop = [(d, .taken c .quit)]

/-- Only the next step of a loop at the top of a stack, or its end when the time has come, changes its
thread. -/
theorem move_serving {v : Serving} (ht : m.threads[t]? = some th) (hf : th.frames = .serving v :: base)
    (b : Move) :
    (∃ now p, Thread.Serves { m.shared with now } th v base p ∧
      m.move b = ⟨p.1, m.threads.set t p.2⟩ ∧ m.traffic b = th.traffic m.shared) ∨
      (m.move b).threads[t]? = some th := by
  rcases move_outside ht hf (by simp) b with rfl | rfl | same
  · cases next : th.advance m.shared with
    | none =>
      refine .inr ?_
      simp only [move, advance?, ht, next, Option.map_none, Option.getD_none]
    | some p =>
      refine .inl ⟨m.shared.now, p, Thread.serves_advance hf next, ?_, ?_⟩
      · simp only [move, advance?, ht, next, Option.map_some, Option.getD_some]
      · simp only [traffic, ht, Option.map_some, Option.getD_some]
  · cases hd : m.deadline? t with
    | none =>
      refine .inr ?_
      simp only [move, expire, hd, ht]
    | some deadline =>
      have waits : th.deadline?.isSome := by
        rw [deadline?, ht, Option.bind_some] at hd
        rw [hd]
        rfl
      refine .inl ⟨max m.shared.now deadline, _, Thread.serves_expire hf waits, ?_, ?_⟩
      · simp only [move, expire, hd, onThread, ht]
      · simp only [traffic, hd, ht, Option.isSome_some, if_true, Option.map_some, Option.getD_some]
  · exact .inr same

/-- A loop runs on until a move ends it. -/
theorem Serves.move (regular : m.Regular) (h : m.Serves t base d c mode) (b : Move) :
    (m.move b).Serves t base d c mode ∨ ∃ exit n, m.Ends t base d c mode b exit n := by
  obtain ⟨th, top, v, ht, hf, rfl, rfl, rfl⟩ := h
  cases top with
  | cons f top =>
    rcases move_thread ht b with ⟨-, s', th', moves, moved⟩ | same
    · obtain ⟨top', frames⟩ := moves.over_serving (regular.sound_frames ht) hf
      rw [moved]
      exact .inl ⟨th', top', v, getElem?_set_thread ht th', frames, rfl, rfl, rfl⟩
    · exact .inl ⟨th, f :: top, v, same, hf, rfl, rfl, rfl⟩
  | nil =>
    rcases move_serving ht hf b with ⟨now, p, serves, moved, traffic⟩ | same
    · have found : (m.move b).threads[t]? = some p.2 := by
        rw [moved]
        exact getElem?_set_thread ht p.2
      cases serves with
      | @goesOn top n frames => exact .inl ⟨p.2, top, _, found, frames, rfl, rfl, rfl⟩
      | @ends exit held frames untilQuit asked =>
        exact .inr ⟨exit, v.executed, ⟨p.2, [], held, found, frames⟩, untilQuit,
          fun quit => traffic.trans (asked quit)⟩
    · exact .inl ⟨th, [], v, same, hf, rfl, rfl, rfl⟩

/-- A loop that runs goes on as long as the moves last, or one of them ends it. -/
theorem serves_run (regular : m.Regular) (h : m.Serves t base d c mode) (moves : List Move) :
    (m.run moves).Serves t base d c mode ∨ ∃ before stop after exit n,
      moves = before ++ stop :: after ∧ (m.run before).Ends t base d c mode stop exit n := by
  induction moves using List.reverseRecOn with
  | nil => exact .inl h
  | append_singleton moves b ih =>
    rw [run_concat]
    rcases ih with serves | ⟨before, stop, after, exit, n, rfl, ends⟩
    · rcases serves.move (regular.run moves) b with serves | ⟨exit, n, ends⟩
      · exact .inl serves
      · exact .inr ⟨moves, b, [], exit, n, rfl, ends⟩
    · exact .inr ⟨before, stop, after ++ [b], exit, n, List.append_assoc .., ends⟩

theorem Serves.depth (h : m.Serves t base d c mode) : base.length < m.depth t := by
  obtain ⟨th, top, v, ht, hf, -⟩ := h
  rw [depth_eq ht, hf]
  simp
  omega

/-! ## Asking for a loop to run -/

/-- An action runs a loop for a context: one that it makes, or one that client code keeps. -/
inductive RunsLoop (m : Machine) (t : Nat) (d : DispatcherId) (c : Context) (mode : LoopMode) :
    Action → Prop
  | once : RunsLoop m t d c mode (.serve d c mode)
  | kept {th : Thread} {l : LoopId} {o : OwnLoop} (found : m.threads[t]? = some th)
      (mine : th.loop? l = some o) (dispatcher : o.dispatcher = d) (context : o.loop.context = c) :
      RunsLoop m t d c mode (.useLoop l mode)

/-- A loop runs once client code has asked for it, unless its dispatcher is gone. -/
theorem serves_act (ht : m.threads[t]? = some th) (hf : th.frames = .body entry :: fs)
    (permitted : Thread.permits m.shared a) (runs : m.RunsLoop t d c mode a) :
    (m.act t a).Serves t (.body entry :: fs) d c mode ∨
      m.act t a = ⟨m.shared, m.threads.set t { th with answer := none }⟩ := by
  rw [act_eq ht, Thread.act_eq_perform hf permitted]
  cases runs with
  | once => exact .inl ⟨_, [], _, getElem?_set_thread ht _, congrArg (_ :: ·) hf, rfl, rfl, rfl⟩
  | @kept th' l o found mine dispatcher context =>
    cases ht.symm.trans found
    have mine' : ({ th with answer := none } : Thread).loop? l = some o := mine
    unfold Thread.perform
    simp only [Thread.useLoop, mine']
    split
    · exact .inr rfl
    · exact .inl ⟨_, [], _, getElem?_set_thread ht _, congrArg (_ :: ·) hf, dispatcher, context, rfl⟩

/-- The answer of a loop is the one with which client code goes on. -/
theorem Ends.answer_eq {before after : List Move} {stop : Move} (regular : m.Regular)
    (ends : (m.run before).Ends t (.body entry :: fs) d c mode stop exit n)
    (above : m.Above t (fs.length + 1) (before ++ stop :: after))
    (returns : (m.run (before ++ stop :: after)).depth t ≤ fs.length + 1)
    (answered : (m.run (before ++ stop :: after)).threads[t]?.bind (·.answer) = some answer) :
    answer = .served exit n := by
  have split : before ++ stop :: after = (before ++ [stop]) ++ after := by simp
  have moved : m.run (before ++ [stop]) = (m.run before).move stop := run_concat m before stop
  rw [split] at above
  rw [split, run_append, moved] at returns answered
  obtain ⟨-, answering | told⟩ := answering_run ((regular.run before).move stop) ends.answering after
    (moved ▸ above.drop)
  · exact absurd returns (Nat.not_le.2 answering.depth)
  · exact told.answer_eq answered

/-- A loop that client code ran has ended by one step, with the answer that client code has. -/
theorem ends_of_completes (regular : m.Regular) {during : List Move}
    (h : m.Completes t a during answer) (runs : m.RunsLoop t d c mode a) :
    ∃ th before stop after exit n, m.threads[t]? = some th ∧ during = before ++ stop :: after ∧
      answer = .served exit n ∧
      ((m.act t a).run before).Ends t th.frames d c mode stop exit n := by
  obtain ⟨th, entry, fs, ht, hf, permitted⟩ := h.asks
  have height := depth_of_frames ht hf
  rcases serves_act ht hf permitted runs with serves | refused
  · rcases serves_run (regular.act t a) serves during with
      serves | ⟨before, stop, after, exit, n, rfl, ends⟩
    · exact absurd h.returns (Nat.not_le.2 (height ▸ serves.depth))
    · have told := ends.answer_eq (regular.act t a) (height ▸ h.above) (height ▸ h.returns) h.answered
      exact ⟨th, before, stop, after, exit, n, ht, rfl, told, hf ▸ ends⟩
  · -- Without a loop client code would go on at once, and without an answer.
    have found : (m.act t a).threads[t]? = some { th with answer := none } := by
      rw [refused]
      exact getElem?_set_thread ht _
    cases during with
    | nil =>
      have answered := h.answered
      rw [run, List.foldl_nil, found] at answered
      cases answered
    | cons first later =>
      have higher : m.depth t < (m.act t a).depth t := h.above [] List.nil_prefix (by simp)
      rw [depth_eq ht, depth_eq found] at higher
      exact absurd higher (Nat.lt_irrefl _)

end Machine
end Reflection

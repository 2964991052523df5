import Reflection.Proofs.Machine.Accounts
import Reflection.Proofs.Machine.Invocations
/-!
# Client code begins on top of what runs

The client code that runs on a thread forms a stack of its own. A move leaves some of the outer code,
or begins further code on top of all that runs (`code_cases`). A method that begins was called before
(`Calls`): until then the thread does nothing else, and it was called because a call was due whose
receiver was there (`calls_cases`, `Entry.Called`).
-/

namespace Reflection

/-! ## Threads -/

namespace Thread

variable {s s' : Shared} {th th' : Thread} {entry : Entry} {fs rest : List Frame}

/-- How far a thread has come with code that it has called above the frames `below`: the code is still to
begin, runs, or has ended as it says. -/
inductive Performs (th : Thread) (entry : Entry) (below : List Frame) : Option Yield → Prop
  | called {held : List Held} (frames : th.frames = .starting entry :: .calling held :: below) :
      Performs th entry below none
  | runs {top : List Frame} {held : List Held}
      (frames : th.frames = top ++ .body entry :: .calling held :: below) : Performs th entry below none
  | ended {top : List Frame} {held : List Held} {y : Yield}
      (frames : th.frames = top ++ .releasing held (.called y.result) :: below) :
      Performs th entry below (some y)

theorem Performs.mem {below : List Frame} {said : Option Yield} (h : th.Performs entry below said)
    {f : Frame} (hf : f ∈ below) : f ∈ th.frames := by
  cases h with
  | called frames | runs frames | ended frames =>
    rw [frames]
    simp [hf]

/-- Nothing stands above client code that is called. -/
def CallsOnTop (th : Thread) : Prop :=
  ∀ entry, .starting entry ∉ th.frames.tail

theorem Grows.mem_of_starting (h : Grows s th fs) (hf : .starting entry ∈ fs) :
    .starting entry ∈ th.frames := by
  induction h with
  | kept suffix => exact suffix.subset hf
  | cons arises _ ih =>
    rcases List.mem_cons.1 hf with rfl | below
    · cases arises with
      | plain plain => exact plain.elim
    · exact ih below

/-- Client code that is called begins in the next step of its thread. -/
theorem Moves.of_starting (h : Moves s th s' th') (hf : th.frames = .starting entry :: rest) :
    th' = th ∨ th' = th.withFrames (.body entry :: rest) := by
  cases h with
  | act a =>
    rw [act_of_outside hf nofun]
    exact .inl rfl
  | finish y =>
    rw [finish_of_outside hf nofun]
    exact .inl rfl
  | advance h =>
    unfold Thread.advance at h
    rw [hf] at h
    cases h
    exact .inr rfl
  | expire now waits =>
    rw [deadline?, hf] at waits
    cases waits

theorem CallsOnTop.top (h : th.CallsOnTop) (hf : .starting entry ∈ th.frames) :
    ∃ rest, th.frames = .starting entry :: rest := by
  cases frames : th.frames with
  | nil =>
    rw [frames] at hf
    cases hf
  | cons f rest =>
    rw [frames] at hf
    rcases List.mem_cons.1 hf with rfl | below
    · exact ⟨rest, rfl⟩
    · have under := h entry
      rw [frames] at under
      exact absurd below under

theorem CallsOnTop.moves (h : th.CallsOnTop) (moves : Moves s th s' th') : th'.CallsOnTop := by
  intro e below
  by_cases called : ∃ entry rest, th.frames = .starting entry :: rest
  · obtain ⟨entry, rest, hf⟩ := called
    rcases moves.of_starting hf with rfl | rfl
    · exact h e below
    · have under := h e
      rw [hf] at under
      exact under below
  · have none : ∀ entry, .starting entry ∉ th.frames := fun entry hf => called ⟨entry, h.top hf⟩
    obtain ⟨now, outcome⟩ := moves.outcome
    cases outcome with
    | reaches reaches => exact none e (reaches.frames.mem_of_starting (List.mem_of_mem_tail below))
    | calls _ frames _ grows | begins _ frames _ grows =>
      rw [frames] at below
      exact none e (grows.mem_of_starting below)
    | closes _ _ grows => exact none e (grows.mem_of_starting (List.mem_of_mem_tail below))

end Thread

namespace Machine

variable {m : Machine} {t : Nat} {th : Thread}

/-! ## Moves -/

/-- A move does nothing, starts a thread, takes hash maps in another order or comes to something on one
thread. -/
theorem outcome_move (m : Machine) (a : Move) :
    m.move a = m ∨ m.move a = m.spawn ∨ (∃ order, m.move a = m.reorder order) ∨
      ∃ t th s th' now, m.threads[t]? = some th ∧ m.move a = ⟨s, m.threads.set t th'⟩ ∧
        Thread.Outcome { m.shared with now } th (s, th') := by
  rcases m.move_cases a with e | e | e | ⟨t, -, step⟩
  · exact .inl e
  · exact .inr (.inl e)
  · exact .inr (.inr (.inl e))
  · refine .inr (.inr (.inr ?_))
    generalize m.move a = m' at step
    cases step with
    | @intro th th' s found moves =>
      obtain ⟨now, outcome⟩ := moves.outcome
      exact ⟨t, th, s, th', now, found, rfl, outcome⟩

/-- Objects keep their classes and registrations, and ids do not come to stand for anything else. -/
theorem later_move (m : Machine) (a : Move) : m.shared.Later (m.move a).shared := by
  rcases m.outcome_move a with e | e | ⟨order, e⟩ | ⟨t, th, s, th', now, -, e, outcome⟩
  · rw [e]
    exact (Shared.Ages.refl _).later
  · rw [e]
    exact (Shared.Ages.refl m.shared).later
  · rw [e]
    exact (Shared.ages_reorder order).later
  · rw [e]
    have later := outcome.later
    exact ⟨later.registry, later.classOf, later.binding, later.dispatcher⟩

/-- Code that was called begins, ends, and then hands what it has said to the frame that called it. -/
theorem performs_move (regular : m.Regular) (ht : m.threads[t]? = some th) {entry : Entry}
    {below : List Frame} {said : Option Yield} (h : th.Performs entry below said) (a : Move) :
    (∃ th', (m.move a).threads[t]? = some th' ∧ th'.Performs entry below said) ∨
    (∃ y held th', a = .finish t y ∧ th.frames = .body entry :: .calling held :: below ∧
      (m.move a).threads[t]? = some th' ∧ th'.Performs entry below (some y)) ∨
    ∃ y s' th' now, said = some y ∧ m.move a = ⟨s', m.threads.set t th'⟩ ∧
      (s', th') = Thread.resume { m.shared with now } (th.withFrames below) (.called y.result) := by
  have sound := regular.sound_frames ht
  cases h with
  | @called held frames =>
    rcases move_thread ht a with ⟨-, s', th', step, moved⟩ | same
    · have ht' : (m.move a).threads[t]? = some th' := by
        rw [moved]
        exact getElem?_set_thread ht th'
      rcases step.of_starting frames with rfl | rfl
      · exact .inl ⟨_, ht', .called frames⟩
      · have runs : (th.withFrames (.body entry :: .calling held :: below)).frames =
            [] ++ .body entry :: .calling held :: below := rfl
        exact .inl ⟨_, ht', .runs runs⟩
    · exact .inl ⟨th, same, .called frames⟩
  | @runs top held frames =>
    rcases move_body sound ht frames a with ⟨th', top', ht', frames'⟩ | ⟨rfl, y, rfl⟩
    · exact .inl ⟨th', ht', .runs frames'⟩
    · let th' : Thread :=
        { th with frames := .releasing held (.called y.result) :: below, answer := none }
      have ht' : (m.move (.finish t y)).threads[t]? = some th' := by
        rw [move, finish, onThread_of_some ht, Thread.finish, frames]
        exact getElem?_set_thread ht th'
      have frames' : th'.frames = [] ++ .releasing held (.called y.result) :: below := rfl
      exact .inr (.inl ⟨y, held, th', rfl, frames, ht', .ended frames'⟩)
  | @ended top held y frames =>
    rcases move_thread ht a with ⟨-, s', th', step, moved⟩ | same
    · have ht' : (m.move a).threads[t]? = some th' := by
        rw [moved]
        exact getElem?_set_thread ht th'
      rcases step.above sound (g := .releasing held (.called y.result)) trivial frames with
        ⟨top', g', frames', becomes⟩ | ⟨-, now, r, pop, resumed⟩
      · cases becomes with
        | same | released => exact .inl ⟨th', ht', .ended frames'⟩
      · cases pop with
        | released => exact .inr (.inr ⟨y, s', th', now, rfl, moved, resumed⟩)
    · exact .inl ⟨th, same, .ended frames⟩

/-! ## Code -/

/-- The client code that runs on a thread, the innermost first. -/
def code (m : Machine) (t : Nat) : List Entry :=
  (m.threads[t]?.map fun th => th.frames.flatMap (·.code)).getD []

/-- A move begins client code, which then runs on top of what ran before. -/
def Starts (m : Machine) (a : Move) (t : Nat) (entry : Entry) : Prop :=
  (m.move a).code t = entry :: m.code t

/-- Client code was called on a thread and has not begun. -/
def Calls (m : Machine) (t : Nat) (entry : Entry) : Prop :=
  ∃ th rest, m.threads[t]? = some th ∧ th.frames = .starting entry :: rest

theorem Calls.lt {entry : Entry} (h : m.Calls t entry) : t < m.threads.length := by
  obtain ⟨_, _, ht, -⟩ := h
  exact (List.getElem?_eq_some_iff.1 ht).1

theorem code_eq (ht : m.threads[t]? = some th) : m.code t = th.frames.flatMap (·.code) := by
  rw [code, ht]
  rfl

theorem code_of_none (ht : m.threads[t]? = none) : m.code t = [] := by
  rw [code, ht]
  rfl

/-- What is called begins with the next step of its thread. -/
theorem Calls.starts {entry : Entry} (h : m.Calls t entry) : m.Starts (.advance t) t entry := by
  obtain ⟨th, rest, ht, hf⟩ := h
  have advances : th.advance m.shared = some (m.shared, th.withFrames (.body entry :: rest)) := by
    unfold Thread.advance
    rw [hf]
  have after : (m.move (.advance t)).threads[t]? = some (th.withFrames (.body entry :: rest)) := by
    simp only [move, advance?, ht, advances, Option.map_some, Option.getD_some]
    exact getElem?_set_thread ht _
  rw [Starts, code_eq ht, code_eq after, hf]
  rfl

/-- A move leaves outer client code, or begins some on top of what runs, which was called or is no method. -/
theorem code_cases (m : Machine) (a : Move) (t : Nat) :
    (m.move a).code t <:+ m.code t ∨
      ∃ entry, m.Starts a t entry ∧
        (m.Calls t entry ∨ ∀ i method args, entry ≠ .method i method args) := by
  rcases m.outcome_move a with e | e | ⟨order, e⟩ | ⟨t', th, s, th', now, ht, e, outcome⟩
  · refine .inl ?_
    rw [e]
  · -- Only the number of the new thread has code that it had not.
    have new : m.spawn.threads[t]? = if t = m.threads.length then some { current := .own t }
        else m.threads[t]? := by
      show (m.threads ++ _)[t]? = _
      split
      · rename_i last
        rw [last, List.getElem?_concat_length]
      · rename_i other
        rcases Nat.lt_or_gt_of_ne other with lt | gt
        · exact List.getElem?_append_left lt
        · rw [List.getElem?_eq_none (Nat.le_of_lt gt), List.getElem?_eq_none]
          simp
          omega
    by_cases last : t = m.threads.length
    · refine .inr ⟨.program, ?_, .inr fun _ _ _ same => by cases same⟩
      rw [if_pos last] at new
      rw [Starts, e, code_eq new, code_of_none (List.getElem?_eq_none (Nat.le_of_eq last.symm))]
      rfl
    · rw [if_neg last] at new
      refine .inl ?_
      rw [e, code, new, ← code]
  · refine .inl ?_
    rw [e]
    exact List.suffix_refl _
  · by_cases same : t' = t
    · subst same
      have ht' : (m.move a).threads[t']? = some th' := by
        rw [e]
        exact List.getElem?_set_self (List.getElem?_eq_some_iff.1 ht).1
      have before := code_eq ht
      have after := code_eq ht'
      cases outcome with
      | reaches reaches =>
        rw [before, after]
        exact .inl reaches.frames.code
      | calls _ frames _ below =>
        rw [before, after, frames]
        exact .inl below.code
      | @begins entry fs _ frames begins below whole =>
        refine .inr ⟨entry, ?_, ?_⟩
        · rw [Starts, before, after, frames, List.flatMap_cons, whole]
          rfl
        · cases begins with
          | called top => exact .inl ⟨th, _, ht, top⟩
          | other other => exact .inr other
      | closes _ _ frames =>
        rw [before, after]
        exact .inl frames.code
    · refine .inl ?_
      have ht' : (m.move a).threads[t]? = m.threads[t]? := by
        rw [e]
        exact List.getElem?_set_ne same
      rw [code, ht', ← code]

/-! ## Calls -/

theorem callsOnTop_move (h : ∀ th ∈ m.threads, th.CallsOnTop) (a : Move) :
    ∀ th ∈ (m.move a).threads, th.CallsOnTop := by
  rcases m.move_cases a with e | e | ⟨order, e⟩ | ⟨t, -, step⟩
  · rw [e]
    exact h
  · rw [e]
    intro th hth
    rcases List.mem_append.1 hth with old | new
    · exact h th old
    · cases List.mem_singleton.1 new
      exact fun _ => List.not_mem_nil
  · rw [e]
    exact h
  · generalize m.move a = m' at step
    cases step with
    | @intro th th' s found moves =>
      intro th₁ h₁
      rcases List.mem_or_eq_of_mem_set h₁ with old | rfl
      · exact h th₁ old
      · exact (h th (List.mem_of_getElem? found)).moves moves

theorem callsOnTop_run (h : ∀ th ∈ m.threads, th.CallsOnTop) (moves : List Move) :
    ∀ th ∈ (m.run moves).threads, th.CallsOnTop := by
  induction moves using List.reverseRecOn with
  | nil => exact h
  | append_singleton moves a ih =>
    rw [run_concat]
    exact callsOnTop_move ih a

theorem callsOnTop_start (r : Registry) : ∀ th ∈ (start r).threads, th.CallsOnTop :=
  List.forall_mem_nil _

/-- What is called after a move was called before or is called by it. -/
theorem calls_cases (tops : ∀ th ∈ m.threads, th.CallsOnTop) (a : Move) {entry : Entry}
    (calls : (m.move a).Calls t entry) :
    m.Calls t entry ∨
      ∃ th now, m.threads[t]? = some th ∧ entry.Called { m.shared with now } th := by
  obtain ⟨th₁, rest, ht₁, top⟩ := calls
  rcases m.outcome_move a with e | e | ⟨order, e⟩ | ⟨t', th, s, th', now, ht, e, outcome⟩
  · rw [e] at ht₁
    exact .inl ⟨th₁, rest, ht₁, top⟩
  · rw [e] at ht₁
    by_cases old : t < m.threads.length
    · rw [spawn, List.getElem?_append_left old] at ht₁
      exact .inl ⟨th₁, rest, ht₁, top⟩
    · rw [spawn, List.getElem?_append_right (Nat.le_of_not_lt old)] at ht₁
      rw [List.mem_singleton.1 (List.mem_of_getElem? ht₁)] at top
      cases top
  · rw [e] at ht₁
    exact .inl ⟨th₁, rest, ht₁, top⟩
  · rw [e] at ht₁
    by_cases same : t' = t
    · subst same
      obtain rfl : th' = th₁ := by
        rw [getElem?_set_thread ht] at ht₁
        exact Option.some.inj ht₁
      have before : .starting entry ∈ th.frames → m.Calls t' entry := fun hf => by
        obtain ⟨rest', hf'⟩ := (tops th (List.mem_of_getElem? ht)).top hf
        exact ⟨th, rest', ht, hf'⟩
      have here : .starting entry ∈ th'.frames := top ▸ List.mem_cons_self
      cases outcome with
      | reaches reaches => exact .inl (before (reaches.frames.mem_of_starting here))
      | calls _ frames called =>
        rw [top] at frames
        cases frames
        exact .inr ⟨th, now, ht, called⟩
      | begins _ frames =>
        rw [top] at frames
        cases frames
      | closes _ _ frames => exact .inl (before (frames.mem_of_starting here))
    · rw [List.getElem?_set_ne same] at ht₁
      exact .inl ⟨th₁, rest, ht₁, top⟩

/-- A thread stands as it is until what it has called begins. -/
theorem stands_or_begins {entry : Entry} {rest : List Frame} (ht : m.threads[t]? = some th)
    (hf : th.frames = .starting entry :: rest) (later : List Move) :
    (m.run later).threads[t]? = some th ∨
      ∃ before, before <+: later ∧
        (m.run before).threads[t]? = some (th.withFrames (.body entry :: rest)) := by
  induction later using List.reverseRecOn with
  | nil => exact .inl ht
  | append_singleton moves a ih =>
    rcases ih with stands | ⟨before, sub, begun⟩
    · rw [run_concat]
      rcases move_thread stands a with ⟨-, s', th', step, moved⟩ | same
      · have after : ((m.run moves).move a).threads[t]? = some th' := by
          rw [moved]
          exact getElem?_set_thread stands th'
        rcases step.of_starting hf with rfl | rfl
        · exact .inl after
        · exact .inr ⟨moves ++ [a], List.prefix_rfl, (run_concat m moves a).symm ▸ after⟩
      · exact .inl same
    · exact .inr ⟨before, sub.trans (List.prefix_append _ _), begun⟩

end Machine
end Reflection

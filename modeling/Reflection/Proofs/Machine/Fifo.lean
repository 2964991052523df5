import Reflection.Proofs.Machine.Serving
/-!
# Queues are first in, first out

What loops take from the queue of a context is what was posted to it, in the same order, each item once
(`queues_are_fifo`). This holds whatever loops and quit handles there are for the context and whenever
they are made, used and dropped, in slots too: a context keeps its queue as long as someone holds it.
-/

namespace Reflection
namespace Machine

/-- After any run of any client code, for each context of each dispatcher:

* the items that were taken from its queue are the first of those that were posted to it, in the order
  in which they were posted, each with the target and the arguments that it was posted with;
* as long as the dispatcher is not gone, all others wait, and quit requests are counted like calls;
* a dispatcher is not gone as long as there is a loop for it, and the queue that a loop or a quit handle
  holds is the one that the context has;
* a loop that client code runs ends by one move. If client code is told that it was asked to quit, as it
  always is by a loop that runs until then, this move took a quit request, and nothing that was posted
  after this request was taken until then. -/
theorem queues_are_fifo (r : Registry) (moves : List Move) (d : DispatcherId) (c : Context) :
    let m := (start r).run moves
    let x := m.shared.dispatcher d
    let posted (moves : List Move) := (start r).posted moves d c
    let taken (moves : List Move) := (start r).taken moves d c
    taken moves <+: posted moves ∧
    (m.shared.isOpen d →
      posted moves = taken moves ++ x.queues.waiting c ∧
      x.pending c + (taken moves).length = (posted moves).length) ∧
    (∀ q, (d, c, q) ∈ m.loops → m.shared.isOpen d) ∧
    (m.shared.isOpen d → ∀ q, (d, c, q) ∈ m.stakes → x.queues.of? c = some q) ∧
    ∀ (t : Nat) (a : Action) (mode : LoopMode) (during : List Move) (answer : Answer),
      m.RunsLoop t d c mode a → m.Completes t a during answer →
      ∃ (th : Thread) (before : List Move) (stop : Move) (after : List Move) (exit : LoopExit) (n : Nat),
        m.threads[t]? = some th ∧ during = before ++ stop :: after ∧ answer = .served exit n ∧
        ((m.act t a).run before).Ends t th.frames d c mode stop exit n ∧
        (exit = .quit →
          let whole := moves ++ .act t a :: (before ++ [stop])
          ∃ earlier later : List (QueueItem Invocation),
            posted whole = earlier ++ .quit :: later ∧ taken whole = earlier ++ [.quit]) := by
  intro m x posted taken
  have regular : m.Regular := regular_run r moves
  have follows := follows_run r moves
  have run : m.shared.isOpen d →
      Queues.Run (.empty, 0) (((start r).history moves).filterMap (ofDispatcher d)) (m.world d) := by
    intro opened
    rcases follows.runs d with run | ⟨closed, -⟩
    · exact run
    · exact absurd (closed.2 ▸ Shared.isOpen_iff.1 opened) (Nat.lt_irrefl 0)
  refine ⟨follows.fifo d c, fun opened => ?_, fun q mine => ?_, fun opened q mine => ?_, ?_⟩
  · have split : posted moves = taken moves ++ x.queues.waiting c :=
      (run opened).waiting Queues.held_empty c
    refine ⟨split, ?_⟩
    rw [split, List.length_append, Nat.add_comm]
    rfl
  · exact Shared.isOpen_iff.2 (follows.opened regular mine)
  · exact ((run opened).held Queues.held_empty).own c q (mem_holders mine)
  · intro t a mode during answer runs completes
    obtain ⟨th, before, stop, after, exit, n, ht, split, told, ends⟩ :=
      ends_of_completes regular completes runs
    refine ⟨th, before, stop, after, exit, n, ht, split, told, ends, fun quit => ?_⟩
    let past := moves ++ .act t a :: before
    have whole : moves ++ .act t a :: (before ++ [stop]) = past ++ [stop] := by simp [past]
    have there : (start r).run past = (m.act t a).run before := by
      rw [run_append]
      rfl
    -- The last move takes the quit request, and what was taken is what was posted first.
    have last : taken (past ++ [stop]) = taken past ++ [QueueItem.quit] := by
      show (start r).taken _ d c = _
      rw [taken_concat, there, ends.asked quit]
      simp only [List.filterMap_cons, ofDispatcher_self, List.filterMap_nil,
        QueueEvent.takenFrom_taken, if_pos]
      rfl
    obtain ⟨later, rest⟩ := (follows_run r (past ++ [stop])).fifo d c
    have rest : taken (past ++ [stop]) ++ later = posted (past ++ [stop]) := rest
    rw [whole]
    refine ⟨taken past, later, ?_, last⟩
    rw [← rest, last, List.append_assoc]
    rfl

/-! ### A run -/

/-- A bell rings, and the call of its slot waits. -/
def knell : List Move :=
  .act 0 (.emitByIndex 0 ⟨0, 1⟩ 0 []) :: List.replicate 4 (.advance 0)

/-- Four calls of the slot of a bell wait, with a quit request before the third and the fourth. The loop
that the queue was made for is gone, and a quit handle is left. -/
def peal : List Move :=
  List.flatten
    [hang.take 4,
      [.act 0 (.connectByIndex 0 ⟨0, 1⟩ 0 ⟨0, 1⟩ 1 .queued), .act 0 (.newLoop 0 (.own 0)),
        .act 0 (.newQuitHandle 0)],
      knell, knell, [.act 0 (.quitBy 0)], knell, [.act 0 (.quitBy 0)], knell,
      [.act 0 (.dropLoop 0), .advance 0, .advance 0]]

/-- Runs a loop until it is asked to quit. -/
def untilQuit : Action := .serve 0 (.own 0) .untilQuit

/-- A loop runs, and the first slot that it calls runs another one. The slots end, and both loops. -/
def nested : List Move :=
  List.flatten
    [[.advance 0, .advance 0, .act 0 untilQuit, .advance 0, .advance 0, .finish 0 (.returned none)],
      List.replicate 6 (.advance 0), [.finish 0 (.returned none)],
      List.replicate 5 (.advance 0), [.finish 0 (.returned none)],
      List.replicate 6 (.advance 0)]

/-- Does an answer say that a loop executed so many calls and was asked to quit? -/
def saysQuit (n : Nat) : Answer → Bool
  | .served .quit n' => n' == n
  | _ => false

theorem eq_of_saysQuit {n : Nat} {x : Option Answer} (h : x.any (saysQuit n)) :
    x = some (.served .quit n) := by
  obtain ⟨answer, rfl, same⟩ := (Option.any_eq_true _ _).1 h
  cases answer with
  | served ending n' =>
    cases ending with
    | quit => rw [eq_of_beq same]
    | _ => cases same
  | _ => cases same

/-- The first of the two loops calls the slot twice and ends by the second quit request. The call that
was posted after it is left. -/
theorem peal_is_heard_up_to_quit :
    let m := (start bells).run peal
    let m' := (m.act 0 untilQuit).run nested
    m.Completes 0 untilQuit nested (.served .quit 2) ∧ (m'.shared.dispatcher 0).pending (.own 0) = 1 ∧
      ∃ (before : List Move) (stop : Move) (after : List Move), nested = before ++ stop :: after ∧
        let whole := peal ++ .act 0 untilQuit :: (before ++ [stop])
        ∃ earlier later : List (QueueItem Invocation), (start bells).posted whole 0 (.own 0) = earlier ++ .quit :: later ∧
          (start bells).taken whole 0 (.own 0) = earlier ++ [.quit] := by
  intro m m'
  have completes : m.Completes 0 untilQuit nested (.served .quit 2) := by
    refine ⟨⟨asks_of_canAsk (by decide +kernel), above_of_take ?_⟩, ?_, ?_⟩
    · decide +kernel
    · decide +kernel
    · exact eq_of_saysQuit (by decide +kernel)
  obtain ⟨-, -, -, -, ended⟩ := queues_are_fifo bells peal 0 (.own 0)
  obtain ⟨th, before, stop, after, exit, n, -, split, answer, -, first⟩ :=
    ended 0 untilQuit .untilQuit nested _ .once completes
  cases answer
  exact ⟨completes, by decide +kernel, before, stop, after, split, first rfl⟩

end Machine
end Reflection

import Reflection.Proofs.Machine.Accounts
import Reflection.Proofs.Machine.Traffic
/-!
# Queues lose nothing

`Machine.history` is what a run posts and takes, move by move. The queues of a dispatcher follow it
until the dispatcher is closed (`Follows`): whatever loops and quit handles come and go, and in which
order, what waits for a context is what was posted and not yet taken.
-/

namespace Reflection
namespace Machine

variable {m m' : Machine} {t : Nat} {th : Thread} {es : List Event} {d : DispatcherId}

/-- The loops that run or that client code keeps. -/
def loops (m : Machine) : List Stake :=
  m.threads.flatMap fun th => th.running ++ th.kept

/-- All who hold queues. -/
def stakes (m : Machine) : Multiset Stake :=
  m.loops + m.shared.quitters

/-- The queues of a dispatcher and those who hold them. -/
def world (m : Machine) (d : DispatcherId) : Queues.World Invocation :=
  Reflection.world m.shared m.stakes d

/-- The number of loops of a dispatcher that client code keeps. -/
def keeps (m : Machine) (d : DispatcherId) : Nat :=
  ((m.threads.flatMap (·.kept)).filterMap (ofDispatcher d)).length

/-- What a move posts and takes. -/
def traffic (m : Machine) : Move → List Event
  | .spawn | .reorder _ | .finish _ _ => []
  | .act t a => (m.threads[t]?.map (·.acted m.shared a)).getD []
  | .advance t => (m.threads[t]?.map (·.traffic m.shared)).getD []
  | .expire t =>
    if (m.deadline? t).isSome then (m.threads[t]?.map (·.traffic m.shared)).getD [] else []

/-- What a run posts and takes. -/
def history (m : Machine) : List Move → List Event
  | [] => []
  | a :: moves => m.traffic a ++ (m.move a).history moves

theorem history_append (m : Machine) (moves later : List Move) :
    m.history (moves ++ later) = m.history moves ++ (m.run moves).history later := by
  induction moves generalizing m with
  | nil => rfl
  | cons a moves ih =>
    show m.traffic a ++ (m.move a).history (moves ++ later) = _
    rw [ih, ← List.append_assoc]
    rfl

theorem history_concat (m : Machine) (moves : List Move) (a : Move) :
    m.history (moves ++ [a]) = m.history moves ++ (m.run moves).traffic a := by
  rw [history_append]
  exact congrArg _ (List.append_nil _)

/-! ## Moves -/

/-- Queues and those who hold them change as is told, but for a dispatcher that is closed, and client
code has the handles of its loops. -/
structure Settles (m : Machine) (es : List Event) (m' : Machine) : Prop where
  runs : ∀ d, Queues.Run (m.world d) (es.filterMap (ofDispatcher d)) (m'.world d) ∨
    m'.shared.Closed d ∧ es.filterMap (ofDispatcher d) = []
  lent : ∀ d, m.shared.Lent d (m.keeps d) → m'.shared.Lent d (m'.keeps d)

theorem Settles.refl (m : Machine) : m.Settles [] m :=
  ⟨fun _ => .inl (.refl _), fun _ h => h⟩

/-- The stakes of one thread and of all others. -/
theorem stakes_set (ht : m.threads[t]? = some th) :
    ∃ others, m.stakes = Thread.stakes m.shared th + others ∧
      ∀ s th', (⟨s, m.threads.set t th'⟩ : Machine).stakes = Thread.stakes s th' + others := by
  obtain ⟨others, before, after⟩ := flatMap_set ht fun th => th.running ++ th.kept
  refine ⟨others, ?_, fun s th' => ?_⟩
  · rw [stakes, loops, before, Thread.stakes, Multiset.coe_add, add_right_comm]
  · rw [stakes, loops, after th', Thread.stakes, Multiset.coe_add, add_right_comm]

theorem keeps_set (ht : m.threads[t]? = some th) (d : DispatcherId) :
    ∃ n, m.keeps d = th.keeps d + n ∧
      ∀ s th', (⟨s, m.threads.set t th'⟩ : Machine).keeps d = th'.keeps d + n := by
  obtain ⟨others, before, after⟩ := flatMap_set ht fun th => th.kept.filterMap (ofDispatcher d)
  have count : ∀ m : Machine, m.keeps d = Multiset.card
      ((m.threads.flatMap fun th => th.kept.filterMap (ofDispatcher d) : List Holder) :
        Multiset Holder) := by
    intro m
    rw [keeps, List.filterMap_flatMap, Multiset.coe_card]
  refine ⟨others.card, ?_, fun s th' => ?_⟩
  · rw [count, before, Multiset.card_add]
    rfl
  · rw [count, after th', Multiset.card_add]
    rfl

/-- What one thread settles is settled. -/
theorem settles_of_thread (ht : m.threads[t]? = some th) {p : Shared × Thread}
    (h : Thread.Settles m.shared th es p) : m.Settles es ⟨p.1, m.threads.set t p.2⟩ := by
  obtain ⟨others, before, after⟩ := stakes_set ht
  have lends : (∀ d n, m.shared.Lent d (th.keeps d + n) → p.1.Lent d (p.2.keeps d + n)) →
      ∀ d, m.shared.Lent d (m.keeps d) →
        p.1.Lent d ((⟨p.1, m.threads.set t p.2⟩ : Machine).keeps d) := by
    intro lends d lent
    obtain ⟨n, keeps, keeps'⟩ := keeps_set ht d
    rw [keeps']
    exact lends d n (keeps ▸ lent)
  cases h with
  | deals h =>
    refine ⟨fun d => .inl ?_, lends h.lends⟩
    rw [world, world, before, after]
    exact h.trades others d
  | @closes d th' silent last idle closed =>
    subst closed
    refine ⟨fun d' => ?_, lends fun d' n lent => ?_⟩
    · by_cases e : d' = d
      · subst e
        exact .inr ⟨Shared.closed_close last _, by rw [silent]; rfl⟩
      · refine .inl ?_
        have trades := idle.deals.trades others d'
        rw [world, world, before, after, silent]
        rw [Reflection.world, Reflection.world] at trades ⊢
        rw [Shared.dispatcher_setDispatcher_of_ne e]
        exact trades
    · have gone := idle.deals.lends d' n lent
      exact ⟨(Shared.lent_setDispatcher _ d').trans gone.lent,
        gone.owned.trans_eq (Shared.owned_setDispatcher _).symm⟩

theorem settles_spawn (m : Machine) : m.Settles [] m.spawn := by
  have stakes : m.spawn.stakes = m.stakes := by
    rw [Machine.stakes, Machine.stakes]
    simp [loops, spawn, Thread.running, Thread.kept, Frame.stakes]
  have keeps : ∀ d, m.spawn.keeps d = m.keeps d := by
    intro d
    simp [Machine.keeps, spawn, Thread.kept]
  refine ⟨fun d => .inl ?_, fun d lent => ?_⟩
  · rw [world, world, stakes]
    exact .refl _
  · rw [keeps]
    exact lent

theorem settles_move (known : ∀ (t : Nat) (th : Thread), m.threads[t]? = some th → th.Known m.shared) (a : Move) :
    m.Settles (m.traffic a) (m.move a) := by
  cases a with
  | spawn => exact m.settles_spawn
  | reorder => exact ⟨fun _ => .inl (.refl _), fun _ lent => ⟨lent.lent, lent.owned⟩⟩
  | act t a =>
    cases ht : m.threads[t]? with
    | none =>
      simp only [traffic, ht, move, act, onThread_of_none ht]
      exact .refl m
    | some th =>
      simp only [traffic, ht, move, act, onThread, Option.map_some, Option.getD_some]
      exact settles_of_thread ht (.deals (Thread.deals_act (known t th ht) a))
  | finish t y =>
    cases ht : m.threads[t]? with
    | none =>
      simp only [traffic, move, finish, onThread_of_none ht]
      exact .refl m
    | some th =>
      simp only [traffic, ht, move, finish, onThread]
      exact settles_of_thread ht (.deals (Thread.idle_finish m.shared th y).deals)
  | advance t =>
    cases ht : m.threads[t]? with
    | none =>
      simp only [traffic, ht, move, advance?]
      exact .refl m
    | some th =>
      simp only [traffic, ht, move, advance?, Option.map_some, Option.getD_some]
      cases h : th.advance m.shared with
      | none =>
        rw [Thread.traffic_of_stuck h]
        exact .refl m
      | some p => exact settles_of_thread ht (Thread.settles_advance (known t th ht) h)
  | expire t =>
    simp only [traffic, move, expire]
    cases hd : m.deadline? t with
    | none => exact .refl m
    | some deadline =>
      cases ht : m.threads[t]? with
      | none =>
        rw [deadline?, ht] at hd
        cases hd
      | some th =>
        let m' : Machine := { m with shared := { m.shared with now := max m.shared.now deadline } }
        have known' : th.Known m'.shared := ⟨(known t th ht).emitting, (known t th ht).holders⟩
        have settles := settles_of_thread (m := m') ht (Thread.settles_expire known')
        simp only [onThread, ht]
        exact ⟨settles.runs, fun d lent => settles.lent d ⟨lent.lent, lent.owned⟩⟩

/-- Nothing is taken from the queues of a dispatcher that is closed. -/
theorem not_taken_of_closed (regular : m.Regular) (closed : m.shared.Closed d) {c : Context}
    {item : QueueItem Invocation} (a : Move) : (d, .taken c item) ∉ m.traffic a := by
  have idle : ∀ (t : Nat) (th : Thread), m.threads[t]? = some th →
      (d, .taken c item) ∉ th.traffic m.shared := by
    intro t th ht taken
    obtain ⟨v, rest, hf, rfl⟩ := Thread.serving_of_taken taken
    have inside : .serving v ∈ m.frames :=
      Multiset.mem_coe.2 (List.mem_flatMap.2 ⟨th, List.mem_of_getElem? ht, hf ▸ List.mem_cons_self⟩)
    have opened : 0 < m.shared.handles v.dispatcher :=
      regular.sorted.counted.opened inside (by simp [Frame.handles, Frame.held])
    exact Nat.lt_irrefl 0 (closed.2 ▸ opened)
  cases a with
  | spawn | reorder | finish => exact List.not_mem_nil
  | act t a =>
    simp only [traffic]
    cases ht : m.threads[t]? with
    | none => exact List.not_mem_nil
    | some th => exact Thread.not_taken_acted
  | advance t =>
    simp only [traffic]
    cases ht : m.threads[t]? with
    | none => exact List.not_mem_nil
    | some th => exact idle t th ht
  | expire t =>
    simp only [traffic]
    split
    · cases ht : m.threads[t]? with
      | none => exact List.not_mem_nil
      | some th => exact idle t th ht
    · exact List.not_mem_nil

/-- A loop takes a call in a step of its thread. -/
theorem move_of_taken {c : Context} {i : Invocation} {a : Move}
    (taken : (d, .taken c (.work i)) ∈ m.traffic a) :
    ∃ t th p, a.thread? = some t ∧ m.threads[t]? = some th ∧ Thread.Takes m.shared th i d c p ∧
      m.move a = ⟨p.1, m.threads.set t p.2⟩ := by
  cases a with
  | spawn | reorder | finish => cases taken
  | act t a =>
    simp only [traffic] at taken
    cases ht : m.threads[t]? with
    | none =>
      rw [ht] at taken
      cases taken
    | some th =>
      rw [ht] at taken
      exact absurd taken Thread.not_taken_acted
  | advance t =>
    simp only [traffic] at taken
    cases ht : m.threads[t]? with
    | none =>
      rw [ht] at taken
      cases taken
    | some th =>
      rw [ht] at taken
      obtain ⟨p, next, takes⟩ := Thread.takes_of_taken taken m.shared.now
      have next : th.advance m.shared = some p := next
      refine ⟨t, th, p, rfl, ht, takes, ?_⟩
      simp only [move, advance?, ht, next, Option.map_some, Option.getD_some]
  | expire t =>
    simp only [traffic] at taken
    cases hd : m.deadline? t with
    | none =>
      rw [hd] at taken
      cases taken
    | some deadline =>
      cases ht : m.threads[t]? with
      | none =>
        rw [hd, ht] at taken
        cases taken
      | some th =>
        rw [hd, ht] at taken
        obtain ⟨p, next, takes⟩ := Thread.takes_of_taken taken (max m.shared.now deadline)
        refine ⟨t, th, p, rfl, ht, takes, ?_⟩
        simp only [move, expire, hd, onThread, ht, Thread.expire, next]

/-! ## Runs -/

/-- What is posted to a context during a run. -/
def posted (m : Machine) (moves : List Move) (d : DispatcherId) (c : Context) :
    List (QueueItem Invocation) :=
  QueueEvent.postedTo c ((m.history moves).filterMap (ofDispatcher d))

/-- What is taken from the queue of a context during a run. -/
def taken (m : Machine) (moves : List Move) (d : DispatcherId) (c : Context) :
    List (QueueItem Invocation) :=
  QueueEvent.takenFrom c ((m.history moves).filterMap (ofDispatcher d))

theorem taken_concat (m : Machine) (moves : List Move) (a : Move) (d : DispatcherId) (c : Context) :
    m.taken (moves ++ [a]) d c = m.taken moves d c ++
      QueueEvent.takenFrom c (((m.run moves).traffic a).filterMap (ofDispatcher d)) := by
  rw [taken, history_concat, List.filterMap_append, QueueEvent.takenFrom_append]
  rfl

/-- The queues follow what is posted and taken since the start, as long as their dispatcher is not
closed. Client code has the handles of its loops. -/
structure Follows (m : Machine) (es : List Event) : Prop where
  runs : ∀ d, Queues.Run (.empty, 0) (es.filterMap (ofDispatcher d)) (m.world d) ∨
    m.shared.Closed d ∧ ∀ c, QueueEvent.takenFrom c (es.filterMap (ofDispatcher d)) <+:
      QueueEvent.postedTo c (es.filterMap (ofDispatcher d))
  lent : ∀ d, m.shared.Lent d (m.keeps d)

/-- What is taken is what is posted first. -/
theorem Follows.fifo (h : m.Follows es) (d : DispatcherId) (c : Context) :
    QueueEvent.takenFrom c (es.filterMap (ofDispatcher d)) <+:
      QueueEvent.postedTo c (es.filterMap (ofDispatcher d)) := by
  rcases h.runs d with run | ⟨-, first⟩
  · exact ⟨_, (run.waiting Queues.held_empty c).symm⟩
  · exact first c

/-- Who holds a queue holds one of a dispatcher that is there. -/
theorem Follows.known (h : m.Follows es) {stake : Stake} (mine : stake ∈ m.stakes) :
    stake.1 < m.shared.dispatchers.length := by
  obtain ⟨d, c, q⟩ := stake
  rcases h.runs d with run | ⟨closed, -⟩
  · have own := (run.held Queues.held_empty).own c q (mem_holders mine)
    by_contra unknown
    have none : m.shared.dispatchers[d]? = none := List.getElem?_eq_none (Nat.le_of_not_lt unknown)
    rw [world, Reflection.world, Shared.dispatcher, none] at own
    cases own
  · exact closed.1

theorem Follows.knows (regular : m.Regular) (h : m.Follows es) (ht : m.threads[t]? = some th) :
    th.Known m.shared := by
  refine ⟨fun e he => ?_, fun stake mine => h.known ?_⟩
  · have inside : .emitting e ∈ m.frames :=
      Multiset.mem_coe.2 (List.mem_flatMap.2 ⟨th, List.mem_of_getElem? ht, he⟩)
    exact Shared.lt_of_handles (regular.sorted.counted.opened inside (regular.sound _ inside))
  · obtain ⟨others, all, -⟩ := stakes_set ht
    exact all ▸ Multiset.mem_add.2 (.inl mine)

/-- A dispatcher that has a loop is not closed. -/
theorem Follows.opened (regular : m.Regular) (h : m.Follows es) {c : Context} {q : QueueId}
    (mine : (d, c, q) ∈ m.loops) : 0 < m.shared.handles d := by
  obtain ⟨th, hth, mine⟩ := List.mem_flatMap.1 mine
  rcases List.mem_append.1 mine with runs | kept
  · -- The frame of a loop that runs holds the dispatcher.
    obtain ⟨f, hf, stake⟩ := List.mem_flatMap.1 runs
    have inside : f ∈ m.frames := Multiset.mem_coe.2 (List.mem_flatMap.2 ⟨th, hth, hf⟩)
    refine regular.sorted.counted.opened inside ?_
    cases f with
    | serving v =>
      cases List.mem_singleton.1 stake
      simp [Frame.handles, Frame.held]
    | _ => cases stake
  · -- Client code has the handle of a loop that it keeps.
    have among : (c, q) ∈ (m.threads.flatMap (·.kept)).filterMap (ofDispatcher d) :=
      mem_filterMap_ofDispatcher.2 (List.mem_flatMap.2 ⟨th, hth, kept⟩)
    have some : 0 < m.keeps d := List.length_pos_of_mem among
    have owned := (h.lent d).owned
    have counted := regular.sorted.counted d
    omega

theorem Follows.move (regular : m.Regular) (h : m.Follows es) (a : Move) :
    (m.move a).Follows (es ++ m.traffic a) := by
  have settles := settles_move (fun _ _ ht => h.knows regular ht) a
  refine ⟨fun d => ?_, fun d => settles.lent d (h.lent d)⟩
  rw [List.filterMap_append]
  rcases h.runs d with run | ⟨closed, first⟩
  · rcases settles.runs d with run' | ⟨closed', silent⟩
    · exact .inl (run.trans run')
    · refine .inr ⟨closed', fun c => ?_⟩
      rw [silent, List.append_nil]
      exact h.fifo d c
  · -- What is posted to the queues of a closed dispatcher is never taken.
    refine .inr ⟨(kept_closed d).effect (effect_move regular.sound a) closed, fun c => ?_⟩
    have none : QueueEvent.takenFrom c ((m.traffic a).filterMap (ofDispatcher d)) = [] := by
      refine List.filterMap_eq_nil_iff.2 fun e he => ?_
      have inside := mem_filterMap_ofDispatcher.1 he
      cases e with
      | posted => rfl
      | taken c' item => exact absurd inside (not_taken_of_closed regular closed a)
    rw [QueueEvent.takenFrom_append, QueueEvent.postedTo_append, none, List.append_nil]
    exact (first c).trans (List.prefix_append _ _)

theorem follows_run (r : Registry) (moves : List Move) :
    ((start r).run moves).Follows ((start r).history moves) := by
  induction moves using List.reverseRecOn with
  | nil =>
    refine ⟨fun d => .inl ?_, fun d => ?_⟩
    · exact .refl _
    · exact ⟨rfl, Nat.zero_le _⟩
  | append_singleton moves a ih =>
    rw [run_concat, history_concat]
    exact ih.move ((regular_start r).run moves) a

end Machine
end Reflection

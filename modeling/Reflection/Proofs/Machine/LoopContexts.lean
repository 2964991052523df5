import Reflection.Proofs.Machine.Bindings
import Reflection.Proofs.Machine.Executions
/-!
# Loops execute in their contexts

A thread has one context, whatever loops it has. A loop that is made binds the thread, and the end of
this loop binds it back. So it is the newest of the live loops that says in which context the thread is,
as long as loops end from the newest to the oldest (`Nested`). A loop that is run while a newer one for
another context is alive executes in the context of the newer one, and a loop that ends before a newer
one takes the thread out of the context of the newer one. `loops_execute_in_newest_context` says when a
loop executes in its own context.
-/

namespace Reflection

/-- A live loop of a thread: one that client code keeps, or one that was made to run once and runs now,
counted from the outermost. -/
inductive LoopName where
  | kept (l : LoopId)
  | passing (k : Nat)
deriving DecidableEq, Repr

/-- The thread is in the context of the newest loop, which comes first, and each loop takes the thread
back to the context of the next older one. -/
def Loop.Stacked : List Loop → Context → Prop
  | [], _ => True
  | l :: older, current => l.context = current ∧ Stacked older (l.previous.getD l.context)

namespace Thread

/-- The loops that were made to run once, from the outermost. -/
def passing (th : Thread) : List Loop :=
  (th.served.filterMap fun p => if p.1 = none then some p.2 else none).reverse

/-- A live loop. -/
def live? (th : Thread) : LoopName → Option Loop
  | .kept l => (th.loop? l).map (·.loop)
  | .passing k => th.passing[k]?

/-- The names that a loop made next can have. -/
def nextNames (th : Thread) : List LoopName :=
  [.kept th.loops.length, .passing th.passing.length]

/-- The live loops after a step, the newest first, given those before it. -/
def aged (th th' : Thread) (names : List LoopName) : List LoopName :=
  (th.nextNames ++ names).filter fun n => (th'.live? n).isSome

/-- What a step does to loops and to the context is in order: the loop that ends, if one does, is the
newest one, or making it had not taken the thread anywhere; and client code enters another context only
while there is no loop. -/
def Tidy (th th' : Thread) (names : List LoopName) : Prop :=
  (∀ n ∈ names, th'.live? n = none →
    names.head? = some n ∨ (th.live? n).bind (·.previous) = none) ∧
  (names ≠ [] → th'.loops = th.loops → th'.served = th.served → th'.current = th.current)

instance (th th' : Thread) (names : List LoopName) : Decidable (th.Tidy th' names) :=
  inferInstanceAs (Decidable (_ ∧ _))

/-- The loops of client code that run are alive, and their ends leave the thread where it is. -/
def Backed (th : Thread) : Prop :=
  ∀ l loop, (some l, loop) ∈ th.served →
    loop.previous = none ∧ ∃ o, th.loop? l = some o ∧ o.loop.context = loop.context

/-- The live loops of a thread by their age, and what they say about its context. -/
structure Nested (th : Thread) (names : List LoopName) : Prop where
  live : ∀ n, n ∈ names ↔ (th.live? n).isSome
  nodup : names.Nodup
  stacked : Loop.Stacked (names.filterMap th.live?) th.current
  backed : th.Backed

variable {th th' : Thread} {names : List LoopName} {n : LoopName} {loop : Loop} {l : LoopId}

/-! ## Live loops -/

theorem loop?_eq_none_of_le (h : th.loops.length ≤ l) : th.loop? l = none := by
  rw [loop?, List.getElem?_eq_none h]
  rfl

theorem live?_of_mem_nextNames (h : n ∈ th.nextNames) : th.live? n = none := by
  simp only [nextNames, List.mem_cons, List.not_mem_nil, or_false] at h
  rcases h with rfl | rfl
  · rw [live?, loop?_eq_none_of_le (Nat.le_refl _)]
    rfl
  · exact List.getElem?_eq_none (Nat.le_refl _)

theorem passing_congr (served : th'.served = th.served) : th'.passing = th.passing := by
  rw [passing, passing, served]

theorem live?_congr (loops : th'.loops = th.loops) (passing : th'.passing = th.passing) :
    th'.live? = th.live? := by
  funext n
  cases n with
  | kept l => rw [live?, live?, loop?, loop?, loops]
  | passing k => rw [live?, live?, passing]

/-- A loop is made to run once. -/
theorem passing_cons (served : th'.served = (none, loop) :: th.served) :
    th'.passing = th.passing ++ [loop] := by
  simp [passing, served]

/-- A loop of client code is used. -/
theorem passing_cons_kept (served : th'.served = (some l, loop) :: th.served) :
    th'.passing = th.passing := by
  simp [passing, served]

theorem live?_append_kept {o : OwnLoop} (loops : th'.loops = th.loops ++ [some o])
    (passing : th'.passing = th.passing) :
    th'.live? = Function.update th.live? (.kept th.loops.length) (some o.loop) := by
  funext n
  cases n with
  | passing k => rw [Function.update_of_ne (by simp), live?, live?, passing]
  | kept l =>
    rw [live?, loop?, loops]
    by_cases e : l = th.loops.length
    · subst e
      simp
    · rw [Function.update_of_ne (by simpa using e), live?, loop?]
      rcases Nat.lt_or_gt_of_ne e with lt | gt
      · rw [List.getElem?_append_left lt]
      · rw [List.getElem?_eq_none (by simp; omega), List.getElem?_eq_none (by omega)]

theorem live?_set_kept {o : OwnLoop} (found : th.loop? l = some o)
    (loops : th'.loops = th.loops.set l none) (passing : th'.passing = th.passing) :
    th'.live? = Function.update th.live? (.kept l) none := by
  funext n
  cases n with
  | passing k => rw [Function.update_of_ne (by simp), live?, live?, passing]
  | kept l' =>
    rw [live?, loop?, loops]
    by_cases e : l' = l
    · subst e
      rw [Function.update_self, List.getElem?_set_self']
      cases th.loops[l']? <;> rfl
    · rw [Function.update_of_ne (by simpa using e), live?, loop?, List.getElem?_set_ne (Ne.symm e)]

theorem live?_append_passing (loops : th'.loops = th.loops) (passing : th'.passing = th.passing ++ [loop]) :
    th'.live? = Function.update th.live? (.passing th.passing.length) (some loop) := by
  funext n
  cases n with
  | kept l => rw [Function.update_of_ne (by simp), live?, live?, loop?, loop?, loops]
  | passing k =>
    rw [live?, passing]
    by_cases e : k = th.passing.length
    · subst e
      simp
    · rw [Function.update_of_ne (by simpa using e), live?]
      rcases Nat.lt_or_gt_of_ne e with lt | gt
      · rw [List.getElem?_append_left lt]
      · rw [List.getElem?_eq_none (by simp; omega), List.getElem?_eq_none (by omega)]

/-! ## Ages -/

/-- The loops by age when a loop is made. -/
theorem Nested.made (h : th.Nested names) (next : n ∈ th.nextNames)
    (made : th'.live? = Function.update th.live? n (some loop)) : th.aged th' names = n :: names := by
  have new : th.live? n = none := live?_of_mem_nextNames next
  have old : ∀ n' ∈ names, (th'.live? n').isSome := by
    intro n' hn'
    have alive := (h.live n').1 hn'
    rw [made, Function.update_of_ne]
    · exact alive
    · rintro rfl
      rw [new] at alive
      cases alive
  have first : th.nextNames.filter (fun n => (th'.live? n).isSome) = [n] := by
    rw [made]
    simp only [nextNames, List.mem_cons, List.not_mem_nil, or_false] at next ⊢
    have none : ∀ n' ∈ th.nextNames, th.live? n' = none := fun n' => live?_of_mem_nextNames
    simp only [nextNames, List.forall_mem_cons] at none
    rcases next with rfl | rfl
    · simp [Function.update_apply, none.2.1]
    · simp [Function.update_apply, none.1]
  rw [aged, List.filter_append, first, List.filter_eq_self.2 old]
  rfl

/-- The loops by age when a loop ends, or none does. -/
theorem aged_of_fewer (names : List LoopName) (fewer : ∀ n, (th'.live? n).isSome → (th.live? n).isSome) :
    th.aged th' names = names.filter fun n => (th'.live? n).isSome := by
  have none : th.nextNames.filter (fun n => (th'.live? n).isSome) = [] := by
    refine List.filter_eq_nil_iff.2 fun n next alive => ?_
    have := fewer n alive
    rw [live?_of_mem_nextNames next] at this
    cases this
  rw [aged, List.filter_append, none, List.nil_append]

end Thread

/-! ## Stacks of loops -/

variable {names : List LoopName} {n : LoopName} {loop : Loop} {f g : LoopName → Option Loop} {c : Context}

theorem filterMap_filter_isSome (g : LoopName → Option Loop) (names : List LoopName) :
    (names.filter fun n => (g n).isSome).filterMap g = names.filterMap g := by
  induction names with
  | nil => rfl
  | cons n names ih =>
    cases h : g n with
    | none => rw [List.filter_cons_of_neg (by simp [h]), List.filterMap_cons_none h, ih]
    | some l =>
      rw [List.filter_cons_of_pos (by simp [h]), List.filterMap_cons_some h, List.filterMap_cons_some h,
        ih]

theorem filterMap_update (absent : n ∉ names) (o : Option Loop) :
    names.filterMap (Function.update f n o) = names.filterMap f := by
  refine List.filterMap_congr fun n' hn' => Function.update_of_ne ?_ _ _
  rintro rfl
  exact absent hn'

namespace Loop

/-- A loop that is made comes on top. -/
theorem Stacked.cons (h : Stacked (names.filterMap f) c) (absent : n ∉ names) (leaves : loop.Leaves c) :
    Stacked ((n :: names).filterMap (Function.update f n (some loop))) loop.context := by
  rw [List.filterMap_cons_some (Function.update_self ..), filterMap_update absent]
  refine ⟨rfl, ?_⟩
  have back : loop.previous.getD loop.context = c := by
    rw [leaves]
    split
    · assumption
    · rfl
  exact back ▸ h

/-- The end of the newest loop leads back to the next older one. -/
theorem Stacked.tail (h : Stacked ((n :: names).filterMap f) c) (found : f n = some loop)
    (absent : n ∉ names) :
    Stacked ((n :: names).filterMap (Function.update f n none)) (loop.previous.getD c) := by
  rw [List.filterMap_cons_none (Function.update_self ..), filterMap_update absent]
  rw [List.filterMap_cons_some found] at h
  obtain ⟨rfl, older⟩ := h
  exact older

/-- A loop that took the thread nowhere can end at any time. -/
theorem Stacked.drop (h : Stacked (names.filterMap f) c) (found : f n = some loop)
    (stayed : loop.previous = none) : Stacked (names.filterMap (Function.update f n none)) c := by
  induction names generalizing c with
  | nil => trivial
  | cons n' names ih =>
    by_cases e : n' = n
    · subst e
      rw [List.filterMap_cons_none (Function.update_self ..)]
      rw [List.filterMap_cons_some found] at h
      obtain ⟨rfl, older⟩ := h
      rw [stayed] at older
      exact ih older
    · have same : Function.update f n none n' = f n' := Function.update_of_ne e _ _
      cases h' : f n' with
      | none =>
        rw [List.filterMap_cons_none h'] at h
        rw [List.filterMap_cons_none (same.trans h')]
        exact ih h
      | some loop' =>
        rw [List.filterMap_cons_some h'] at h
        rw [List.filterMap_cons_some (same.trans h')]
        exact ⟨h.1, ih h.2⟩

end Loop

/-! ## Steps -/

namespace Thread

variable {th th' : Thread} {l : LoopId} {o : OwnLoop}

theorem Nested.of_same (h : th.Nested names) (same : th'.live? = th.live?)
    (stacked : Loop.Stacked (names.filterMap th.live?) th'.current) (backed : th'.Backed) :
    th'.Nested (th.aged th' names) := by
  have ages : th.aged th' names = names := by
    rw [aged_of_fewer names (by simp [same])]
    exact List.filter_eq_self.2 fun n hn => by rw [same]; exact (h.live n).1 hn
  rw [ages]
  exact ⟨by rw [same]; exact h.live, h.nodup, by rw [same]; exact stacked, backed⟩

theorem Nested.of_made (h : th.Nested names) (next : n ∈ th.nextNames)
    (made : th'.live? = Function.update th.live? n (some loop)) (leaves : loop.Leaves th.current)
    (current : th'.current = loop.context) (backed : th'.Backed) : th'.Nested (th.aged th' names) := by
  have absent : n ∉ names := by
    intro hn
    have := (h.live n).1 hn
    rw [live?_of_mem_nextNames next] at this
    cases this
  rw [h.made next made]
  refine ⟨fun n' => ?_, List.nodup_cons.2 ⟨absent, h.nodup⟩, ?_, backed⟩
  · rw [made, List.mem_cons, h.live]
    by_cases e : n' = n
    · subst e
      simp
    · simp [e]
  · rw [made, current]
    exact h.stacked.cons absent leaves

theorem Nested.of_ended (h : th.Nested names) (found : th.live? n = some loop)
    (ended : th'.live? = Function.update th.live? n none)
    (current : th'.current = loop.previous.getD th.current) (tidy : th.Tidy th' names)
    (backed : th'.Backed) : th'.Nested (th.aged th' names) := by
  have gone : th'.live? n = none := by rw [ended, Function.update_self]
  have fewer : ∀ n', (th'.live? n').isSome → (th.live? n').isSome := by
    intro n' alive
    by_cases e : n' = n
    · rw [e, gone] at alive
      cases alive
    · rwa [ended, Function.update_of_ne e] at alive
  rw [aged_of_fewer names fewer]
  refine ⟨fun n' => ?_, h.nodup.filter _, ?_, backed⟩
  · rw [List.mem_filter, h.live]
    exact ⟨And.right, fun alive => ⟨fewer n' alive, alive⟩⟩
  · rw [filterMap_filter_isSome, current, ended]
    have member : n ∈ names := (h.live n).2 (by rw [found]; rfl)
    rcases tidy.1 n member gone with newest | stayed
    · obtain ⟨older, rfl⟩ := List.head?_eq_some_iff.1 newest
      exact h.stacked.tail found (List.nodup_cons.1 h.nodup).1
    · rw [found, Option.bind_some] at stayed
      rw [stayed]
      exact h.stacked.drop found stayed

/-- A step that is in order keeps the loops nested. -/
theorem Nested.step (h : th.Nested names) (r : th.Rebinds th') (tidy : th.Tidy th' names) :
    th'.Nested (th.aged th' names) := by
  have found_of_loops : th'.loops = th.loops → ∀ l, th'.loop? l = th.loop? l :=
    fun loops l => by rw [loop?, loop?, loops]
  have backed_of_same : th'.loops = th.loops → th'.served = th.served → th'.Backed := by
    intro loops served l loop runs
    rw [found_of_loops loops]
    exact h.backed l loop (served ▸ runs)
  cases r with
  | stays calm =>
    exact h.of_same (live?_congr calm.loops (passing_congr calm.served)) (calm.current ▸ h.stacked)
      (backed_of_same calm.loops calm.served)
  | enters loops served =>
    refine h.of_same (live?_congr loops (passing_congr served)) ?_ (backed_of_same loops served)
    by_cases none : names = []
    · rw [none]
      trivial
    · rw [tidy.2 none loops served]
      exact h.stacked
  | keeps o leaves current loops served =>
    refine h.of_made (n := .kept th.loops.length) (by simp [nextNames])
      (live?_append_kept loops (passing_congr served)) leaves current fun l loop runs => ?_
    obtain ⟨stayed, o', mine, context⟩ := h.backed l loop (served ▸ runs)
    refine ⟨stayed, o', ?_, context⟩
    have lt : l < th.loops.length := by
      by_contra ge
      rw [loop?_eq_none_of_le (Nat.le_of_not_lt ge)] at mine
      cases mine
    rw [loop?, loops, List.getElem?_append_left lt]
    exact mine
  | drops l o mine unused current loops served =>
    refine h.of_ended (n := .kept l) (by rw [live?, mine]; rfl)
      (live?_set_kept mine loops (passing_congr served)) current tidy fun l' loop runs => ?_
    have runs' := served ▸ runs
    obtain ⟨stayed, o', mine', context⟩ := h.backed l' loop runs'
    have ne : l ≠ l' := by
      rintro rfl
      exact unused loop runs'
    refine ⟨stayed, o', ?_, context⟩
    rw [loop?, loops, List.getElem?_set_ne ne]
    exact mine'
  | serves loop leaves current loops served =>
    refine h.of_made (n := .passing th.passing.length) (by simp [nextNames])
      (live?_append_passing loops (passing_cons served)) leaves current fun l loop' runs => ?_
    rw [served] at runs
    rw [found_of_loops loops]
    exact h.backed l loop' (List.mem_of_ne_of_mem (by simp) runs)
  | uses l o mine current loops served =>
    refine h.of_same (live?_congr loops (passing_cons_kept served)) (current ▸ h.stacked)
      fun l' loop' runs => ?_
    rw [served] at runs
    rw [found_of_loops loops]
    rcases List.mem_cons.1 runs with e | runs
    · cases e
      exact ⟨rfl, o, mine, rfl⟩
    · exact h.backed l' loop' runs
  | ends owner loop served current loops =>
    have backed : th'.Backed := by
      intro l loop' runs
      rw [found_of_loops loops]
      exact h.backed l loop' (served ▸ List.mem_cons_of_mem _ runs)
    cases owner with
    | some l =>
      -- A loop that client code keeps stays alive, and its run leaves the thread where it is.
      have stayed := (h.backed l loop (served ▸ List.mem_cons_self)).1
      rw [stayed, Option.getD_none] at current
      exact h.of_same (live?_congr loops (passing_cons_kept served).symm) (current ▸ h.stacked) backed
    | none =>
      have before := passing_cons served
      have found : th.live? (.passing th'.passing.length) = some loop := by
        rw [live?, before]
        simp
      have ended : th'.live? = Function.update th.live? (.passing th'.passing.length) none := by
        have made : th.live? =
            Function.update th'.live? (.passing th'.passing.length) (some loop) :=
          live?_append_passing loops.symm before
        have free : th'.live? (.passing th'.passing.length) = none :=
          live?_of_mem_nextNames (by simp [nextNames])
        rw [made, Function.update_idem]
        exact (Function.update_eq_self_iff.2 free.symm).symm
      exact h.of_ended found ended current tidy backed

/-- A loop that runs is alive. -/
theorem Nested.served (h : th.Nested names) {owner : Option LoopId} (runs : (owner, loop) ∈ th.served) :
    ∃ n ∈ names, ∃ loop', th.live? n = some loop' ∧ loop'.context = loop.context := by
  have alive : ∃ n loop', th.live? n = some loop' ∧ loop'.context = loop.context := by
    cases owner with
    | some l =>
      obtain ⟨-, o, mine, context⟩ := h.backed l loop runs
      exact ⟨.kept l, o.loop, by rw [live?, mine]; rfl, context⟩
    | none =>
      have mem : loop ∈ th.passing := by
        rw [passing, List.mem_reverse, List.mem_filterMap]
        exact ⟨(none, loop), runs, rfl⟩
      obtain ⟨k, hk⟩ := List.mem_iff_getElem?.1 mem
      exact ⟨.passing k, loop, hk, rfl⟩
  obtain ⟨n, loop', found, context⟩ := alive
  exact ⟨n, (h.live n).2 (by rw [found]; rfl), loop', found, context⟩

/-- The thread is in the context of its newest loop. -/
theorem Nested.newest (h : th.Nested names) (any : names ≠ []) :
    ∃ n loop, names.head? = some n ∧ th.live? n = some loop ∧ th.current = loop.context := by
  cases names with
  | nil => exact absurd rfl any
  | cons n older =>
    obtain ⟨loop, found⟩ := Option.isSome_iff_exists.1 ((h.live n).1 List.mem_cons_self)
    have stacked := h.stacked
    rw [List.filterMap_cons_some found] at stacked
    exact ⟨n, loop, rfl, found, stacked.1.symm⟩

theorem nested_nil (loops : th.loops = []) (served : th.served = []) : th.Nested [] where
  live n := by
    have none : th.live? n = none := by
      cases n with
      | kept l => simp [live?, loop?, loops]
      | passing k => simp [live?, passing, served]
    simp [none]
  nodup := .nil
  stacked := trivial
  backed l loop runs := by
    rw [served] at runs
    cases runs

/-- A loop that takes a call executes it in the context in which the thread is. -/
theorem Takes.current {s : Shared} {d : DispatcherId} {c : Context} {i : Invocation} {p : Shared × Thread}
    (h : th.Takes s i d c p) : p.2.current = th.current := by
  cases h with
  | @intro v below queues now serves pop =>
    have same : (Frame.serving { v with executed := v.executed + 1 } :: below).filterMap (·.served?) =
        th.served := (served_serving serves).symm
    exact (calm_execute _ v.dispatcher i same).current

/-- Its code is called if its receiver is there. -/
theorem Takes.calls {s : Shared} {d : DispatcherId} {c : Context} {i : Invocation} {p : Shared × Thread}
    {entry : Entry} {held : List Held} (h : th.Takes s i d c p)
    (code : s.callee d i.target i.args = .code entry held) : ∃ rest, p.2.frames = .starting entry :: rest := by
  cases h with
  | @intro v below queues now serves pop =>
    let s' : Shared := { s.setDispatcher v.dispatcher { s.dispatcher v.dispatcher with queues } with now }
    have callee : s'.callee v.dispatcher i.target i.args = .code entry held :=
      (callee_setDispatcher_queues queues i.target i.args).trans code
    rw [execute_of_code callee]
    exact ⟨_, rfl⟩

end Thread

namespace Machine

variable {m : Machine} {t : Nat} {th th' : Thread} {a : Move} {moves : List Move}

/-- The live loops of a thread after a move, the newest first, given those before it. -/
def aged (m : Machine) (a : Move) (t : Nat) (names : List LoopName) : List LoopName :=
  match m.threads[t]?, (m.move a).threads[t]? with
  | some th, some th' => th.aged th' names
  | _, _ => []

/-- The live loops of a thread after a run, the newest first. -/
def byAge (m : Machine) (t : Nat) : List LoopName → List Move → List LoopName
  | names, [] => names
  | names, a :: moves => (m.move a).byAge t (m.aged a t names) moves

/-- All that a run does to the loops of a thread and to its context is in order. -/
def Orderly (m : Machine) (t : Nat) : List LoopName → List Move → Prop
  | _, [] => True
  | names, a :: moves =>
    (∀ th ∈ m.threads[t]?, ∀ th' ∈ (m.move a).threads[t]?, th.Tidy th' names) ∧
      (m.move a).Orderly t (m.aged a t names) moves

instance decidableOrderly (t : Nat) : (m : Machine) → (names : List LoopName) → (moves : List Move) →
    Decidable (m.Orderly t names moves)
  | _, _, [] => isTrue trivial
  | m, names, a :: moves =>
    have := decidableOrderly t (m.move a) (m.aged a t names) moves
    inferInstanceAs (Decidable (_ ∧ _))

theorem nested_move (h : ∀ th, m.threads[t]? = some th → th.Nested names)
    (tidy : ∀ th ∈ m.threads[t]?, ∀ th' ∈ (m.move a).threads[t]?, th.Tidy th' names)
    (ht : (m.move a).threads[t]? = some th') : th'.Nested (m.aged a t names) := by
  rw [aged, ht]
  cases found : m.threads[t]? with
  | none =>
    -- A thread that starts has no loop.
    rcases m.move_cases a with e | e | ⟨order, e⟩ | ⟨t', -, step⟩
    · rw [e, found] at ht
      cases ht
    · rw [e, spawn, List.getElem?_append_right (List.getElem?_eq_none_iff.1 found)] at ht
      obtain rfl := List.mem_singleton.1 (List.mem_of_getElem? ht)
      exact Thread.nested_nil rfl rfl
    · rw [e, reorder, found] at ht
      cases ht
    · generalize m.move a = m' at step ht
      cases step with
      | intro found' =>
        have none : t < m.threads.length := by
          have := (List.getElem?_eq_some_iff.1 ht).1
          rwa [List.length_set] at this
        exact absurd none (Nat.not_lt.2 (List.getElem?_eq_none_iff.1 found))
  | some th =>
    refine (h th found).step ?_ (tidy th found th' ht)
    rcases move_thread found a with ⟨-, s', th₁, moves, moved⟩ | same
    · rw [moved] at ht
      cases (getElem?_set_thread found th₁).symm.trans ht
      exact moves.rebinds
    · cases same.symm.trans ht
      exact .stays (.refl _)

theorem nested_run (h : ∀ th, m.threads[t]? = some th → th.Nested names)
    (orderly : m.Orderly t names moves) (ht : (m.run moves).threads[t]? = some th) :
    th.Nested (m.byAge t names moves) := by
  induction moves generalizing m names with
  | nil => exact h th ht
  | cons a moves ih => exact ih (fun _ found => nested_move h orderly.1 found) orderly.2 ht

/-! ## Main theorem -/

/-- Whenever a loop takes a call, in any run of any client code, the loop's thread stays in the context in
which it was, and if the receiver is there, the thread calls its code and stands as it is until the code
begins. If all that the run did to the loops of this thread was in order, this is the context of the
newest live loop of the thread. So the call runs in the context of its loop exactly if the newest live
loop, which may be the loop itself, is one for this context. -/
theorem loops_execute_in_newest_context (r : Registry) (moves : List Move) (a : Move) (d : DispatcherId)
    (c : Context) (i : Invocation)
    (taken : (d, .taken c (.work i)) ∈ ((start r).run moves).traffic a) :
    let m := (start r).run moves
    ∃ t th v below th', a.thread? = some t ∧ m.threads[t]? = some th ∧
      th.frames = .serving v :: below ∧ v.dispatcher = d ∧ v.loop.context = c ∧
      (m.move a).threads[t]? = some th' ∧ th'.current = th.current ∧
      (∀ entry held, m.shared.callee d i.target i.args = .code entry held →
        ∃ rest, th'.frames = .starting entry :: rest ∧ ∀ later,
          ((m.move a).run later).threads[t]? = some th' ∨
          ∃ before, before <+: later ∧
            ((m.move a).run before).threads[t]? = some (th'.withFrames (.body entry :: rest))) ∧
      ((start r).Orderly t [] moves →
        let names := (start r).byAge t [] moves
        (∃ n ∈ names, ∃ loop, th.live? n = some loop ∧ loop.context = c) ∧
        ∃ newest loop, names.head? = some newest ∧ th.live? newest = some loop ∧
          th'.current = loop.context ∧ (th'.current = c ↔ loop.context = c)) := by
  intro m
  obtain ⟨t, th, p, on, ht, takes, moved⟩ := move_of_taken taken
  have current := takes.current
  have calls : ∀ entry held, m.shared.callee d i.target i.args = .code entry held →
      ∃ rest, p.2.frames = .starting entry :: rest := fun _ _ => takes.calls
  have ht' : (m.move a).threads[t]? = some p.2 := by
    rw [moved]
    exact getElem?_set_thread ht p.2
  obtain ⟨now, hf, pop⟩ := takes
  rename_i v below queues
  refine ⟨t, th, v, below, _, on, ht, hf, rfl, rfl, ht', current, fun entry held code => ?_, fun orderly => ?_⟩
  · obtain ⟨rest, frames⟩ := calls entry held code
    exact ⟨rest, frames, stands_or_begins ht' frames⟩
  have none : ∀ th, (start r).threads[t]? = some th → th.Nested [] := by
    intro th found
    cases found
  have nested := nested_run none orderly ht
  have runs : (v.own, v.loop) ∈ th.served := by
    rw [Thread.served_serving hf]
    exact List.mem_cons_self
  obtain ⟨n, hn, loop, found, own⟩ := nested.served runs
  refine ⟨⟨n, hn, loop, found, own⟩, ?_⟩
  obtain ⟨newest, loop', head, found', leads⟩ := nested.newest (List.ne_nil_of_mem hn)
  have there := current.trans leads
  exact ⟨newest, loop', head, found', there, by rw [there]⟩

/-! ### Runs -/

/-- A bell is registered and moved to some context, where its slot is called. -/
def tollIn (c : Context) : List Move :=
  hang.take 4 ++
    [.act 0 (.move 0 ⟨0, 1⟩ c), .act 0 (.call 0 ⟨0, 1⟩ "hear()" .queued [])]

/-- The call of the slot. -/
def tolled : Invocation where
  target := .method ⟨0, 1⟩ 1
  args := []

/-- Client code makes a loop for each of two contexts. -/
def climb (c c' : Context) : List Move :=
  [.act 0 (.newLoop 0 c), .act 0 (.newLoop 0 c')]

/-- Client code ends one of its loops. -/
def descend (l : LoopId) : List Move :=
  [.act 0 (.dropLoop l), .advance 0, .advance 0]

def belfry : Context :=
  .named "belfry"

def nave : Context :=
  .named "nave"

/-- The newer of two loops has ended when the older one is run. Its call runs in its context. -/
theorem loop_executes_in_its_context_after_newer :
    let moves := tollIn belfry ++ climb belfry nave ++ descend 1 ++ [.act 0 (.useLoop 0 .whileWork)]
    let m := (start bells).run moves
    (0, .taken belfry (.work tolled)) ∈ m.traffic (.advance 0) ∧ (start bells).Orderly 0 [] moves ∧
      (m.move (.advance 0)).threads[0]?.map (·.current) = some belfry := by
  intro moves m
  have taken : (0, .taken belfry (.work tolled)) ∈ m.traffic (.advance 0) := by
    have all : m.traffic (.advance 0) = [(0, .taken belfry (.work tolled))] := by rfl
    rw [all]
    exact List.mem_singleton_self _
  have orderly : (start bells).Orderly 0 [] moves := by decide +kernel
  have ages : (start bells).byAge 0 [] moves = [.kept 0] := by decide +kernel
  obtain ⟨t, th, v, below, th', on, -, -, -, -, ht', -, -, runs⟩ :=
    loops_execute_in_newest_context bells moves (.advance 0) 0 belfry tolled taken
  cases on
  obtain ⟨⟨n, hn, loop, found, context⟩, newest, loop', head, found', there, -⟩ := runs orderly
  rw [ages] at hn head
  cases List.mem_singleton.1 hn
  cases head
  cases found.symm.trans found'
  exact ⟨taken, orderly, by rw [ht', Option.map_some, there, context]⟩

/-- The older of two loops is run while the newer one is alive, or the newer one is run after the older
one has ended. The call runs in the context of the other loop, or where the thread was before. -/
theorem loop_executes_elsewhere :
    let m := (start bells).run (tollIn belfry ++ climb belfry nave ++ [.act 0 (.useLoop 0 .whileWork)])
    let m' := (start bells).run
      (tollIn belfry ++ climb nave belfry ++ descend 0 ++ [.act 0 (.useLoop 1 .whileWork)])
    m.traffic (.advance 0) = [(0, .taken belfry (.work tolled))] ∧
      (m.move (.advance 0)).threads[0]?.map (·.current) = some nave ∧
      m'.traffic (.advance 0) = [(0, .taken belfry (.work tolled))] ∧
      (m'.move (.advance 0)).threads[0]?.map (·.current) = some (.own 0) := by
  intro m m'
  exact ⟨rfl, rfl, rfl, rfl⟩

end Machine
end Reflection

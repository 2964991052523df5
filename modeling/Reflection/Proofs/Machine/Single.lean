import Mathlib.Data.Multiset.Bind
import Reflection.Proofs.Machine.Completions
/-!
# A call for which a caller waits is in one place

Such a call waits in one queue, or one frame executes it, or it is over (`Single`). So it is executed
once at most, what its caller is told is final (`kept_told`), and a call that was given up will never
be executed (`kept_givenUp`).
-/

namespace Reflection

variable {s s' : Shared} {d d' : DispatcherId} {k : CompletionId} {i j : Invocation}
  {old new : List Frame} {others fs fs' : Multiset Frame} {q : QueueId} {queues : Queues Invocation}

open Reflection.Frame (Dismissing dismissing_add dismissing_cons)

/-! ## Calls in queues -/

namespace Dispatcher

variable {x y : Dispatcher}

/-- The calls in queues whose caller waits with a completion. -/
def callsOf (x : Dispatcher) (k : CompletionId) : Multiset Invocation :=
  x.awaited.filter (·.completion = some k)

theorem callsOf_mono (le : y.awaited ≤ x.awaited) : y.callsOf k ≤ x.callsOf k :=
  Multiset.filter_le_filter _ le

theorem callsOf_eq : x.callsOf k = x.queues.works.filter (·.completion = some k) := by
  rw [callsOf, awaited, Multiset.filter_filter]
  refine Multiset.filter_congr fun i _ => and_iff_left_of_imp fun hk => ?_
  rw [hk]
  rfl

theorem callsOf_new (timeout : Option Nat) : ({ timeout } : Dispatcher).callsOf k = 0 :=
  callsOf_eq

theorem callsOf_enqueue (x : Dispatcher) (c : Context) (i : Invocation) :
    (x.enqueue c i).callsOf k = (if i.completion = some k then {i} else 0) + x.callsOf k := by
  rw [callsOf_eq, callsOf_eq]
  show (Queues.works (x.queues.post c (.work i))).filter _ = _
  rw [Queues.works_post, Multiset.filter_cons]

/-- Taking a call from a queue leaves the others there. -/
theorem callsOf_pop (pop : x.queues.pop? q = some (.work i, queues)) :
    x.callsOf k = (if i.completion = some k then {i} else 0) + { x with queues }.callsOf k := by
  have split : x.queues.works = i ::ₘ queues.works := Queues.works_pop pop
  rw [callsOf_eq, callsOf_eq, split, Multiset.filter_cons]

theorem mem_callsOf_of_waiting (hi : .work i ∈ (x.queues.queue q).items) (hk : i.completion = some k) :
    i ∈ x.callsOf k := by
  rw [callsOf_eq]
  exact Multiset.mem_filter.2 ⟨Queues.mem_works.2 ⟨q, hi⟩, hk⟩

theorem awaits_of_mem_callsOf (hi : i ∈ x.callsOf k) : x.Awaits k i.target :=
  awaits_iff.2 ⟨i, (Multiset.mem_filter.1 hi).1, (Multiset.mem_filter.1 hi).2, rfl⟩

theorem exists_mem_callsOf {target : Target} (h : x.Awaits k target) : ∃ i, i ∈ x.callsOf k := by
  obtain ⟨i, hi, hk, -⟩ := awaits_iff.1 h
  exact ⟨i, Multiset.mem_filter.2 ⟨hi, hk⟩⟩

end Dispatcher

namespace Shared

/-- There is a dispatcher of this number if something can be taken from its queues. -/
theorem lt_of_pop {item : QueueItem Invocation}
    (pop : (s.dispatcher d').queues.pop? q = some (item, queues)) : d' < s.dispatchers.length := by
  by_contra ge
  rw [dispatcher, List.getElem?_eq_none (Nat.le_of_not_lt ge)] at pop
  cases pop

/-- Taking a call from a queue leaves the others there. -/
theorem callsOf_take (pop : (s.dispatcher d').queues.pop? q = some (.work j, queues))
    (d : DispatcherId) :
    (s.dispatcher d).callsOf k = (if d = d' ∧ j.completion = some k then {j} else 0) +
      ((s.setDispatcher d' { s.dispatcher d' with queues }).dispatcher d).callsOf k := by
  by_cases e : d = d'
  · subst e
    rw [dispatcher_setDispatcher_of_lt (lt_of_pop pop), Dispatcher.callsOf_pop pop]
    simp only [true_and]
  · rw [dispatcher_setDispatcher_of_ne e, if_neg fun h => e h.1, zero_add]

/-- A call that is put into a queue for a caller that will wait is all that is new there. -/
theorem callsOf_enqueueWaiting (context : Context) (target : Target) (args : List Variant)
    (d : DispatcherId) :
    ((s.enqueueWaiting d' context target args).2.dispatcher d).callsOf k ≤
      (if d = d' ∧ s.completions.length = k then
        {{ target, args, completion := some s.completions.length }} else 0) +
        (s.dispatcher d).callsOf k := by
  let i : Invocation := { target, args, completion := some s.completions.length }
  have set : (s.enqueueWaiting d' context target args).2.dispatcher d =
      (s.addCompletion.2.setDispatcher d' ((s.dispatcher d').enqueue context i)).dispatcher d :=
    dispatcher_retainAll _ _
  rw [set]
  rcases dispatcher_setDispatcher_or (s := s.addCompletion.2) (d := d') d
    ((s.dispatcher d').enqueue context i) with e | ⟨rfl, e⟩
  · rw [e]
    exact Multiset.le_add_left _ _
  · rw [e, Dispatcher.callsOf_enqueue]
    simp [i]

/-- Closing a dispatcher leaves nothing that waits there, and what waits elsewhere is left alone. -/
theorem callsOf_close (last : s.handles d' = 1) (d : DispatcherId) :
    (((s.letGo (.dispatcher d')).2.setDispatcher d' {}).dispatcher d).callsOf k =
      if d = d' then 0 else (s.dispatcher d).callsOf k := by
  split
  · rename_i e
    rw [e, dispatcher_close (last ▸ Nat.one_pos)]
    exact Dispatcher.callsOf_new none
  · rename_i ne
    rw [dispatcher_setDispatcher_of_ne ne, dispatcher_letGo]

theorem callsOf_enqueueWaiting_of_made (made : k < s.completions.length) (context : Context)
    (target : Target) (args : List Variant) (d : DispatcherId) :
    ((s.enqueueWaiting d' context target args).2.dispatcher d).callsOf k ≤
      (s.dispatcher d).callsOf k := by
  refine (callsOf_enqueueWaiting context target args d).trans_eq ?_
  rw [if_neg fun new => Nat.ne_of_gt made new.2, zero_add]

theorem made_enqueueWaiting (made : k < s.completions.length) (context : Context)
    (target : Target) (args : List Variant) :
    k < (s.enqueueWaiting d context target args).2.completions.length ∧
      (s.enqueueWaiting d context target args).2.completions[k]? = s.completions[k]? := by
  rw [completions_enqueueWaiting, List.getElem?_append_left made, List.length_append]
  exact ⟨Nat.lt_add_right _ made, rfl⟩

end Shared

/-! ## Calls in the hands of frames -/

namespace Frame

/-- The number of frames that execute the call of a completion. -/
def executions (fs : Multiset Frame) (k : CompletionId) : Nat :=
  (fs.bind fun f => (f.executes : Multiset CompletionId)).count k

theorem executions_add (fs : List Frame) (others : Multiset Frame) (k : CompletionId) :
    executions (fs + others) k = (fs.flatMap (·.executes)).count k + executions others k := by
  rw [executions, Multiset.add_bind, Multiset.count_add, Multiset.coe_bind, Multiset.coe_count]
  rfl

theorem executions_congr (same : new.flatMap (·.executes) = old.flatMap (·.executes)) :
    executions (new + others) k = executions (old + others) k := by
  rw [executions_add, executions_add, same]

theorem executions_cons (f : Frame) (fs : List Frame) (others : Multiset Frame) (k : CompletionId) :
    executions ((f :: fs : List Frame) + others) k =
      f.executes.count k + executions (fs + others) k := by
  rw [executions_add, executions_add, List.flatMap_cons, List.count_append, Nat.add_assoc]

theorem executions_pos (hi : .executing i ∈ fs) (hk : i.completion = some k) : 0 < executions fs k := by
  refine Multiset.count_pos.2 (Multiset.mem_bind.2 ⟨_, hi, ?_⟩)
  simp [hk]

theorem executions_eq_zero_iff : executions fs k = 0 ↔ ¬ Executing fs k := by
  simp [executions, Executing, Multiset.count_eq_zero]

theorem count_executes_executing (i : Invocation) (k : CompletionId) :
    (executing i).executes.count k = if i.completion = some k then 1 else 0 := by
  rw [executes_executing]
  cases i.completion with
  | none => simp
  | some k' => simp [List.count_singleton]

variable {f g : Frame} {frames : List Frame}

/-- A frame that executes a call comes on top of one that executes none. -/
theorem executions_push (hf : f.executes = []) (hg : g.executes = []) :
    executions ((.executing i :: g :: frames : List Frame) + others) k =
      (if i.completion = some k then 1 else 0) + executions ((f :: frames : List Frame) + others) k := by
  rw [executions_cons, count_executes_executing]
  exact congrArg _ (executions_congr (by rw [List.flatMap_cons, List.flatMap_cons, hf, hg]))

/-- A frame that executes a call gives way to one that executes none. -/
theorem executions_pop (hg : g.executes = []) :
    executions ((.executing i :: frames : List Frame) + others) k =
      (if i.completion = some k then 1 else 0) + executions ((g :: frames : List Frame) + others) k := by
  rw [executions_cons, count_executes_executing]
  exact congrArg _ (executions_congr (by rw [List.flatMap_cons, hg, List.nil_append]))

end Frame

open Reflection.Frame (executions executions_congr executions_cons executions_push executions_pop)

/-! ## One place -/

/-- The completion `k` is that of the call `i` of the dispatcher `d`. As long as the call is not over,
it waits in a queue or is executed, and its caller was not told anything. -/
structure Single (s : Shared) (fs : Multiset Frame) (k : CompletionId) (d : DispatcherId)
    (i : Invocation) : Prop where
  made : k < s.completions.length
  only : ∀ d' j, j ∈ (s.dispatcher d').callsOf k → d' = d ∧ j = i
  once : ((s.dispatcher d).callsOf k).card + executions fs k ≤ 1
  untold : 0 < ((s.dispatcher d).callsOf k).card + executions fs k →
    s.completions[k]? = some none ∧ ¬ Dismissing fs k

namespace Single

/-- Nothing is new about the call. -/
theorem fewer (h : Single s fs k d i) (made : k < s'.completions.length)
    (calls : ∀ d', (s'.dispatcher d').callsOf k ≤ (s.dispatcher d').callsOf k)
    (executes : executions fs' k ≤ executions fs k)
    (told : s'.completions[k]? = s.completions[k]?) (dismisses : Dismissing fs' k → Dismissing fs k) :
    Single s' fs' k d i := by
  have places := Nat.add_le_add (Multiset.card_le_card (calls d)) executes
  refine ⟨made, fun d' j hj => h.only d' j (Multiset.mem_of_le (calls d') hj), places.trans h.once,
    fun pos => ?_⟩
  obtain ⟨untold, keeps⟩ := h.untold (Nat.lt_of_lt_of_le pos places)
  exact ⟨told.trans untold, fun hk => keeps (dismisses hk)⟩

/-- The call is over. -/
theorem of_over (made : k < s'.completions.length) (calls : ∀ d', (s'.dispatcher d').callsOf k = 0)
    (executes : executions fs' k = 0) : Single s' fs' k d i := by
  refine ⟨made, fun d' j hj => ?_, ?_, fun pos => ?_⟩
  · rw [calls] at hj
    exact absurd hj (Multiset.notMem_zero j)
  · simp [calls, executes]
  · simp [calls, executes] at pos

/-- The call waits in no other queue than one of its dispatcher. -/
theorem calls_eq_zero (h : Single s fs k d i) (none : (s.dispatcher d).callsOf k = 0)
    (d' : DispatcherId) : (s.dispatcher d').callsOf k = 0 := by
  refine Multiset.eq_zero_of_forall_notMem fun j hj => ?_
  obtain ⟨rfl, -⟩ := h.only d' j hj
  rw [none] at hj
  exact Multiset.notMem_zero j hj

/-- If a frame is to tell the caller that the call was given up, or the caller was told something, the
call is over. -/
theorem nowhere (h : Single s fs k d i)
    (ended : Dismissing fs k ∨ ∃ c, s.completions[k]? = some (some c)) :
    (∀ d', (s.dispatcher d').callsOf k = 0) ∧ executions fs k = 0 := by
  have none : ((s.dispatcher d).callsOf k).card + executions fs k = 0 := by
    by_contra some
    obtain ⟨untold, keeps⟩ := h.untold (Nat.pos_of_ne_zero some)
    rcases ended with due | ⟨c, told⟩
    · exact keeps due
    · rw [untold] at told
      cases told
  exact ⟨h.calls_eq_zero (Multiset.card_eq_zero.1 (by omega)), by omega⟩

/-- The call is taken from its queue: it waits there no more, and no frame executes it. -/
theorem take (h : Single s fs k d i) (pop : (s.dispatcher d').queues.pop? q = some (.work j, queues))
    (hk : j.completion = some k) :
    d' = d ∧ j = i ∧ executions fs k = 0 ∧
      ∀ d₁, ((s.setDispatcher d' { s.dispatcher d' with queues }).dispatcher d₁).callsOf k = 0 := by
  have waited := Dispatcher.mem_callsOf_of_waiting (Queues.mem_queue_pop pop).1 hk
  obtain ⟨rfl, rfl⟩ := h.only d' j waited
  have once := h.once
  have here := Shared.callsOf_take (k := k) pop d'
  rw [if_pos ⟨rfl, hk⟩] at here
  rw [here, Multiset.card_add, Multiset.card_singleton] at once
  refine ⟨rfl, rfl, by omega, fun d₁ => ?_⟩
  by_cases e : d₁ = d'
  · rw [e]
    exact Multiset.card_eq_zero.1 (by omega)
  · rw [Shared.dispatcher_setDispatcher_of_ne e]
    exact Multiset.eq_zero_of_forall_notMem fun j' hj' => e (h.only d₁ j' hj').1

end Single

/-! ## Turns -/

theorem single_work (work : Work (s, old) (s', new)) (h : Single s (old + others) k d i) :
    Single s' (new + others) k d i := by
  cases work with
  | idle awaited completions executes dismisses =>
    refine h.fewer (completions ▸ h.made) (fun d' => Dispatcher.callsOf_mono (awaited d')) ?_
      (completions ▸ rfl) fun hk => ?_
    · exact (executions_congr executes).le
    · exact dismissing_add.2 ((dismissing_add.1 hk).imp_left (dismisses k))
  | await d' context target args =>
    obtain ⟨made, told⟩ := Shared.made_enqueueWaiting (d := d') h.made context target args
    exact h.fewer made (Shared.callsOf_enqueueWaiting_of_made h.made context target args) le_rfl told id
  | @take _ v j queues n fs pop =>
    have executes : executions
        ((.executing j :: .serving { v with executed := n } :: fs : List Frame) + others) k =
        (if j.completion = some k then 1 else 0) +
          executions ((.serving v :: fs : List Frame) + others) k := executions_push rfl rfl
    have dismisses : Dismissing
        ((.executing j :: .serving { v with executed := n } :: fs : List Frame) + others) k →
        Dismissing ((.serving v :: fs : List Frame) + others) k := fun due => by
      simpa [dismissing_cons] using due
    by_cases hk : j.completion = some k
    · -- The call goes from its queue into the hands of the loop.
      have waited := Dispatcher.mem_callsOf_of_waiting (Queues.mem_queue_pop pop).1 hk
      obtain ⟨rfl, rfl, none, gone⟩ := h.take pop hk
      obtain ⟨untold, keeps⟩ := h.untold (Nat.add_pos_left (Multiset.card_pos_iff_exists_mem.2 ⟨_, waited⟩) _)
      refine ⟨h.made, fun d' j' hj => ?_, ?_, fun _ => ⟨untold, fun due => keeps (dismisses due)⟩⟩
      · rw [gone] at hj
        exact absurd hj (Multiset.notMem_zero j')
      · rw [executes, gone, none, if_pos hk]
        exact le_rfl
    · refine h.fewer h.made (fun d₁ => ?_) ?_ rfl dismisses
      · rw [Shared.callsOf_take (k := k) pop d₁]
        exact Multiset.le_add_left _ _
      · rw [executes, if_neg hk, Nat.zero_add]
  | @deliver _ j fs =>
    have executes : executions ((.executing j :: fs : List Frame) + others) k =
        (if j.completion = some k then 1 else 0) +
          executions ((.releasing j.held .nothing :: fs : List Frame) + others) k := executions_pop rfl
    cases hj : j.completion with
    | none =>
      rw [hj, if_neg nofun, Nat.zero_add] at executes
      refine h.fewer h.made (fun _ => le_rfl) executes.ge rfl fun due => ?_
      simpa [dismissing_cons, hj] using due
    | some k' =>
      have made : k < (s.complete k' .delivered).completions.length := by
        rw [Shared.length_complete]
        exact h.made
      by_cases e : k' = k
      · rw [hj, if_pos (congrArg some e)] at executes
        have once := h.once
        have none : (s.dispatcher d).callsOf k = 0 := Multiset.card_eq_zero.1 (by omega)
        exact .of_over made (h.calls_eq_zero none) (by omega)
      · rw [hj, if_neg fun same => e (Option.some.inj same), Nat.zero_add] at executes
        refine h.fewer made (fun _ => le_rfl) executes.ge ?_ fun due => ?_
        · exact (Shared.getElem?_complete k k' _).trans (if_neg e)
        · simpa [dismissing_cons, hj, Ne.symm e] using due
  | @dismiss _ k' held reply fs =>
    have made : k < (s.complete k' .dropped).completions.length := by
      rw [Shared.length_complete]
      exact h.made
    have executes : executions ((.releasing held reply :: fs : List Frame) + others) k =
        executions ((.releasing (.completion k' :: held) reply :: fs : List Frame) + others) k :=
      executions_congr rfl
    by_cases e : k' = k
    · subst e
      obtain ⟨calls, none⟩ := h.nowhere (.inl (dismissing_cons.2 (.inl List.mem_cons_self)))
      exact .of_over made calls (executes.trans none)
    · refine h.fewer made (fun _ => le_rfl) executes.le ?_ fun due => ?_
      · exact (Shared.getElem?_complete k k' _).trans (if_neg e)
      · exact dismissing_cons.2 ((dismissing_cons.1 due).imp_left mem_dismisses_cons)

theorem single_closes (closes : Closes (s, old) (s', new)) (h : Single s (old + others) k d i) :
    Single s' (new + others) k d i := by
  cases closes with
  | @intro _ d' held reply fs last =>
    have executes : executions
        ((.releasing ((s.dispatcher d').held ++ held) reply :: fs : List Frame) + others) k =
        executions ((.releasing (.dispatcher d' :: held) reply :: fs : List Frame) + others) k :=
      executions_congr rfl
    by_cases waited : ∃ j, j ∈ (s.dispatcher d').callsOf k
    · obtain ⟨j, hj⟩ := waited
      obtain ⟨rfl, rfl⟩ := h.only d' j hj
      have some : 0 < ((s.dispatcher d').callsOf k).card := Multiset.card_pos_iff_exists_mem.2 ⟨j, hj⟩
      have once := h.once
      refine .of_over h.made (fun d₁ => ?_) (by omega)
      rw [Shared.callsOf_close last]
      split
      · rfl
      · rename_i ne
        exact Multiset.eq_zero_of_forall_notMem fun j' hj' => ne (h.only d₁ j' hj').1
    · refine h.fewer h.made (fun d₁ => ?_) executes.le rfl fun due => ?_
      · rw [Shared.callsOf_close last]
        split
        · exact Multiset.zero_le _
        · exact le_rfl
      · refine dismissing_cons.2 ((dismissing_cons.1 due).imp_left fun hk => ?_)
        rw [Frame.dismisses_releasing, List.filterMap_append, List.mem_append] at hk
        rcases hk with hk | hk
        · obtain ⟨target, hk⟩ := Dispatcher.awaits_of_mem_held hk
          exact absurd (Dispatcher.exists_mem_callsOf hk) waited
        · exact mem_dismisses_cons hk

theorem kept_single (k : CompletionId) (d : DispatcherId) (i : Invocation) :
    Kept fun s fs => Single s fs k d i where
  turn s s' old new others turn _ _ h := by
    rcases turn.work_or_closes with work | closes
    · exact single_work work h
    · exact single_closes closes h
  skip s s' old new others skips h := by
    cases skips with
    | @intro _ v j queues n now pop gone =>
      have executes : executions ((.releasing j.held .nothing :: .serving { v with executed := n } ::
          [] : List Frame) + others) k = executions (([.serving v] : List Frame) + others) k :=
        executions_congr rfl
      by_cases hk : j.completion = some k
      · obtain ⟨-, -, none, calls⟩ := h.take pop hk
        exact .of_over h.made calls (executes.trans none)
      · refine h.fewer h.made (fun d₁ => ?_) executes.le rfl fun due => ?_
        · rw [Shared.callsOf_take (k := k) pop d₁]
          exact Multiset.le_add_left _ _
        · simp only [dismissing_cons, Frame.dismisses_releasing, j.filterMap_completion?_held,
            Option.mem_toList, Frame.dismisses_serving, List.not_mem_nil, false_or] at due ⊢
          exact due.resolve_left hk
  connect s s' fs connects h := by
    cases connects with
    | @link d' c opened admits =>
      refine h.fewer h.made (fun d₁ => ?_) le_rfl rfl id
      exact Dispatcher.callsOf_mono (Shared.awaited_setDispatcher (Dispatcher.queues_link _ c) d₁).le

/-- A call that was just put into a queue for a caller that will wait. -/
theorem single_enqueueWaiting {context : Context} {target : Target} {args : List Variant}
    (bounded : Bounded s (old + others))
    (executes : new.flatMap (·.executes) = old.flatMap (·.executes))
    (dismisses : new.flatMap (·.dismisses) = old.flatMap (·.dismisses)) :
    Single (s.enqueueWaiting d context target args).2 (new + others) s.completions.length d
      { target, args, completion := some s.completions.length } := by
  -- The completion is new, so nothing awaits it yet and no frame has it.
  have unused : ∀ d', (s.dispatcher d').callsOf s.completions.length = 0 := fun d' =>
    Multiset.eq_zero_of_forall_notMem fun j hj =>
      absurd (bounded.awaited d' _ _ (Dispatcher.awaits_of_mem_callsOf hj)) (Nat.lt_irrefl _)
  have calls : ∀ d', ((s.enqueueWaiting d context target args).2.dispatcher d').callsOf
      s.completions.length ≤ if d' = d then
        {{ target, args, completion := some s.completions.length }} else 0 := by
    intro d'
    refine (Shared.callsOf_enqueueWaiting context target args d').trans_eq ?_
    simp [unused d']
  have none : executions (new + others) s.completions.length = 0 :=
    (executions_congr executes).trans (Frame.executions_eq_zero_iff.2 fun hk =>
      absurd (bounded.executed _ hk) (Nat.lt_irrefl _))
  refine ⟨?_, fun d' j hj => ?_, ?_, fun _ => ⟨?_, fun hk => ?_⟩⟩
  · rw [Shared.completions_enqueueWaiting, List.length_append]
    exact Nat.lt_succ_self _
  · have among := Multiset.mem_of_le (calls d') hj
    split at among
    · rename_i e
      exact ⟨e, Multiset.mem_singleton.1 among⟩
    · exact absurd among (Multiset.notMem_zero j)
  · have one := Multiset.card_le_card (calls d)
    rw [if_pos rfl, Multiset.card_singleton] at one
    omega
  · rw [Shared.completions_enqueueWaiting, List.getElem?_concat_length]
  · rw [dismissing_add, dismisses, ← dismissing_add] at hk
    exact absurd (bounded.dismissed _ hk) (Nat.lt_irrefl _)

/-! ## What callers are told -/

theorem Shared.told_complete {c c' : Completion} (told : s.completions[k]? = some (some c))
    (k' : CompletionId) : (s.complete k' c').completions[k]? = some (some c) := by
  rw [getElem?_complete, told]
  split <;> rfl

/-- What a caller is told is final. -/
theorem kept_told (k : CompletionId) (c : Completion) :
    Kept fun s _ => s.completions[k]? = some (some c) where
  turn s s' old new others turn _ _ told := by
    rcases turn.work_or_closes with work | closes
    · cases work with
      | idle awaited completions => exact completions ▸ told
      | await d context target args =>
        rw [Shared.completions_enqueueWaiting,
          List.getElem?_append_left (List.getElem?_eq_some_iff.1 told).1]
        exact told
      | take => exact told
      | @deliver _ j fs =>
        cases j.completion with
        | none => exact told
        | some k' => exact Shared.told_complete told k'
      | dismiss => exact Shared.told_complete told _
    · cases closes with
      | intro => exact told
  skip s s' old new others skips told := by
    cases skips with
    | intro => exact told
  connect s s' fs connects told := by
    cases connects with
    | link => exact told

/-- A call is not in a queue or in the hands of a frame that executes it, and its caller was not told
that it was made. -/
structure GivenUp (s : Shared) (fs : Multiset Frame) (k : CompletionId) : Prop where
  made : k < s.completions.length
  calls : ∀ d, (s.dispatcher d).callsOf k = 0
  executes : executions fs k = 0
  undelivered : s.completions[k]? ≠ some (some .delivered)

namespace GivenUp

/-- A call that is given up is not in the queue from which another one is taken. -/
theorem of_pop (h : GivenUp s fs k)
    (pop : (s.dispatcher d').queues.pop? q = some (.work j, queues)) : j.completion ≠ some k := by
  intro hk
  have waited := Dispatcher.mem_callsOf_of_waiting (Queues.mem_queue_pop pop).1 hk
  rw [h.calls] at waited
  exact Multiset.notMem_zero j waited

theorem fewer (h : GivenUp s fs k) (made : k < s'.completions.length)
    (calls : ∀ d, (s'.dispatcher d).callsOf k ≤ (s.dispatcher d).callsOf k)
    (executes : executions fs' k ≤ executions fs k)
    (undelivered : s'.completions[k]? ≠ some (some .delivered)) : GivenUp s' fs' k where
  made := made
  calls d := Multiset.le_zero.1 (h.calls d ▸ calls d)
  executes := Nat.le_zero.1 (h.executes ▸ executes)
  undelivered := undelivered

end GivenUp

theorem givenUp_work (work : Work (s, old) (s', new)) (h : GivenUp s (old + others) k) :
    GivenUp s' (new + others) k := by
  cases work with
  | idle awaited completions executes dismisses =>
    exact h.fewer (completions ▸ h.made) (fun d' => Dispatcher.callsOf_mono (awaited d'))
      (executions_congr executes).le (completions ▸ h.undelivered)
  | await d' context target args =>
    obtain ⟨made, told⟩ := Shared.made_enqueueWaiting (d := d') h.made context target args
    exact h.fewer made (Shared.callsOf_enqueueWaiting_of_made h.made context target args) le_rfl
      (told ▸ h.undelivered)
  | @take _ v j queues n fs pop =>
    refine h.fewer h.made (fun d₁ => ?_) ?_ h.undelivered
    · rw [Shared.callsOf_take (k := k) pop d₁]
      exact Multiset.le_add_left _ _
    · rw [executions_push (f := .serving v) rfl rfl, if_neg (h.of_pop pop), Nat.zero_add]
  | @deliver _ j fs =>
    -- The call that has ended is another one.
    have none := h.executes
    rw [executions_pop (g := .releasing j.held .nothing) rfl] at none
    obtain ⟨other, none⟩ := Nat.add_eq_zero_iff.1 none
    have other : j.completion ≠ some k := fun hk => by simp [hk] at other
    cases hj : j.completion with
    | none => exact ⟨h.made, h.calls, none, h.undelivered⟩
    | some k' =>
      refine ⟨?_, h.calls, none, ?_⟩
      · exact (Shared.length_complete k' _).symm ▸ h.made
      · have same := (Shared.getElem?_complete (s := s) k k' .delivered).trans
          (if_neg fun e => other (hj.trans (congrArg some e)))
        exact same ▸ h.undelivered
  | @dismiss _ k' held reply fs =>
    refine ⟨?_, h.calls, ?_, fun told => ?_⟩
    · exact (Shared.length_complete k' _).symm ▸ h.made
    · rw [← h.executes]
      exact executions_congr rfl
    · rw [Shared.getElem?_complete] at told
      split at told
      · obtain ⟨x, hx, told⟩ := Option.map_eq_some_iff.1 told
        cases x with
        | none => cases told
        | some c => exact h.undelivered (hx.trans (congrArg some told))
      · exact h.undelivered told

theorem kept_givenUp (k : CompletionId) : Kept fun s fs => GivenUp s fs k where
  turn s s' old new others turn _ _ h := by
    rcases turn.work_or_closes with work | closes
    · exact givenUp_work work h
    · cases closes with
      | @intro _ d' held reply fs last =>
        refine h.fewer h.made (fun d => ?_) (le_of_eq (executions_congr rfl)) h.undelivered
        rw [Shared.callsOf_close last]
        split
        · exact Multiset.zero_le _
        · exact le_rfl
  skip s s' old new others skips h := by
    cases skips with
    | @intro _ v j queues n now pop gone =>
      refine h.fewer h.made (fun d => ?_) (le_of_eq (executions_congr rfl)) h.undelivered
      rw [Shared.callsOf_take (k := k) pop d]
      exact Multiset.le_add_left _ _
  connect s s' fs connects h := by
    cases connects with
    | @link d' c opened admits =>
      refine h.fewer h.made (fun d => ?_) le_rfl h.undelivered
      exact Dispatcher.callsOf_mono (Shared.awaited_setDispatcher (Dispatcher.queues_link _ c) d).le

/-- A call that is taken from its queue and not executed is given up. -/
theorem Single.skip {v : Serving} {n now : Nat} (h : Single s (([.serving v] : List Frame) + others) k d i)
    (pop : (s.dispatcher v.dispatcher).queues.pop? v.loop.queue = some (.work j, queues))
    (hk : j.completion = some k) :
    GivenUp { s.setDispatcher v.dispatcher { s.dispatcher v.dispatcher with queues } with now }
      (([.releasing j.held .nothing, .serving { v with executed := n }] : List Frame) + others) k := by
  have waited := Dispatcher.mem_callsOf_of_waiting (Queues.mem_queue_pop pop).1 hk
  obtain ⟨rfl, rfl, none, gone⟩ := h.take pop hk
  obtain ⟨untold, -⟩ := h.untold (Nat.add_pos_left (Multiset.card_pos_iff_exists_mem.2 ⟨_, waited⟩) _)
  refine ⟨h.made, gone, ?_, fun told => ?_⟩
  · rw [← none]
    exact executions_congr rfl
  · cases untold.symm.trans told

end Reflection

import Reflection.Proofs.Machine.Order
/-!
# What callers are told for whom a call waits

A caller that waits for a call is told that it was given up only if the receiver was gone when the
call was taken from its queue (`tracked_move`), unless the dispatcher was closed meanwhile.
-/

namespace Reflection

open Relation (ReflTransGen)

variable {s s' : Shared} {d : DispatcherId} {k : CompletionId} {target : Target}
  {old new : List Frame} {others fs : Multiset Frame}

/-! ## Calls in the hands of frames -/

namespace Frame

/-- Some frame executes a call for which a caller waits. -/
def Executing (fs : Multiset Frame) (k : CompletionId) : Prop :=
  ∃ f ∈ fs, k ∈ f.executes

/-- Some frame will tell a caller that its call was given up. -/
def Dismissing (fs : Multiset Frame) (k : CompletionId) : Prop :=
  ∃ f ∈ fs, k ∈ f.dismisses

variable {fs : List Frame} {f : Frame}

theorem executing_add :
    Executing (fs + others) k ↔ k ∈ fs.flatMap (·.executes) ∨ Executing others k := by
  simp only [Executing, Multiset.mem_add, Multiset.mem_coe, or_and_right, exists_or,
    List.mem_flatMap]

theorem dismissing_add :
    Dismissing (fs + others) k ↔ k ∈ fs.flatMap (·.dismisses) ∨ Dismissing others k := by
  simp only [Dismissing, Multiset.mem_add, Multiset.mem_coe, or_and_right, exists_or,
    List.mem_flatMap]

theorem executing_cons :
    Executing ((f :: fs : List Frame) + others) k ↔ k ∈ f.executes ∨ Executing (fs + others) k := by
  rw [executing_add, executing_add, List.flatMap_cons, List.mem_append, or_assoc]

theorem dismissing_cons :
    Dismissing ((f :: fs : List Frame) + others) k ↔
      k ∈ f.dismisses ∨ Dismissing (fs + others) k := by
  rw [dismissing_add, dismissing_add, List.flatMap_cons, List.mem_append, or_assoc]

@[simp] theorem executes_serving (v : Serving) : (serving v).executes = [] := rfl

@[simp] theorem executes_releasing (held : List Held) (reply : Reply) :
    (releasing held reply).executes = [] := rfl

@[simp] theorem executes_executing (i : Invocation) :
    (executing i).executes = i.completion.toList := rfl

@[simp] theorem dismisses_executing (i : Invocation) : (executing i).dismisses = [] := rfl

@[simp] theorem dismisses_serving (v : Serving) : (serving v).dismisses = [] := rfl

@[simp] theorem dismisses_releasing (held : List Held) (reply : Reply) :
    (releasing held reply).dismisses = held.filterMap (·.completion?) := rfl

end Frame

open Reflection.Frame (Executing Dismissing executing_add dismissing_add executing_cons dismissing_cons)

/-! ## Turns -/

/-- The completions in the queues of a dispatcher are those of calls that wait there. -/
theorem Dispatcher.awaits_of_mem_held {x : Dispatcher} (h : k ∈ x.held.filterMap (·.completion?)) :
    ∃ target, x.Awaits k target := by
  rw [held, List.filterMap_append, List.mem_append] at h
  rcases h with h | h
  · obtain ⟨held, hh, hk⟩ := List.mem_filterMap.1 h
    obtain ⟨p, -, hp⟩ := List.mem_filterMap.1 hh
    obtain ⟨c, -, rfl⟩ := Option.map_eq_some_iff.1 hp
    cases hk
  · rw [List.filterMap_flatMap, List.mem_flatMap] at h
    obtain ⟨i, hi, hk⟩ := h
    rw [i.filterMap_completion?_held, Option.mem_toList] at hk
    obtain ⟨q, hq⟩ := Queues.mem_queue_of_mem_allWork hi
    exact ⟨i.target, q, i, hq, hk, rfl⟩

theorem Shared.awaited_setDispatcher {x : Dispatcher} (hx : x.queues = (s.dispatcher d).queues)
    (d' : DispatcherId) :
    ((s.setDispatcher d x).dispatcher d').awaited = (s.dispatcher d').awaited :=
  setDispatcher_rel (R := fun x y => y.awaited = x.awaited) (fun _ => rfl)
    (Dispatcher.awaited_of_queues hx) d'

theorem Shared.awaits_setDispatcher {d' : DispatcherId} {x : Dispatcher}
    (hx : x.queues = (s.dispatcher d).queues)
    (h : ((s.setDispatcher d x).dispatcher d').Awaits k target) :
    (s.dispatcher d').Awaits k target :=
  h.mono (awaited_setDispatcher hx d').le

/-- A dispatcher is closed. What waits in its queues is to be given up. -/
inductive Closes : Scope → Scope → Prop
  | intro {s : Shared} {d : DispatcherId} {held : List Held} {reply : Reply} {fs : List Frame}
      (last : s.handles d = 1) :
      Closes (s, .releasing (.dispatcher d :: held) reply :: fs)
        ((s.letGo (.dispatcher d)).2.setDispatcher d {},
          .releasing ((s.dispatcher d).held ++ held) reply :: fs)

/-- What a turn does to the calls for which callers wait. -/
theorem Turn.work_or_closes {a b : Scope} (turn : Turn a b) : Work a b ∨ Closes a b := by
  -- Most turns leave the calls in queues and in the hands of frames alone.
  have idle : ∀ {s s' : Shared} {old new : List Frame},
      (∀ d, (s'.dispatcher d).awaited = (s.dispatcher d).awaited) → s'.completions = s.completions →
      new.flatMap (·.executes) = old.flatMap (·.executes) →
      (∀ k ∈ new.flatMap (·.dismisses), k ∈ old.flatMap (·.dismisses)) →
      Work (s, old) (s', new) ∨ Closes (s, old) (s', new) :=
    fun awaited completions executes dismisses =>
      .inl (.idle (fun d => (awaited d).le) completions executes dismisses)
  have same : ∀ {s s' : Shared}, (∀ d, s'.dispatcher d = s.dispatcher d) →
      ∀ d, (s'.dispatcher d).awaited = (s.dispatcher d).awaited := fun same d => by rw [same]
  have set : ∀ {s : Shared} {d : DispatcherId} {x : Dispatcher}, x.queues = (s.dispatcher d).queues →
      ∀ d', ((s.setDispatcher d x).dispatcher d').awaited = (s.dispatcher d').awaited :=
    fun hx d' => Shared.awaited_setDispatcher hx d'
  cases turn with
  | work _ _ work => exact .inl work
  | @host s fs timeout =>
    refine idle (fun d => ?_) rfl rfl (fun _ h => h)
    rcases s.addDispatcher_views timeout d with ⟨-, -, e⟩ | ⟨-, -, -, e, -, -, e'⟩
    · rw [e]
    · rw [e, e']
      rfl
  | share => exact idle (same fun _ => Shared.dispatcher_share) rfl rfl (fun _ h => h)
  | disown => exact idle (same fun _ => Shared.dispatcher_disown) rfl rfl (fun _ h => h)
  | hold _ _ executes dismisses =>
    exact idle (same fun _ => Shared.dispatcher_retain _) rfl executes dismisses
  | release => exact idle (same fun _ => Shared.dispatcher_letGo _) rfl rfl (fun _ h => h)
  | close last => exact .inr (.intro last)
  | register opened registered =>
    obtain ⟨metaClass, instances, rfl⟩ := Shared.register_eq_ok registered
    exact idle (set rfl) rfl rfl (fun _ h => h)
  | cut d id => exact idle (set (Dispatcher.queues_disconnect _ id)) rfl rfl (fun _ h => h)
  | destroy begun => exact idle (set (Dispatcher.queues_beginDestroy begun)) rfl rfl (fun _ h => h)
  | sever => exact idle (set (Dispatcher.queues_sever _ _ _)) rfl rfl (fun _ h => h)
  | severed => exact idle (set rfl) rfl rfl (fun _ h => h)

/-! ## What the changes do to calls -/

namespace Shared

theorem completions_retainAll (held : List Held) :
    (s.retainAll held).completions = s.completions := by
  induction held generalizing s with
  | nil => rfl
  | cons h held ih => exact ih.trans (completions_retain h)

theorem dispatcher_retainAll (held : List Held) (d : DispatcherId) :
    (s.retainAll held).dispatcher d = s.dispatcher d := by
  induction held generalizing s with
  | nil => rfl
  | cons h held ih => exact ih.trans (dispatcher_retain h)

theorem completions_enqueueWaiting (context : Context) (args : List Variant) :
    (s.enqueueWaiting d context target args).2.completions = s.completions ++ [none] :=
  completions_retainAll _

/-- What is awaited after a call was put into a queue for which a caller waits. -/
theorem awaits_enqueueWaiting {context : Context} {args : List Variant} {d' : DispatcherId}
    {target' : Target}
    (h : ((s.enqueueWaiting d context target args).2.dispatcher d').Awaits k target') :
    (k = s.completions.length ∧ d' = d ∧ target' = target) ∨ (s.dispatcher d').Awaits k target' := by
  let i : Invocation := { target, args, completion := some s.completions.length }
  have set : (s.enqueueWaiting d context target args).2.dispatcher d' =
      (s.addCompletion.2.setDispatcher d ((s.dispatcher d).enqueue context i)).dispatcher d' :=
    dispatcher_retainAll _ _
  rw [set] at h
  rcases dispatcher_setDispatcher_or (s := s.addCompletion.2) (d := d) d'
    ((s.dispatcher d).enqueue context i) with e | ⟨rfl, e⟩
  · rw [e] at h
    exact .inr h
  · rw [e] at h
    rcases Dispatcher.awaits_enqueue h with ⟨hk, ht⟩ | h
    · exact .inl ⟨(Option.some.inj hk).symm, rfl, ht.symm⟩
    · exact .inr h

/-- Taking a call from a queue leaves the others there. -/
theorem awaits_take {q : QueueId} {item : QueueItem Invocation} {queues : Queues Invocation}
    (pop : (s.dispatcher d).queues.pop? q = some (item, queues)) {d' : DispatcherId}
    (h : ((s.setDispatcher d { s.dispatcher d with queues }).dispatcher d').Awaits k target) :
    (s.dispatcher d').Awaits k target := by
  refine setDispatcher_rel (R := fun x y => y.Awaits k target → x.Awaits k target) (fun _ h => h)
    ?_ d' h
  rintro ⟨q', i, hi, hk⟩
  exact ⟨q', i, (Queues.mem_queue_pop pop).2 q' _ hi, hk⟩

/-- A call that is taken from a queue waited there. -/
theorem awaits_of_pop {q : QueueId} {i : Invocation} {queues : Queues Invocation}
    (pop : (s.dispatcher d).queues.pop? q = some (.work i, queues)) (hk : i.completion = some k) :
    (s.dispatcher d).Awaits k i.target :=
  ⟨q, i, (Queues.mem_queue_pop pop).1, hk, rfl⟩

/-- Closing a dispatcher leaves nothing that waits there, and what waits elsewhere is left alone. -/
theorem awaits_close (last : s.handles d = 1) {d' : DispatcherId}
    (h : (((s.letGo (.dispatcher d)).2.setDispatcher d {}).dispatcher d').Awaits k target) :
    d' ≠ d ∧ (s.dispatcher d').Awaits k target := by
  by_cases e : d' = d
  · subst e
    rw [dispatcher_close (last ▸ Nat.one_pos)] at h
    exact absurd h Dispatcher.not_awaits_new
  · rw [dispatcher_setDispatcher_of_ne e, dispatcher_letGo] at h
    exact ⟨e, h⟩

theorem getElem?_complete (k k' : CompletionId) (c : Completion) :
    (s.complete k' c).completions[k]? =
      if k' = k then s.completions[k]?.map fun x => some (x.getD c) else s.completions[k]? := by
  rw [complete, List.getElem?_modify]
  split
  · rfl
  · cases s.completions[k]? <;> rfl

theorem length_complete (k : CompletionId) (c : Completion) :
    (s.complete k c).completions.length = s.completions.length :=
  List.length_modify ..

end Shared

/-! ## Completions are made before they are used -/

/-- Every completion that is awaited or in the hands of a frame was made. -/
structure Bounded (s : Shared) (fs : Multiset Frame) : Prop where
  awaited : ∀ d k target, (s.dispatcher d).Awaits k target → k < s.completions.length
  executed : ∀ k, Executing fs k → k < s.completions.length
  dismissed : ∀ k, Dismissing fs k → k < s.completions.length

theorem mem_dismisses_cons {h : Held} {held : List Held} {reply : Reply}
    (hk : k ∈ (Frame.releasing held reply).dismisses) :
    k ∈ (Frame.releasing (h :: held) reply).dismisses := by
  obtain ⟨h', hh, hk⟩ := List.mem_filterMap.1 hk
  exact List.mem_filterMap.2 ⟨h', List.mem_cons_of_mem _ hh, hk⟩

/-- Completions are not taken back, and what is awaited or in the hands of a frame was so before or
was made since. -/
theorem Bounded.of_subset {fs' : Multiset Frame} (h : Bounded s fs)
    (length : s.completions.length ≤ s'.completions.length)
    (awaited : ∀ d k target, (s'.dispatcher d).Awaits k target →
      k < s'.completions.length ∨ (s.dispatcher d).Awaits k target)
    (executed : ∀ k, Executing fs' k → k < s.completions.length ∨ Executing fs k)
    (dismissed : ∀ k, Dismissing fs' k → k < s.completions.length ∨ Dismissing fs k) :
    Bounded s' fs' where
  awaited d k target hk :=
    (awaited d k target hk).elim id fun hk => Nat.lt_of_lt_of_le (h.awaited d k target hk) length
  executed k hk := Nat.lt_of_lt_of_le ((executed k hk).elim id (h.executed k)) length
  dismissed k hk := Nat.lt_of_lt_of_le ((dismissed k hk).elim id (h.dismissed k)) length

theorem bounded_work (work : Work (s, old) (s', new)) (h : Bounded s (old + others)) :
    Bounded s' (new + others) := by
  cases work with
  | idle awaited completions executes dismisses =>
    refine h.of_subset (Nat.le_of_eq (completions ▸ rfl)) (fun d k target hk => .inr ?_)
      (fun k hk => .inr ?_) (fun k hk => .inr ?_)
    · exact hk.mono (awaited d)
    · exact executing_add.2 (executes ▸ executing_add.1 hk)
    · exact dismissing_add.2 ((dismissing_add.1 hk).imp_left (dismisses k))
  | await d context target args =>
    have grown : (s.enqueueWaiting d context target args).2.completions.length =
        s.completions.length + 1 := by
      rw [Shared.completions_enqueueWaiting, List.length_append, List.length_singleton]
    refine h.of_subset (grown ▸ Nat.le_succ _) (fun d' k target' hk => ?_) (fun _ hk => .inr hk)
      fun _ hk => .inr hk
    rcases Shared.awaits_enqueueWaiting hk with ⟨rfl, -, -⟩ | hk
    · exact .inl (grown ▸ Nat.lt_succ_self _)
    · exact .inr hk
  | @take _ v i queues n fs pop =>
    refine h.of_subset (Nat.le_refl _) (fun d k target hk => .inr (Shared.awaits_take pop hk))
      (fun k hk => ?_) (fun k hk => .inr ?_)
    · simp only [executing_cons, Frame.executes_executing, Option.mem_toList, Frame.executes_serving,
        List.not_mem_nil, false_or] at hk ⊢
      exact hk.imp_left fun hk => h.awaited _ _ _ (Shared.awaits_of_pop pop hk)
    · simpa [dismissing_cons] using hk
  | @deliver _ i fs =>
    have length : (i.completion.elim s fun k => s.complete k .delivered).completions.length =
        s.completions.length := by
      cases i.completion with
      | none => rfl
      | some k => exact Shared.length_complete k _
    refine h.of_subset (Nat.le_of_eq length.symm) (fun d k target hk => .inr ?_)
      (fun k hk => .inr ?_) (fun k hk => ?_)
    · cases hi : i.completion with
      | none =>
        rw [hi] at hk
        exact hk
      | some k' =>
        rw [hi] at hk
        exact hk
    · rw [executing_cons] at hk ⊢
      exact .inr (hk.resolve_left (List.not_mem_nil))
    · simp only [dismissing_cons, Frame.dismisses_releasing, i.filterMap_completion?_held,
        Frame.dismisses_executing, List.not_mem_nil, false_or] at hk ⊢
      exact hk.imp_left fun hk => h.executed k (executing_cons.2 (.inl hk))
  | @dismiss _ k' held reply fs =>
    refine h.of_subset (Nat.le_of_eq (Shared.length_complete k' _).symm) (fun _ _ _ hk => .inr hk)
      (fun k hk => .inr ?_) (fun k hk => .inr ?_)
    · simpa [executing_cons] using hk
    · exact dismissing_cons.2 ((dismissing_cons.1 hk).imp_left mem_dismisses_cons)

theorem bounded_closes (closes : Closes (s, old) (s', new)) (h : Bounded s (old + others)) :
    Bounded s' (new + others) := by
  cases closes with
  | @intro _ d held reply fs last =>
    refine h.of_subset (Nat.le_refl _) (fun d' k target hk => .inr ?_) (fun k hk => .inr ?_)
      (fun k hk => ?_)
    · exact (Shared.awaits_close last hk).2
    · simpa [executing_cons] using hk
    · simp only [dismissing_cons, Frame.dismisses_releasing, List.filterMap_append, List.mem_append,
        or_assoc] at hk ⊢
      rcases hk with hk | hk
      · obtain ⟨target, hk⟩ := Dispatcher.awaits_of_mem_held hk
        exact .inl (h.awaited d k target hk)
      · exact .inr hk

theorem kept_bounded : Kept Bounded where
  turn s s' old new others turn _ _ h := by
    rcases turn.work_or_closes with work | closes
    · exact bounded_work work h
    · exact bounded_closes closes h
  skip s s' old new others skips h := by
    cases skips with
    | @intro _ v i queues n now pop gone =>
      refine h.of_subset (Nat.le_refl _) (fun d k target hk => .inr (Shared.awaits_take pop hk))
        (fun k hk => .inr ?_) (fun k hk => ?_)
      · simp only [executing_cons, Frame.executes_releasing, Frame.executes_serving, List.not_mem_nil,
          false_or] at hk ⊢
        exact hk
      · simp only [dismissing_cons, Frame.dismisses_releasing, i.filterMap_completion?_held,
          Option.mem_toList, Frame.dismisses_serving, List.not_mem_nil, false_or] at hk ⊢
        exact hk.imp_left fun hk => h.awaited _ _ _ (Shared.awaits_of_pop pop hk)
  connect s s' fs connects h := by
    cases connects with
    | @link d c opened admits =>
      refine h.of_subset (Nat.le_refl _) (fun d' k target hk => .inr ?_) (fun _ hk => .inr hk)
        (fun _ hk => .inr hk)
      exact Shared.awaits_setDispatcher (Dispatcher.queues_link _ c) hk

/-! ## Given up calls -/

/-- A completion is that of a call of `target` at the dispatcher `d`, and whoever waits for it is told
that the call was given up only if `gone` holds. -/
structure Tracked (s : Shared) (fs : Multiset Frame) (k : CompletionId) (d : DispatcherId)
    (target : Target) (gone : Prop) : Prop where
  made : k < s.completions.length
  awaited : ∀ d' target', (s.dispatcher d').Awaits k target' → d' = d ∧ target' = target
  told : s.completions[k]? = some (some .dropped) → gone
  dismissed : Dismissing fs k → gone ∨ ∃ c, s.completions[k]? = some (some c)

variable {gone : Prop}

/-- A call that was just put into a queue for a caller that will wait. -/
theorem tracked_enqueueWaiting {context : Context} {args : List Variant}
    (bounded : Bounded s (old + others))
    (dismisses : new.flatMap (·.dismisses) = old.flatMap (·.dismisses)) :
    Tracked (s.enqueueWaiting d context target args).2 (new + others) s.completions.length d target
      gone := by
  -- The completion is new, so nothing awaits it yet and no frame has it.
  have unused : ∀ {p : Prop}, s.completions.length < s.completions.length → p := fun lt =>
    absurd lt (Nat.lt_irrefl _)
  refine ⟨?_, fun d' target' hk => ?_, fun told => ?_, fun hk => ?_⟩
  · rw [Shared.completions_enqueueWaiting, List.length_append]
    exact Nat.lt_succ_self _
  · rcases Shared.awaits_enqueueWaiting hk with ⟨-, same⟩ | hk
    · exact same
    · exact unused (bounded.awaited d' _ target' hk)
  · rw [Shared.completions_enqueueWaiting, List.getElem?_concat_length] at told
    cases told
  · rw [dismissing_add, dismisses, ← dismissing_add] at hk
    exact unused (bounded.dismissed _ hk)

/-- A caller is told how its call ended. -/
theorem Tracked.complete {fs' : Multiset Frame} (h : Tracked s fs k d target gone) {k' : CompletionId}
    {c : Completion} (untold : k' = k → c = .dropped → s.completions[k]? = some none → gone)
    (dismissed : Dismissing fs' k → k = k' ∨ Dismissing fs k) :
    Tracked (s.complete k' c) fs' k d target gone := by
  refine ⟨?_, h.awaited, fun told => ?_, fun hk => ?_⟩
  · rw [Shared.length_complete]
    exact h.made
  · rw [Shared.getElem?_complete] at told
    split at told
    · rename_i e
      obtain ⟨x, hx, told⟩ := Option.map_eq_some_iff.1 told
      cases x with
      | none => exact untold e (Option.some.inj told) hx
      | some c' =>
        refine h.told ?_
        rw [hx, ← told]
        rfl
    · exact h.told told
  · rw [Shared.getElem?_complete]
    split
    · rw [List.getElem?_eq_getElem h.made]
      exact .inr ⟨_, rfl⟩
    · rename_i ne
      exact h.dismissed ((dismissed hk).resolve_left (Ne.symm ne))

theorem tracked_work (work : Work (s, old) (s', new))
    (h : Tracked s (old + others) k d target gone) : Tracked s' (new + others) k d target gone := by
  cases work with
  | idle awaited completions executes dismisses =>
    refine ⟨completions ▸ h.made, fun d' target' hk => h.awaited d' target' (hk.mono (awaited d')),
      completions ▸ h.told, fun hk => completions ▸ h.dismissed ?_⟩
    exact dismissing_add.2 ((dismissing_add.1 hk).imp_left (dismisses k))
  | await d' context target' args =>
    have old : (s.enqueueWaiting d' context target' args).2.completions[k]? = s.completions[k]? := by
      rw [Shared.completions_enqueueWaiting, List.getElem?_append_left h.made]
    refine ⟨?_, fun d'' target'' hk => ?_, old ▸ h.told, old ▸ h.dismissed⟩
    · rw [Shared.completions_enqueueWaiting, List.length_append]
      exact Nat.lt_add_right _ h.made
    · rcases Shared.awaits_enqueueWaiting hk with ⟨rfl, -⟩ | hk
      · exact absurd h.made (Nat.lt_irrefl _)
      · exact h.awaited d'' target'' hk
  | take pop =>
    refine ⟨h.made, fun d' target' hk => h.awaited d' target' (Shared.awaits_take pop hk), h.told,
      fun hk => h.dismissed ?_⟩
    simpa [dismissing_cons] using hk
  | @deliver _ i fs =>
    cases hi : i.completion with
    | none =>
      refine ⟨h.made, h.awaited, h.told, fun hk => h.dismissed ?_⟩
      simpa [dismissing_cons, hi] using hk
    | some k' =>
      refine h.complete nofun fun hk => ?_
      simpa [dismissing_cons, hi] using hk
  | @dismiss _ k' held reply fs =>
    refine h.complete ?_ fun hk => ?_
    · rintro rfl - untold
      have due : Dismissing ((.releasing (.completion k' :: held) reply :: fs : List Frame) + others) k' :=
        dismissing_cons.2 (.inl List.mem_cons_self)
      -- A call that is dismissed before its caller was told had a target that was gone.
      rcases h.dismissed due with gone | ⟨c, told⟩
      · exact gone
      · rw [untold] at told
        cases told
    · exact .inr (dismissing_cons.2 ((dismissing_cons.1 hk).imp_left mem_dismisses_cons))

theorem tracked_closes (closes : Closes (s, old) (s', new))
    (h : Tracked s (old + others) k d target gone) :
    s'.Closed d ∨ Tracked s' (new + others) k d target gone := by
  cases closes with
  | @intro _ d' held reply fs last =>
    by_cases e : d' = d
    · subst e
      exact .inl (Shared.closed_close last _)
    · refine .inr ⟨h.made, fun d'' target' hk => h.awaited d'' target' (Shared.awaits_close last hk).2,
        h.told, fun hk => h.dismissed ?_⟩
      rcases dismissing_cons.1 hk with hk | hk
      · rw [Frame.dismisses_releasing, List.filterMap_append, List.mem_append] at hk
        rcases hk with hk | hk
        · obtain ⟨target', hk⟩ := Dispatcher.awaits_of_mem_held hk
          -- The call waits at `d`, and another dispatcher is closed.
          exact absurd (h.awaited d' target' hk).1 e
        · exact dismissing_cons.2 (.inl (mem_dismisses_cons hk))
      · exact dismissing_cons.2 (.inr hk)

/-- A call for which nobody was told yet that it was given up stays tracked, as long as its dispatcher
is not closed. -/
theorem keptByTurns_tracked (k : CompletionId) (d : DispatcherId) (target : Target) (gone : Prop) :
    KeptByTurns fun s fs => s.Closed d ∨ Tracked s fs k d target gone := by
  intro s s' old new others turn _ _ h
  rcases h with closed | tracked
  · exact .inl (closed_turn turn closed)
  · rcases turn.work_or_closes with work | closes
    · exact .inr (tracked_work work tracked)
    · exact tracked_closes closes tracked

/-- The target of a call is gone: its receiver is not active any more, or nobody has a reference to
the receiver any more. -/
def Shared.IsGone (s : Shared) (d : DispatcherId) (target : Target) : Prop :=
  ∃ o, target.receiver? = some o ∧
    ∀ reg, (s.dispatcher d).active? o = some reg → ¬ s.isAlive reg.owner

theorem Shared.isGone_of_callee {args : List Variant} (h : s.callee d target args = .gone) :
    s.IsGone d target := by
  cases target with
  | callback context number => cases h
  | method o index =>
    refine ⟨o, rfl, fun reg hr alive => ?_⟩
    simp only [callee, hr, alive, Bool.not_true, Bool.false_eq_true, if_false] at h
    split at h <;> cases h

/-- Giving up a call for which a caller waits means that its target is gone. -/
theorem tracked_skips (skips : Skips (s, old) (s', new))
    (h : Tracked s (old + others) k d target gone) :
    Tracked s' (new + others) k d target (gone ∨ s.IsGone d target) := by
  cases skips with
  | @intro _ v i queues n now pop callee =>
    refine ⟨h.made, fun d' target' hk => h.awaited d' target' (Shared.awaits_take pop hk),
      fun told => .inl (h.told told), fun hk => ?_⟩
    simp only [dismissing_cons, Frame.dismisses_releasing, i.filterMap_completion?_held,
      Option.mem_toList, Frame.dismisses_serving, List.not_mem_nil, false_or] at hk
    rcases hk with hk | hk
    · obtain ⟨rfl, rfl⟩ := h.awaited _ _ (Shared.awaits_of_pop pop hk)
      exact .inl (.inr (Shared.isGone_of_callee callee))
    · exact (h.dismissed (dismissing_cons.2 (.inr hk))).imp_left .inl

theorem Tracked.mono {gone' : Prop} (h : Tracked s fs k d target gone) (imp : gone → gone') :
    Tracked s fs k d target gone' :=
  ⟨h.made, h.awaited, fun told => imp (h.told told), fun hk => (h.dismissed hk).imp_left imp⟩

theorem tracked_connects (connects : Connects s s') (h : Tracked s fs k d target gone) :
    Tracked s' fs k d target gone := by
  cases connects with
  | @link d' c opened admits =>
    refine ⟨h.made, fun d'' target' hk => h.awaited d'' target' ?_, h.told, h.dismissed⟩
    exact Shared.awaits_setDispatcher (Dispatcher.queues_link _ c) hk

/-- After any move whoever waits is told that the call was given up only if it was told so before or
the target was gone just then, unless the dispatcher is closed. -/
theorem tracked_move {m : Machine} (sound : ∀ f ∈ m.frames, f.Sound)
    (h : m.shared.Closed d ∨ Tracked m.shared m.frames k d target gone) (a : Machine.Move) :
    (m.move a).shared.Closed d ∨ Tracked (m.move a).shared (m.move a).frames k d target
      (gone ∨ m.shared.IsGone d target) := by
  have effect := Machine.effect_move sound a
  rcases h with closed | tracked
  · exact .inl ((kept_closed d).effect effect closed)
  · cases effect with
    | turns keeps =>
      exact (keeps _ (keptByTurns_tracked k d target gone) (.inr tracked)).imp_right (·.mono .inl)
    | skip skips before after =>
      rw [before] at tracked
      rw [after]
      exact .inr (tracked_skips skips tracked)
    | connect connects same =>
      rw [same]
      exact .inr ((tracked_connects connects tracked).mono .inl)

end Reflection

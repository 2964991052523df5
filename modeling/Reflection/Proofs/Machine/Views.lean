import Reflection.Machine
import Reflection.Proofs.Dispatcher.Views
/-!
# What runs are told by

Statements about runs look at what threads share through a few views: the handles of each dispatcher
and how many of them are the client's own, the objects' links and the connections, the calls that
wait, and what became of those for which a caller waits. A change that none of these views sees is
quiet (`Shared.Quiet`).
-/

namespace Reflection

namespace Shared

/-! ## Views -/

/-- The number of handles of a dispatcher. -/
def handles (s : Shared) (d : DispatcherId) : Nat :=
  (s.dispatchers[d]?.map (·.handles)).getD 0

/-- The number of handles of a dispatcher that client code has. -/
def owned (s : Shared) (d : DispatcherId) : Nat :=
  (s.dispatchers[d]?.map (·.owned)).getD 0

theorem isOpen_iff {s : Shared} {d : DispatcherId} : s.isOpen d ↔ 0 < s.handles d := by
  rw [isOpen, handles]
  cases s.dispatchers[d]? with
  | none => simp
  | some h => simp [Nat.pos_iff_ne_zero]

theorem owned_of_isOwned {s : Shared} {d : DispatcherId} (h : s.isOwned d) : 0 < s.owned d := by
  rw [isOwned] at h
  rw [owned]
  cases hx : s.dispatchers[d]? with
  | none => simp [hx] at h
  | some x =>
    rw [hx, Option.any_some] at h
    exact Nat.lt_of_le_of_lt (Nat.zero_le _) (of_decide_eq_true h)

/-- There is a dispatcher of this number if it has a handle. -/
theorem getElem?_of_handles {s : Shared} {d : DispatcherId} (h : 0 < s.handles d) :
    ∃ x, s.dispatchers[d]? = some x := by
  rw [handles] at h
  cases hx : s.dispatchers[d]? with
  | none => simp [hx] at h
  | some x => exact ⟨x, rfl⟩

/-- Changes neither handles nor links nor connections. -/
structure Alike (s s' : Shared) : Prop where
  handles : ∀ d, s'.handles d = s.handles d
  owned : ∀ d, s'.owned d = s.owned d
  dispatcher : ∀ d, (s.dispatcher d).Alike (s'.dispatcher d)
  size : s'.dispatchers.length = s.dispatchers.length

theorem Alike.trans {s s' s'' : Shared} (h : s.Alike s') (h' : s'.Alike s'') : s.Alike s'' :=
  ⟨fun d => (h'.handles d).trans (h.handles d), fun d => (h'.owned d).trans (h.owned d),
    fun d => (h.dispatcher d).trans (h'.dispatcher d), h'.size.trans h.size⟩

/-- A change that no view sees. -/
structure Quiet (s s' : Shared) : Prop where
  handles : ∀ d, s'.handles d = s.handles d
  owned : ∀ d, s'.owned d = s.owned d
  dispatcher : ∀ d, (s.dispatcher d).Quiet (s'.dispatcher d)
  size : s'.dispatchers.length = s.dispatchers.length
  completions : s'.completions = s.completions

theorem Quiet.alike {s s' : Shared} (h : s.Quiet s') : s.Alike s' :=
  ⟨h.handles, h.owned, fun d => (h.dispatcher d).toAlike, h.size⟩

theorem Quiet.refl (s : Shared) : s.Quiet s :=
  ⟨fun _ => rfl, fun _ => rfl, fun _ => .refl _, rfl, rfl⟩

theorem Quiet.trans {s s' s'' : Shared} (h : s.Quiet s') (h' : s'.Quiet s'') : s.Quiet s'' :=
  ⟨fun d => (h'.handles d).trans (h.handles d), fun d => (h'.owned d).trans (h.owned d),
    fun d => (h.dispatcher d).trans (h'.dispatcher d), h'.size.trans h.size,
    h'.completions.trans h.completions⟩

/-! ## What the changes do to the views -/

variable {s : Shared} {d d' : DispatcherId}

/-- A view of dispatchers is kept if it is kept for the one that changes. -/
theorem map_modify_of_eq {β : Type} {l : List Hosted} {f : Hosted → Hosted} {g : Hosted → β}
    (h : ∀ x, g (f x) = g x) : (l.modify d f)[d']?.map g = l[d']?.map g := by
  rw [List.getElem?_modify]
  cases l[d']? with
  | none => rfl
  | some x =>
    show some (g (if d = d' then f x else x)) = some (g x)
    split
    · rw [h]
    · rfl

@[simp] theorem handles_setDispatcher (x : Dispatcher) :
    (s.setDispatcher d x).handles d' = s.handles d' :=
  congrArg (Option.getD · 0) (map_modify_of_eq fun _ => rfl)

@[simp] theorem owned_setDispatcher (x : Dispatcher) :
    (s.setDispatcher d x).owned d' = s.owned d' :=
  congrArg (Option.getD · 0) (map_modify_of_eq fun _ => rfl)

@[simp] theorem completions_setDispatcher (x : Dispatcher) :
    (s.setDispatcher d x).completions = s.completions := rfl

@[simp] theorem size_setDispatcher (x : Dispatcher) :
    (s.setDispatcher d x).dispatchers.length = s.dispatchers.length :=
  List.length_modify ..

/-- Setting a dispatcher sets no other, and does nothing if there is none of this number. -/
theorem dispatcher_setDispatcher_or (d' : DispatcherId) (x : Dispatcher) :
    (s.setDispatcher d x).dispatcher d' = s.dispatcher d' ∨
      (d' = d ∧ (s.setDispatcher d x).dispatcher d' = x) := by
  show Option.getD (Option.map _ ((s.dispatchers.modify d _)[d']?)) _ = _ ∨ _
  rw [dispatcher, dispatcher, setDispatcher, List.getElem?_modify]
  cases s.dispatchers[d']? with
  | none => exact .inl rfl
  | some h =>
    by_cases e : d = d'
    · exact .inr ⟨e.symm, by simp [e]⟩
    · exact .inl (by simp [e])

theorem dispatcher_setDispatcher_of_ne (ne : d' ≠ d) (x : Dispatcher) :
    (s.setDispatcher d x).dispatcher d' = s.dispatcher d' := by
  rcases dispatcher_setDispatcher_or d' x with h | ⟨e, -⟩
  · exact h
  · exact absurd e ne

theorem dispatcher_setDispatcher_of_lt (known : d < s.dispatchers.length) (x : Dispatcher) :
    (s.setDispatcher d x).dispatcher d = x := by
  simp [dispatcher, setDispatcher, known]

theorem dispatcher_setDispatcher (h : 0 < s.handles d) (x : Dispatcher) :
    (s.setDispatcher d x).dispatcher d = x := by
  obtain ⟨y, hy⟩ := getElem?_of_handles h
  exact dispatcher_setDispatcher_of_lt (List.getElem?_eq_some_iff.1 hy).1 x

/-- What holds between a dispatcher and itself and between it and its new state holds between all
dispatchers and theirs. -/
theorem setDispatcher_rel {R : Dispatcher → Dispatcher → Prop} (refl : ∀ y, R y y) {x : Dispatcher}
    (h : R (s.dispatcher d) x) (d' : DispatcherId) :
    R (s.dispatcher d') ((s.setDispatcher d x).dispatcher d') := by
  rcases dispatcher_setDispatcher_or (s := s) (d := d) d' x with e | ⟨rfl, e⟩
  · rw [e]
    exact refl _
  · rw [e]
    exact h

theorem quiet_setDispatcher {x : Dispatcher} (h : (s.dispatcher d).Quiet x) :
    s.Quiet (s.setDispatcher d x) :=
  ⟨fun _ => handles_setDispatcher x, fun _ => owned_setDispatcher x, setDispatcher_rel .refl h,
    size_setDispatcher x, rfl⟩

/-- A change of the queues after which nothing new waits is not seen. -/
theorem quiet_modifyQueues {f : Queues Invocation → Queues Invocation}
    (h : (f (s.dispatcher d).queues).works ≤ (s.dispatcher d).queues.works) :
    s.Quiet (s.modifyQueues d f) :=
  quiet_setDispatcher (Dispatcher.quiet_queues _ h)

/-- Changing the queues changes neither handles nor links nor connections. -/
theorem alike_take (queues : Queues Invocation) :
    s.Alike (s.setDispatcher d { s.dispatcher d with queues }) :=
  ⟨fun _ => handles_setDispatcher _, fun _ => owned_setDispatcher _,
    setDispatcher_rel .refl ⟨rfl, rfl⟩, size_setDispatcher _⟩

/-! ### Holders -/

@[simp] theorem dispatcher_retain (h : Held) : (s.retain h).dispatcher d' = s.dispatcher d' := by
  cases h with
  | dispatcher d => exact congrArg (Option.getD · ({} : Dispatcher)) (map_modify_of_eq fun _ => rfl)
  | object i => rfl
  | callback c => rfl
  | completion k => rfl

@[simp] theorem signalOrder_retain (h : Held) : (s.retain h).signalOrder = s.signalOrder := by
  cases h <;> rfl

@[simp] theorem owned_retain (h : Held) : (s.retain h).owned d' = s.owned d' := by
  cases h with
  | dispatcher d => exact congrArg (Option.getD · 0) (map_modify_of_eq fun _ => rfl)
  | object i => rfl
  | callback c => rfl
  | completion k => rfl

@[simp] theorem completions_retain (h : Held) : (s.retain h).completions = s.completions := by
  cases h <;> rfl

@[simp] theorem size_retain (h : Held) :
    (s.retain h).dispatchers.length = s.dispatchers.length := by
  cases h with
  | dispatcher d => exact List.length_modify ..
  | object i => rfl
  | callback c => rfl
  | completion k => rfl

theorem handles_retain (h : 0 < s.handles d) :
    (s.retain (.dispatcher d)).handles d' = s.handles d' + if d = d' then 1 else 0 := by
  obtain ⟨x, hx⟩ := getElem?_of_handles h
  simp only [handles, retain, List.getElem?_modify]
  by_cases e : d = d'
  · subst e
    simp [hx]
  · simp [e]

/-- Holding something else than a dispatcher is not seen. -/
theorem quiet_retain {h : Held} (hh : ∀ d, h ≠ .dispatcher d) : s.Quiet (s.retain h) := by
  refine ⟨fun d => ?_, fun _ => owned_retain h, fun d => ?_, size_retain h, completions_retain h⟩
  · cases h with
    | dispatcher d => exact absurd rfl (hh d)
    | object i => rfl
    | callback c => rfl
    | completion k => rfl
  · rw [dispatcher_retain]
    exact .refl _

theorem quiet_retainAll {held : List Held} (hh : ∀ d, .dispatcher d ∉ held) :
    s.Quiet (s.retainAll held) := by
  induction held generalizing s with
  | nil => exact .refl s
  | cons h held ih =>
    have first : s.Quiet (s.retain h) :=
      quiet_retain fun d e => hh d (e ▸ List.mem_cons_self)
    exact first.trans (ih fun d hd => hh d (List.mem_cons_of_mem _ hd))

theorem quiet_letGo_object (i : InstanceId) : s.Quiet (s.letGo (.object i)).2 :=
  ⟨fun _ => rfl, fun _ => rfl, fun _ => .refl _, rfl, rfl⟩

theorem quiet_letGo_callback (c : CallbackId) : s.Quiet (s.letGo (.callback c)).2 :=
  ⟨fun _ => rfl, fun _ => rfl, fun _ => .refl _, rfl, rfl⟩

theorem handles_letGo (h : 0 < s.handles d) (d' : DispatcherId) :
    (s.letGo (.dispatcher d)).2.handles d' + (if d = d' then 1 else 0) = s.handles d' := by
  obtain ⟨x, hx⟩ := getElem?_of_handles h
  simp only [handles, letGo, List.getElem?_modify] at h ⊢
  by_cases e : d = d'
  · subst e
    simp only [hx, Option.map_some, Option.getD_some] at h
    simp [hx, Nat.sub_add_cancel h]
  · simp [e]

@[simp] theorem owned_letGo (h : Held) : (s.letGo h).2.owned d' = s.owned d' := by
  cases h with
  | dispatcher d => exact congrArg (Option.getD · 0) (map_modify_of_eq fun _ => rfl)
  | object i => rfl
  | callback c => rfl
  | completion k => rfl

@[simp] theorem dispatcher_letGo (h : Held) : (s.letGo h).2.dispatcher d' = s.dispatcher d' := by
  cases h with
  | dispatcher d => exact congrArg (Option.getD · ({} : Dispatcher)) (map_modify_of_eq fun _ => rfl)
  | object i => rfl
  | callback c => rfl
  | completion k => rfl

/-- A dispatcher whose handle was given back is set all the same. -/
theorem dispatcher_close (h : 0 < s.handles d) (x : Dispatcher) :
    ((s.letGo (.dispatcher d)).2.setDispatcher d x).dispatcher d = x := by
  obtain ⟨y, hy⟩ := getElem?_of_handles h
  simp [dispatcher, setDispatcher, letGo, hy]

/-- The last handle is given back if there is just one. -/
theorem letGo_last : (s.letGo (.dispatcher d)).1 ↔ s.handles d = 1 := by
  rw [letGo, handles]
  cases s.dispatchers[d]? with
  | none => simp
  | some h => simp

/-! ### Client code's handles -/

@[simp] theorem dispatcher_share : (s.share d).dispatcher d' = s.dispatcher d' :=
  congrArg (Option.getD · ({} : Dispatcher)) (map_modify_of_eq fun _ => rfl)

theorem handles_share (h : 0 < s.handles d) :
    (s.share d).handles d' = s.handles d' + if d = d' then 1 else 0 := by
  obtain ⟨x, hx⟩ := getElem?_of_handles h
  simp only [handles, share, List.getElem?_modify]
  by_cases e : d = d'
  · subst e
    simp [hx]
  · simp [e]

theorem owned_share (h : 0 < s.handles d) :
    (s.share d).owned d' = s.owned d' + if d = d' then 1 else 0 := by
  obtain ⟨x, hx⟩ := getElem?_of_handles h
  simp only [owned, share, List.getElem?_modify]
  by_cases e : d = d'
  · subst e
    simp [hx]
  · simp [e]

@[simp] theorem dispatcher_disown : (s.disown d).dispatcher d' = s.dispatcher d' :=
  congrArg (Option.getD · ({} : Dispatcher)) (map_modify_of_eq fun _ => rfl)

@[simp] theorem handles_disown : (s.disown d).handles d' = s.handles d' :=
  congrArg (Option.getD · 0) (map_modify_of_eq fun _ => rfl)

theorem owned_disown (h : 0 < s.owned d) (d' : DispatcherId) :
    (s.disown d).owned d' + (if d = d' then 1 else 0) = s.owned d' := by
  simp only [owned, disown, List.getElem?_modify] at h ⊢
  by_cases e : d = d'
  · subst e
    cases hx : s.dispatchers[d]? with
    | none => simp [hx] at h
    | some x =>
      simp only [hx, Option.map_some, Option.getD_some] at h
      simp [Nat.sub_add_cancel h]
  · simp [e]

theorem dispatcher_modify_loops (f : Hosted → Nat) :
    Shared.dispatcher
      { s with dispatchers := s.dispatchers.modify d fun h => { h with loops := f h } } d' =
      s.dispatcher d' :=
  congrArg (Option.getD · ({} : Dispatcher)) (map_modify_of_eq fun _ => rfl)

/-- Which of client code's handles loops have is not seen. -/
theorem quiet_modify_loops (f : Hosted → Nat) :
    s.Quiet { s with dispatchers := s.dispatchers.modify d fun h => { h with loops := f h } } := by
  refine ⟨fun d' => ?_, fun d' => ?_, fun d' => ?_, List.length_modify .., rfl⟩
  · exact congrArg (Option.getD · 0) (map_modify_of_eq fun _ => rfl)
  · exact congrArg (Option.getD · 0) (map_modify_of_eq fun _ => rfl)
  · rw [dispatcher_modify_loops]
    exact .refl _

theorem quiet_lend : s.Quiet (s.lend d) :=
  quiet_modify_loops (·.loops + 1)

theorem quiet_regain : s.Quiet (s.regain d) :=
  quiet_modify_loops (·.loops - 1)

@[simp] theorem dispatcher_lend : (s.lend d).dispatcher d' = s.dispatcher d' :=
  dispatcher_modify_loops (·.loops + 1)

@[simp] theorem dispatcher_regain : (s.regain d).dispatcher d' = s.dispatcher d' :=
  dispatcher_modify_loops (·.loops - 1)

/-- A new dispatcher is empty and has one handle, which is client code's; there was none of its
number. -/
theorem addDispatcher_views (timeout : Option Nat) (d' : DispatcherId) :
    let s' := (s.addDispatcher timeout).2
    (s'.handles d' = s.handles d' ∧ s'.owned d' = s.owned d' ∧ s'.dispatcher d' = s.dispatcher d') ∨
      (d' = s.dispatchers.length ∧ s.handles d' = 0 ∧ s.owned d' = 0 ∧ s.dispatcher d' = {} ∧
        s'.handles d' = 1 ∧ s'.owned d' = 1 ∧ s'.dispatcher d' = { timeout }) := by
  simp only [handles, owned, dispatcher, addDispatcher]
  rcases Nat.lt_trichotomy d' s.dispatchers.length with lt | rfl | gt
  · exact .inl (by simp [List.getElem?_append_left lt])
  · exact .inr (by simp)
  · have old : s.dispatchers[d']? = none := List.getElem?_eq_none (Nat.le_of_lt gt)
    have new : (s.dispatchers ++
        [{ dispatcher := { timeout }, handles := 1, owned := 1 }])[d']? = none :=
      List.getElem?_eq_none (by rw [List.length_append]; exact gt)
    exact .inl (by simp only [old, new, and_self])

/-- What registering an object does. -/
theorem register_eq_ok {i : InstanceId} {context : Context} {o : ObjectId} {s' : Shared}
    (h : s.register d i context = .ok (o, s')) :
    ∃ metaClass instances, s' =
      { s.setDispatcher d ((s.dispatcher d).register i metaClass context).2 with instances } := by
  unfold register at h
  split at h
  · cases h
  · split at h
    · cases h
    · split at h
      · cases h
      · rename_i c _
        cases h
        exact ⟨c, _, rfl⟩

end Shared
end Reflection

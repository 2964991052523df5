import Reflection.Proofs.Machine.ClientCode
import Reflection.Proofs.Machine.Emission
/-!
# Destroyed objects are gone for good

When client code is told that it has destroyed an object, the object is taken from its dispatcher, and
its id is not used again (`Gone`, `gone_of_completes`). An object is registered once in its life
(`Bound`), so no id leads to it any more, and whatever was due to call one of its methods finds it
gone: a delivery of an emission under way, a call that waits in a queue, or one that client code asks
for (`destroyed_is_final`). Only a method that another thread had called already, having found the object
active, may still begin there, since nothing is locked between the two
(`destroyed_bell_hears_what_was_called`).
-/

namespace Reflection

namespace Dispatcher

variable {x y : Dispatcher} {o sender receiver : ObjectId}

/-- An object was registered under an id, and nothing is found under it again. -/
structure Gone (x : Dispatcher) (o : ObjectId) : Prop where
  issued : x.objects.Issued o
  object : x.object? o = none

theorem Gone.ages (h : x.Gone o) (ages : x.Ages y) : y.Gone o := by
  refine ⟨ages.issued o h.issued, Option.eq_none_iff_forall_ne_some.2 fun r hr => ?_⟩
  have stands : y.identity? o = some r.identity := identity?_eq_some_iff.2 ⟨r, hr, rfl⟩
  obtain ⟨r', hr', -⟩ := identity?_eq_some_iff.1 (ages.identity o _ h.issued stands)
  rw [h.object] at hr'
  cases hr'

/-- The last step of a destruction takes the object away. -/
theorem gone_endDestroy {r : Registration} (hr : x.object? o = some r) : (x.endDestroy o).Gone o := by
  refine ⟨(issued_of_object? hr).erase o, ?_⟩
  rw [object?, endDestroy, Arena.get?_erase, if_pos rfl]

/-! ## What is gone -/

theorem Gone.state (h : x.Gone o) : x.state o = .destroyed := by
  rw [Dispatcher.state, h.object]
  rfl

theorem Gone.active? (h : x.Gone o) : x.active? o = none := by
  rw [Dispatcher.active?, h.object]
  rfl

theorem Gone.endpoint (h : x.Gone o) (r : Registration) : x.endpoint o ≠ .ok r := by
  intro hr
  rw [endpoint_eq_ok_iff, h.object] at hr
  cases hr

/-- No connection is made with an object that is gone. -/
theorem Gone.connectByIndex (h : x.Gone o) (ends : sender = o ∨ receiver = o) (signal slot : Nat)
    (type : ConnectionType) : ∃ e, x.connectByIndex sender signal receiver slot type = .error e := by
  cases result : x.connectByIndex sender signal receiver slot type with
  | error e => exact ⟨e, rfl⟩
  | ok p =>
    simp only [Dispatcher.connectByIndex, bind_eq_ok_iff] at result
    obtain ⟨source, hs, destination, hd, -⟩ := result
    rcases ends with rfl | rfl
    · exact absurd hs (h.endpoint source)
    · exact absurd hd (h.endpoint destination)

theorem Gone.connect (h : x.Gone o) (ends : sender = o ∨ receiver = o) (signal slot : String)
    (type : ConnectionType) : ∃ e, x.connect sender signal receiver slot type = .error e := by
  cases result : x.connect sender signal receiver slot type with
  | error e => exact ⟨e, rfl⟩
  | ok p =>
    obtain ⟨i, j, made⟩ := connectByIndex_of_connect result
    obtain ⟨e, fails⟩ := h.connectByIndex ends i j type
    rw [fails] at made
    cases made

theorem Gone.connectCallback (h : x.Gone o) (signal : String) (context : Context)
    (callback : CallbackId) (type : ConnectionType) :
    ∃ e, x.connectCallback o signal context callback type = .error e := by
  cases result : x.connectCallback o signal context callback type with
  | error e => exact ⟨e, rfl⟩
  | ok p =>
    simp only [Dispatcher.connectCallback, bind_eq_ok_iff] at result
    obtain ⟨_, -, source, hs, -⟩ := result
    exact absurd hs (h.endpoint source)

/-- No connection leads from or to an object that is gone. -/
theorem Linked.end_ne_gone {severing : Multiset (ObjectId × List ConnectionId)}
    (linked : x.Linked severing) (h : x.Gone o) {id : ConnectionId} {c : Connection}
    (hc : x.connection? id = some c) : c.sender ≠ o ∧ c.target.receiver? ≠ some o :=
  linked.end_ne_of_none h.object hc

end Dispatcher

namespace Shared

variable {s s' : Shared} {d : DispatcherId} {o : ObjectId}

/-- An object was registered and cannot be found again. -/
def Gone (s : Shared) (d : DispatcherId) (o : ObjectId) : Prop :=
  s.Closed d ∨ (s.dispatcher d).Gone o

theorem Gone.later (h : s.Gone d o) (later : s.Later s') (closed : s.Closed d → s'.Closed d) :
    s'.Gone d o := by
  rcases h with gone | gone
  · exact .inl (closed gone)
  · rcases later.dispatcher d with ages | closed
    · exact .inr (gone.ages ages)
    · exact .inl closed

/-- As long as its dispatcher is not closed, the object is gone from it. -/
theorem Gone.dispatcher (h : s.Gone d o) (opened : 0 < s.handles d) : (s.dispatcher d).Gone o := by
  rcases h with closed | gone
  · exact absurd (closed.2 ▸ opened) (Nat.lt_irrefl 0)
  · exact gone

/-- A call that is made for an object that is gone finds it gone. -/
theorem callee_of_gone (gone : (s.dispatcher d).Gone o) (index : Nat) (args : List Variant) :
    s.callee d (.method o index) args = .gone := by
  rw [callee, gone.active?]

/-! ## Registrations -/

/-- What an id stands for is registered under it, as it knows itself. -/
def Bound (s : Shared) : Prop :=
  ∀ d o i c, (s.dispatcher d).identity? o = some (i, c) → s.binding? i = some (d, o)

theorem Bound.steady (h : s.Bound) (steady : s.Steady s') : s'.Bound := by
  intro d o i c hc
  rw [steady.dispatcher d] at hc
  exact steady.ages.binding i _ (h d o i c hc)

theorem Bound.setDispatcher (h : s.Bound) {x : Dispatcher}
    (identity : ∀ o p, x.identity? o = some p → (s.dispatcher d).identity? o = some p) :
    (s.setDispatcher d x).Bound := by
  intro d' o i c hc
  rcases dispatcher_setDispatcher_or (s := s) (d := d) d' x with e | ⟨rfl, e⟩
  · rw [e] at hc
    exact h d' o i c hc
  · rw [e] at hc
    exact h d' o i c (identity o _ hc)

/-- A method that is called is one of the object that the id of the receiver stands for. -/
theorem Bound.callee (h : s.Bound) {target : Target} {args args' : List Variant} {i : InstanceId}
    {m : MetaClass.Method} {held : List Held}
    (code : s.callee d target args = .code (.method i m args') held) :
    ∃ o index, target = .method o index ∧ args = args' ∧ s.binding? i = some (d, o) ∧
      (s.dispatcher d).object? o ≠ none := by
  unfold Shared.callee at code
  split at code
  · cases code
  · rename_i receiver index
    split at code
    · cases code
    · rename_i r hr
      obtain ⟨hr, -⟩ := Dispatcher.active?_eq_some_iff.1 hr
      split at code
      · cases code
      · split at code
        · cases code
        · cases code
          have stands := Dispatcher.identity?_eq_some_iff.2 ⟨r, hr, rfl⟩
          exact ⟨receiver, index, rfl, rfl, h d receiver _ _ stands,
            Option.ne_none_iff_exists'.2 ⟨r, hr⟩⟩

end Shared

variable {s₀ s s' : Shared} {th : Thread}

theorem Shared.Bound.change (h : s.Bound) (change : Change s₀ th s s') : s'.Bound := by
  cases change with
  | steady steady => exact h.steady steady
  | host timeout =>
    intro d o i c hc
    rcases s.addDispatcher_views timeout d with ⟨-, -, e⟩ | ⟨-, -, -, -, -, -, e⟩
    · rw [e] at hc
      exact h d o i c hc
    · rw [e] at hc
      cases hc
  | @register _ d i context o registered =>
    obtain ⟨metaClass, -, rfl, binding, steady⟩ := Shared.register_cases registered
    -- The new id stands for the object that was registered just now.
    intro d' o' i' c hc
    rw [steady.dispatcher d'] at hc
    rcases Shared.dispatcher_setDispatcher_or (s := s) (d := d) d'
      ((s.dispatcher d).register i metaClass context).2 with e | ⟨rfl, e⟩
    · rw [e] at hc
      exact steady.ages.binding i' _ (h d' o' i' c hc)
    · rw [e, Dispatcher.identity?_register] at hc
      split at hc
      · rename_i new
        cases hc
        rw [new]
        exact binding
      · exact steady.ages.binding i' _ (h d' o' i' c hc)
  | alter alters => exact h.setDispatcher alters.keeps.identity
  | @post d i context => exact h.setDispatcher ((s.dispatcher d).keeps_queues _).identity

theorem Shared.Bound.changes (h : s.Bound) (changes : Changes s₀ th s s') : s'.Bound := by
  induction changes with
  | refl => exact h
  | tail _ change ih => exact ih.change change

theorem Shared.Bound.outcome (h : s.Bound) {p : Shared × Thread} (outcome : Thread.Outcome s th p) :
    p.1.Bound := by
  cases outcome with
  | reaches reaches => exact h.changes reaches.changes
  | calls changes | begins changes => exact h.changes changes
  | @closes d last closed =>
    rw [closed]
    exact (h.steady (Shared.steady_letGo _)).setDispatcher fun _ _ hc => (nomatch hc)

namespace Machine

variable {r : Registry} {m : Machine} {t : Nat} {entry : Entry} {fs : List Frame} {d : DispatcherId}
  {o : ObjectId} {a : Action} {later : List Move} {answer : Answer}

theorem bound_move (h : m.shared.Bound) (a : Move) : (m.move a).shared.Bound := by
  rcases m.outcome_move a with e | e | ⟨order, e⟩ | ⟨t, th, s, th', now, -, e, outcome⟩
  · rw [e]
    exact h
  · rw [e]
    exact h
  · rw [e]
    exact h
  · rw [e]
    exact Shared.Bound.outcome (p := (s, th')) (s := { m.shared with now }) h outcome

theorem bound_run (h : m.shared.Bound) (moves : List Move) : (m.run moves).shared.Bound := by
  induction moves using List.reverseRecOn with
  | nil => exact h
  | append_singleton moves a ih =>
    rw [run_concat]
    exact bound_move ih a

theorem bound_start (r : Registry) : (start r).shared.Bound :=
  fun _ _ _ _ h => (nomatch h)

/-! ## Runs -/

theorem gone_move (regular : m.Regular) (h : m.shared.Gone d o) (a : Move) :
    (m.move a).shared.Gone d o :=
  h.later (m.later_move a) fun closed => (kept_closed d).effect (effect_move regular.sound a) closed

/-- What is gone is gone after every further run. -/
theorem gone_run (regular : m.Regular) (h : m.shared.Gone d o) (moves : List Move) :
    (m.run moves).shared.Gone d o := by
  induction moves using List.reverseRecOn with
  | nil => exact h
  | append_singleton moves a ih =>
    rw [run_concat]
    exact gone_move (regular.run moves) ih a

theorem binding_run {i : InstanceId} {p : DispatcherId × ObjectId} (h : m.shared.binding? i = some p)
    (moves : List Move) : (m.run moves).shared.binding? i = some p := by
  induction moves using List.reverseRecOn with
  | nil => exact h
  | append_singleton moves a ih =>
    rw [run_concat]
    exact ((m.run moves).later_move a).binding i p ih

/-! ## Destructions under way -/

/-- An object is being destroyed, which will be answered with yes. -/
def Severs (m : Machine) (t : Nat) (base : List Frame) (d : DispatcherId) (o : ObjectId) : Prop :=
  ∃ th top ids held, m.threads[t]? = some th ∧
    th.frames = top ++ .severing d o ids held (.answer (.flag true)) :: base

/-- Until client code is told that an object is destroyed, it is being destroyed or gone. -/
theorem Severs.move (regular : m.Regular) {base : List Frame} (h : m.Severs t base d o) (a : Move) :
    (m.move a).Severs t base d o ∨ (m.move a).shared.Gone d o := by
  obtain ⟨th, top, ids, held, ht, hf⟩ := h
  rcases move_thread ht a with ⟨-, s', th', moves, moved⟩ | same
  · rw [moved]
    have sound := regular.sound_frames ht
    rcases moves.severing sound hf with ⟨top', ids', frames⟩ | ⟨now, shared⟩
    · exact .inl ⟨th', top', ids', held, getElem?_set_thread ht th', frames⟩
    · let f := Frame.severing d o ids held (.answer (.flag true))
      have here : f ∈ th.frames := by
        rw [hf]
        exact List.mem_append_right _ List.mem_cons_self
      have inside : f ∈ m.frames :=
        Multiset.mem_coe.2 (List.mem_flatMap.2 ⟨th, List.mem_of_getElem? ht, here⟩)
      have opened : 0 < m.shared.handles d := regular.sorted.counted.opened inside (sound f here).1
      -- The object is still registered while it is being destroyed.
      have under : (o, ids) ∈ Frame.allSeverings d m.frames :=
        Multiset.mem_bind.2 ⟨f, inside, Multiset.mem_coe.2 (mem_severingsOf.2 ⟨held, _, rfl⟩)⟩
      obtain ⟨l, hl, -⟩ := (regular.sorted.linked d).severed o ids under
      obtain ⟨reg, hr, -⟩ := Option.map_eq_some_iff.1 hl
      refine .inr (.inr ?_)
      rw [shared, Shared.dispatcher_setDispatcher (s := { m.shared with now }) opened]
      exact Dispatcher.gone_endDestroy hr
  · exact .inl ⟨th, top, ids, held, same, hf⟩

theorem severs_run (regular : m.Regular) {base : List Frame} (h : m.Severs t base d o)
    (moves : List Move) : (m.run moves).Severs t base d o ∨ (m.run moves).shared.Gone d o := by
  induction moves using List.reverseRecOn with
  | nil => exact .inl h
  | append_singleton moves a ih =>
    rw [run_concat]
    rcases ih with severs | gone
    · exact severs.move (regular.run moves) a
    · exact .inr (gone_move (regular.run moves) gone a)

theorem Severs.depth {base : List Frame} (h : m.Severs t base d o) : base.length < m.depth t := by
  obtain ⟨th, top, ids, held, ht, hf⟩ := h
  rw [depth_eq ht, hf]
  simp
  omega

/-- A destruction begins if the object is active; otherwise the answer is no. -/
theorem act_destroy {th : Thread} (ht : m.threads[t]? = some th) (hf : th.frames = .body entry :: fs)
    (permitted : Thread.permits m.shared (.destroy d o)) :
    ((m.shared.dispatcher d).active? o = none ∧
      (m.act t (.destroy d o)).Answering t (.body entry :: fs) (.flag false)) ∨
    ∃ reg, (m.shared.dispatcher d).active? o = some reg ∧
      (m.act t (.destroy d o)).Severs t (.body entry :: fs) d o := by
  rw [act_eq ht, Thread.act_eq_perform hf permitted]
  unfold Thread.perform
  simp only [Thread.beginSevering, Shared.dispatcher_retain, Dispatcher.beginDestroy?]
  cases active : (m.shared.dispatcher d).active? o with
  | none =>
    exact .inl ⟨rfl, _, [], [.dispatcher d], getElem?_set_thread ht _, congrArg (_ :: ·) hf⟩
  | some reg =>
    exact .inr ⟨reg, rfl, _, [], _, [.dispatcher d], getElem?_set_thread ht _, congrArg (_ :: ·) hf⟩

/-- An object that client code has destroyed, as it was told, was active and is gone. -/
theorem gone_of_completes (regular : m.Regular)
    (h : m.Completes t (.destroy d o) later (.flag true)) :
    (∃ reg, (m.shared.dispatcher d).active? o = some reg) ∧
      ((m.act t (.destroy d o)).run later).shared.Gone d o := by
  obtain ⟨th, entry, fs, ht, hf, permitted⟩ := h.asks
  have height := depth_of_frames ht hf
  rcases act_destroy ht hf permitted with ⟨-, refused⟩ | ⟨reg, active, severs⟩
  · cases h.answer_eq regular ht hf refused
  · refine ⟨⟨reg, active⟩, ?_⟩
    rcases severs_run (regular.act t _) severs later with severs | gone
    · exact absurd h.returns (Nat.not_le.2 (height ▸ severs.depth))
    · exact gone

/-- What is gone is not destroyed again. -/
theorem not_destroyed_of_gone (regular : m.Regular) (gone : m.shared.Gone d o)
    (h : m.Completes t (.destroy d o) later answer) : answer = .flag false := by
  obtain ⟨th, entry, fs, ht, hf, permitted⟩ := h.asks
  have left := gone.dispatcher (Shared.isOpen_iff.1 permitted)
  rcases act_destroy ht hf permitted with ⟨-, refused⟩ | ⟨reg, active, -⟩
  · exact h.answer_eq regular ht hf refused
  · rw [left.active?] at active
    cases active

/-! ## Connections -/

/-- An action asks for a connection from or to an object. -/
inductive JoinsObject (d : DispatcherId) (o : ObjectId) : Action → Prop
  | named {sender receiver : ObjectId} {signal slot : String} {type : ConnectionType}
      (ends : sender = o ∨ receiver = o) :
      JoinsObject d o (.connect d sender signal receiver slot type)
  | indexed {sender receiver : ObjectId} {signal slot : Nat} {type : ConnectionType}
      (ends : sender = o ∨ receiver = o) :
      JoinsObject d o (.connectByIndex d sender signal receiver slot type)
  | callback {signal : String} {callback : CallbackId} {type : ConnectionType} :
      JoinsObject d o (.connectCallback d o signal callback type)

/-- What is gone is not connected again. -/
theorem not_connected_of_gone (regular : m.Regular) (gone : m.shared.Gone d o)
    (joins : JoinsObject d o a) (h : m.Completes t a later answer) :
    ∃ error, answer = .connected (.error error) := by
  obtain ⟨th, entry, fs, ht, hf, permitted⟩ := h.asks
  have left : (m.shared.dispatcher d).Gone o :=
    gone.dispatcher (Shared.isOpen_iff.1 (by cases joins <;> exact permitted))
  have replied : ∀ error, Thread.perform m.shared { th with answer := none } a =
      Thread.reply m.shared { th with answer := none } (.connected (.error error)) →
      answer = .connected (.error error) := fun _ => h.eq_of_reply ht hf
  cases joins with
  | @named sender receiver signal slot type ends =>
    obtain ⟨error, fails⟩ := left.connect ends signal slot type
    refine ⟨error, replied error ?_⟩
    unfold Thread.perform
    simp only [fails]
    rfl
  | @indexed sender receiver signal slot type ends =>
    obtain ⟨error, fails⟩ := left.connectByIndex ends signal slot type
    refine ⟨error, replied error ?_⟩
    unfold Thread.perform
    simp only [fails]
    rfl
  | @callback signal callback type =>
    -- The callback is given back before client code has its answer.
    obtain ⟨error, fails⟩ := left.connectCallback signal th.current callback type
    refine ⟨error, h.answer_eq regular ht hf ?_⟩
    rw [act_eq ht, Thread.act_eq_perform hf permitted]
    unfold Thread.perform
    simp only [fails]
    exact ⟨_, [], _, getElem?_set_thread ht _, congrArg (_ :: ·) hf⟩

/-! ## Methods -/

/-- A dispatcher is not closed while a call is due on it. -/
theorem opened_of_due (regular : m.Regular) {th : Thread} (ht : m.threads[t]? = some th) {now : Nat}
    {target : Target} {args : List Variant} (due : th.Due { m.shared with now } d target args) :
    0 < m.shared.handles d := by
  cases due with
  | @delivery e rest id c more top =>
    have here : .emitting e ∈ th.frames := top ▸ List.mem_cons_self
    exact regular.opened ht here (regular.sound_frames ht _ here)
  | @queued v rest i queues top =>
    have here : .serving v ∈ th.frames := top ▸ List.mem_cons_self
    exact regular.opened ht here (by simp [Frame.handles, Frame.held])
  | asked top permitted => exact Shared.isOpen_iff.1 permitted

/-- No method of what is gone is called. -/
theorem calls_of_gone (regular : m.Regular) (bound : m.shared.Bound)
    (tops : ∀ th ∈ m.threads, th.CallsOnTop) (gone : m.shared.Gone d o) {i : InstanceId}
    (binding : m.shared.binding? i = some (d, o)) (a : Move) {method : MetaClass.Method}
    {args : List Variant} (calls : (m.move a).Calls t (.method i method args)) :
    m.Calls t (.method i method args) := by
  rcases calls_cases tops a calls with before | ⟨th, now, ht, called⟩
  · exact before
  · cases called with
    | @due d' target args' _ held due code =>
      obtain ⟨o', index, -, -, binding', found⟩ :=
        Shared.Bound.callee (s := { m.shared with now }) bound code
      obtain ⟨rfl, rfl⟩ := Prod.mk.inj (Option.some.inj (binding.symm.trans binding'))
      exact absurd (gone.dispatcher (opened_of_due regular ht due)).object found
    | other other => exact absurd rfl (other i method args)

/-- What is called after a further run, of what is gone, was called all the time since it was gone. -/
theorem calls_run_of_gone (regular : m.Regular) (bound : m.shared.Bound)
    (tops : ∀ th ∈ m.threads, th.CallsOnTop) (gone : m.shared.Gone d o) {i : InstanceId}
    (binding : m.shared.binding? i = some (d, o)) {method : MetaClass.Method} {args : List Variant}
    (calls : (m.run later).Calls t (.method i method args)) :
    ∀ since, since <+: later → (m.run since).Calls t (.method i method args) := by
  induction later using List.reverseRecOn with
  | nil =>
    intro since sub
    rwa [List.prefix_nil.1 sub]
  | append_singleton moves a ih =>
    intro since sub
    rcases List.prefix_concat_iff.1 sub with rfl | sooner
    · exact calls
    · rw [run_concat] at calls
      refine ih ?_ since sooner
      exact calls_of_gone (regular.run moves) (bound_run bound moves) (callsOnTop_run tops moves)
        (gone_run regular gone moves) (binding_run binding moves) a calls

/-- A method that is called after a run was looked up before, and its object was there. -/
theorem found_of_calls (r : Registry) (moves : List Move) {i : InstanceId} {method : MetaClass.Method}
    {args : List Variant} (calls : ((start r).run moves).Calls t (.method i method args)) :
    ∃ before after d o index held, moves = before ++ after ∧
      ((start r).run before).shared.binding? i = some (d, o) ∧
      ((start r).run before).shared.callee d (.method o index) args =
        .code (.method i method args) held := by
  induction moves using List.reverseRecOn with
  | nil =>
    obtain ⟨th, rest, ht, -⟩ := calls
    cases ht
  | append_singleton moves a ih =>
    rw [run_concat] at calls
    rcases calls_cases (callsOnTop_run (callsOnTop_start r) moves) a calls with before | ⟨th, now, ht, called⟩
    · obtain ⟨before, after, d, o, index, held, parts, found⟩ := ih before
      exact ⟨before, after ++ [a], d, o, index, held, by rw [parts, List.append_assoc], found⟩
    · cases called with
      | @due d target args' _ held due code =>
        have bound := bound_run (bound_start r) moves
        obtain ⟨o, index, rfl, rfl, binding, -⟩ :=
          Shared.Bound.callee (s := { ((start r).run moves).shared with now }) bound code
        exact ⟨moves, [a], d, o, index, held, rfl, binding, code⟩
      | other other => exact absurd rfl (other i method args)

/-! ## Main theorem -/

/-- Let client code destroy an object and be told so, after any run, in slots of an emission too. After
every further run:

* the object is destroyed, as its dispatcher and it itself say;
* no connection leads from it or to it, and a call of one of its methods finds it gone, whatever the
  call comes from;
* it cannot be destroyed once more, and no connection from it or to it can be made;
* a move leaves outer client code of what ran, or begins some that is none of its methods: the methods
  are not called by a delivery of an emission that was under way, not by a call that was put into a
  queue before, and not by one that client code asks for.

There is one exception. A thread that looks for the receiver of a call holds no lock any more when it
begins the method. So a method may begin that another thread had called when client code was told of the
destruction: the thread has done nothing else since, and the object was there when it was called. -/
theorem destroyed_is_final (r : Registry) (past : List Move) (t : Nat) (d : DispatcherId) (o : ObjectId)
    (during : List Move)
    (destroyed : ((start r).run past).Completes t (.destroy d o) during (.flag true)) :
    let m := (start r).run past
    let told := (m.act t (.destroy d o)).run during
    ∃ reg, (m.shared.dispatcher d).active? o = some reg ∧ ∀ later,
      let m' := told.run later
      let x := m'.shared.dispatcher d
      m'.shared.stateOf reg.owner = .destroyed ∧
      (m'.shared.isOpen d →
        x.state o = .destroyed ∧
        (∀ id c, x.connections.get? id = some c → c.sender ≠ o ∧ c.target.receiver? ≠ some o) ∧
        ∀ index args, m'.shared.callee d (.method o index) args = .gone) ∧
      (∀ t' during' answer, m'.Completes t' (.destroy d o) during' answer → answer = .flag false) ∧
      (∀ a, JoinsObject d o a → ∀ t' during' answer, m'.Completes t' a during' answer →
        ∃ error, answer = .connected (.error error)) ∧
      ∀ a t', (m'.move a).code t' <:+ m'.code t' ∨
        ∃ entry, m'.Starts a t' entry ∧ ∀ method args, entry = .method reg.owner method args →
          t' ≠ t ∧ (∀ since, since <+: later → (told.run since).Calls t' entry) ∧
          ∃ before after index held, past ++ .act t (.destroy d o) :: during = before ++ after ∧
            ((start r).run before).shared.callee d (.method o index) args = .code entry held := by
  intro m told
  have regular : m.Regular := regular_run r past
  have bound : m.shared.Bound := bound_run (bound_start r) past
  obtain ⟨⟨reg, active⟩, gone⟩ := gone_of_completes regular destroyed
  obtain ⟨object, -⟩ := Dispatcher.active?_eq_some_iff.1 active
  have binding : m.shared.binding? reg.owner = some (d, o) :=
    bound d o _ _ (Dispatcher.identity?_eq_some_iff.2 ⟨reg, object, rfl⟩)
  have whole : told = (start r).run (past ++ .act t (.destroy d o) :: during) := by
    rw [run_append]
    rfl
  have regular₁ : told.Regular := (regular.act t _).run during
  have bound₁ : told.shared.Bound := bound_run (bound_move bound (.act t _)) during
  have tops₁ : ∀ th ∈ told.threads, th.CallsOnTop := whole ▸ callsOnTop_run (callsOnTop_start r) _
  have binding₁ : told.shared.binding? reg.owner = some (d, o) :=
    binding_run ((m.later_move (.act t _)).binding _ _ binding) during
  refine ⟨reg, active, fun later => ?_⟩
  intro m' x
  have regular' : m'.Regular := regular₁.run later
  have gone' : m'.shared.Gone d o := gone_run regular₁ gone later
  have binding' : m'.shared.binding? reg.owner = some (d, o) := binding_run binding₁ later
  have left : m'.shared.isOpen d → x.Gone o := fun opened =>
    gone'.dispatcher (Shared.isOpen_iff.1 opened)
  refine ⟨?_, fun opened => ⟨(left opened).state, ?_, ?_⟩, ?_, ?_, ?_⟩
  · rw [Shared.stateOf, binding']
    dsimp only
    split
    · rename_i opened
      exact (left opened).state
    · rfl
  · exact fun id c hc => (regular'.sorted.linked d).end_ne_gone (left opened) hc
  · exact Shared.callee_of_gone (left opened)
  · exact fun t' during' answer => not_destroyed_of_gone regular' gone'
  · exact fun a joins t' during' answer => not_connected_of_gone regular' gone' joins
  · intro a t'
    refine (m'.code_cases a t').imp_right ?_
    rintro ⟨entry, starts, called⟩
    refine ⟨entry, starts, ?_⟩
    rintro method args rfl
    have calls := called.resolve_right fun other => other reg.owner method args rfl
    have since := calls_run_of_gone regular₁ bound₁ tops₁ gone binding₁ calls
    have here : told.Calls t' (.method reg.owner method args) := since [] List.nil_prefix
    refine ⟨?_, since, ?_⟩
    · -- Client code runs on the thread that was told.
      rintro rfl
      obtain ⟨th, top, fs, ht, hf, -⟩ := destroyed.asks
      obtain ⟨th', ht', hf'⟩ := destroyed.body regular ht hf
      obtain ⟨th'', rest, ht'', hf''⟩ := here
      cases ht'.symm.trans ht''
      cases hf'.symm.trans hf''
    · rw [whole] at here
      obtain ⟨before, after, d', o', index, held, parts, binding₀, code⟩ := found_of_calls r _ here
      -- The object was registered there already as it is now.
      have same : told.shared.binding? reg.owner = some (d', o') := by
        rw [whole, parts, run_append]
        exact binding_run binding₀ after
      obtain ⟨rfl, rfl⟩ := Prod.mk.inj (Option.some.inj (binding₁.symm.trans same))
      exact ⟨before, after, index, held, parts, code⟩

/-! ### Runs -/

/-- A bell is connected to its own slot three times. The first delivery waits in a queue, the slot runs
for the second, and the third is still to be made. -/
def toll : List Move :=
  hang.take 4 ++
    [.act 0 (.connectByIndex 0 ⟨0, 1⟩ 0 ⟨0, 1⟩ 1 .queued),
      .act 0 (.connectByIndex 0 ⟨0, 1⟩ 0 ⟨0, 1⟩ 1 .direct),
      .act 0 (.connectByIndex 0 ⟨0, 1⟩ 0 ⟨0, 1⟩ 1 .direct),
      .act 0 (.emitByIndex 0 ⟨0, 1⟩ 0 []), .advance 0, .advance 0, .advance 0]

/-- Is an answer yes? -/
def saysYes : Answer → Bool
  | .flag yes => yes
  | _ => false

theorem eq_of_saysYes {x : Option Answer} (h : x.any saysYes) : x = some (.flag true) := by
  obtain ⟨answer, rfl, same⟩ := (Option.any_eq_true _ _).1 h
  cases answer with
  | flag yes =>
    obtain rfl : yes = true := same
    rfl
  | _ => cases same

/-- The connections over which an emission under way has still to deliver. -/
def undelivered : Frame → List ConnectionId
  | .emitting e => e.remaining.map (·.1)
  | _ => []

/-- A bell that is destroyed in its own slot is not heard again, although a call of the slot waits and
its signal is still to be delivered. -/
theorem destroyed_bell_is_not_heard :
    let m := (start bells).run toll
    let cut := List.replicate 9 (Move.advance 0)
    let m' := (m.act 0 (.destroy 0 ⟨0, 1⟩)).run cut
    m.Completes 0 (.destroy 0 ⟨0, 1⟩) cut (.flag true) ∧
      (m'.shared.dispatcher 0).pending (.own 0) = 1 ∧
      (m'.threads.flatMap (·.frames)).flatMap undelivered = [⟨2, 1⟩] ∧
      ∀ later a t, ((m'.run later).move a).code t <:+ (m'.run later).code t ∨
        ∃ entry, (m'.run later).Starts a t entry ∧ ∀ method args, entry ≠ .method 0 method args := by
  intro m cut m'
  have completes : m.Completes 0 (.destroy 0 ⟨0, 1⟩) cut (.flag true) := by
    refine ⟨⟨asks_of_canAsk (by decide +kernel), above_of_take ?_⟩, ?_, ?_⟩
    · decide +kernel
    · decide +kernel
    · exact eq_of_saysYes (by decide +kernel)
  obtain ⟨reg, active, final⟩ := destroyed_is_final bells toll 0 0 ⟨0, 1⟩ cut completes
  have owner : ((m.shared.dispatcher 0).active? ⟨0, 1⟩).map (·.owner) = some 0 := by decide +kernel
  rw [active] at owner
  have owner : reg.owner = 0 := Option.some.inj owner
  -- There is no other thread on which a call could have begun.
  have alone : m'.threads.length = 1 := by decide +kernel
  refine ⟨completes, by decide +kernel, by decide +kernel, fun later a t => ?_⟩
  obtain ⟨-, -, -, -, silent⟩ := final later
  refine (silent a t).imp_right fun ⟨entry, starts, only⟩ => ⟨entry, starts, fun method args e => ?_⟩
  obtain ⟨other, since, -⟩ := only method args (e.trans (by rw [owner]))
  have here := since [] List.nil_prefix
  rw [run_nil] at here
  exact other (Nat.lt_one_iff.1 (here.lt.trans_eq alone))

/-- There are two dispatchers, each with a bell, and the bells have the same id. Another thread has called the
slot of the first bell. -/
def summon : List Move :=
  hang.take 4 ++ [.act 0 (.newDispatcher none), .act 0 (.newObject "Bell"), .act 0 (.register 1 1),
    .spawn, .act 0 (.move 0 ⟨0, 1⟩ (.own 1)), .act 1 (.call 0 ⟨0, 1⟩ "hear()" .direct [])]

/-- Has the thread called a method of the object without arguments? -/
def hasCalled (i : InstanceId) (th : Thread) : Bool :=
  match th.frames with
  | .starting (.method i' _ []) :: _ => i' = i
  | _ => false

theorem calls_of_hasCalled {i : InstanceId} (h : m.threads[t]?.any (hasCalled i)) :
    ∃ method, m.Calls t (.method i method []) := by
  obtain ⟨th, ht, called⟩ := (Option.any_eq_true _ _).1 h
  unfold hasCalled at called
  split at called
  · rename_i hf
    exact ⟨_, th, _, ht, of_decide_eq_true called ▸ hf⟩
  · cases called

/-- The first bell is destroyed after that, and its slot begins although client code was told so. The second
bell is active, under the same id. -/
theorem destroyed_bell_hears_what_was_called :
    let m := (start bells).run summon
    let cut := List.replicate 3 (Move.advance 0)
    let told := (m.act 0 (.destroy 0 ⟨0, 1⟩)).run cut
    m.Completes 0 (.destroy 0 ⟨0, 1⟩) cut (.flag true) ∧ told.shared.stateOf 0 = .destroyed ∧
      (∃ hear, told.Starts (.advance 1) 1 (.method 0 hear [])) ∧
      (told.shared.dispatcher 1).state ⟨0, 1⟩ = .active := by
  intro m cut told
  have completes : m.Completes 0 (.destroy 0 ⟨0, 1⟩) cut (.flag true) := by
    refine ⟨⟨asks_of_canAsk (by decide +kernel), above_of_take ?_⟩, ?_, ?_⟩
    · decide +kernel
    · decide +kernel
    · exact eq_of_saysYes (by decide +kernel)
  obtain ⟨hear, calls⟩ : ∃ hear, told.Calls 1 (.method 0 hear []) := calls_of_hasCalled (by decide +kernel)
  exact ⟨completes, by decide +kernel, ⟨hear, calls.starts⟩, by decide +kernel⟩

end Machine
end Reflection

import Reflection.Proofs.Machine.Changes
/-!
# Methods are called as their classes declare them

An object is registered with its own class, and what leads to a method leads to one that takes its
arguments: connections, calls that wait and emissions under way (`Machine.Typed`). So a call that is
due finds its method in the class of the object (`invocations_fit_methods`). When a dispatcher is
closed, ids of its objects no longer stand for anything; an emission keeps its dispatcher open until it
is over.
-/

namespace Reflection

variable {s s' : Shared} {d : DispatcherId}

/-! ## Dispatchers -/

namespace Dispatcher

variable {x y : Dispatcher}

theorem Alters.keeps (h : x.Alters y) : x.Keeps y := by
  cases h with
  | describe o same =>
    refine keeps_modifyObject fun r => ?_
    obtain ⟨context, name, blocked, e⟩ := same r
    rw [e]
    rfl
  | connect h =>
    obtain ⟨c, -, rfl⟩ := joins_of_connectByIndex h
    exact x.keeps_link c
  | connectCallback h =>
    obtain ⟨c, -, rfl⟩ := joins_of_connectCallback h
    exact x.keeps_link c
  | disconnect id => exact x.keeps_disconnect id
  | beginDestroy h => exact keeps_beginDestroy h
  | sever gone id => exact x.keeps_sever gone id
  | endDestroy => exact keeps_endDestroy
  | quit | take | start | stop | hold | letGo | push => exact x.keeps_queues _

theorem Alters.typed (h : x.Alters y) (typed : x.Typed) : y.Typed := by
  have keeps := h.keeps
  cases h with
  | describe => exact typed.of_eq keeps.ages rfl rfl
  | connect h =>
    obtain ⟨c, joins, rfl⟩ := joins_of_connectByIndex h
    exact typed.link joins
  | connectCallback h =>
    obtain ⟨c, joins, rfl⟩ := joins_of_connectCallback h
    exact typed.link joins
  | disconnect id => exact typed.cut keeps (x.connections_disconnect id) (x.queues_disconnect id)
  | beginDestroy h =>
    obtain ⟨-, -, -, -, connections, -⟩ := beginDestroy?_eq_some h
    exact typed.of_eq keeps.ages connections (queues_beginDestroy h)
  | sever gone id => exact typed.cut keeps (x.connections_sever gone id) (x.queues_sever gone id)
  | endDestroy => exact typed.of_eq keeps.ages rfl rfl
  | quit context =>
    refine typed.withQueues fun q i hi => ?_
    rcases Queues.mem_queue_post hi with e | old
    · cases e
    · exact ⟨q, old⟩
  | take pop => exact typed.withQueues fun q i hi => ⟨q, (Queues.mem_queue_pop pop).2 q _ hi⟩
  | start => exact typed.withQueues fun q i hi =>
      ⟨q, Queues.mem_queue_obtain (Queues.mem_queue_hold hi)⟩
  | stop => exact typed.withQueues fun q i hi => ⟨q, Queues.mem_queue_release hi⟩
  | hold => exact typed.withQueues fun q i hi => ⟨q, Queues.mem_queue_hold hi⟩
  | letGo => exact typed.withQueues fun q i hi => ⟨q, Queues.mem_queue_letGo hi⟩
  | push =>
    refine typed.withQueues fun q i hi => ?_
    rcases Queues.mem_queue_push hi with e | old
    · cases e
    · exact ⟨q, old⟩

end Dispatcher

/-! ## What threads share -/

namespace Shared

/-- The class of an object. -/
def classOf? (s : Shared) (i : InstanceId) : Option MetaClass :=
  s.instances[i]?.bind fun x => s.registry.get? x.className

/-- The method is one of the object's class, and there is an argument for each of its parameters. -/
def Accepts (s : Shared) (i : InstanceId) (m : MetaClass.Method) (args : List Variant) : Prop :=
  ∃ c, s.classOf? i = some c ∧ c.method? m.index = some m ∧ args.length = m.entry.parameterCount

/-- Objects are registered with their own classes, and dispatchers keep to the methods that
connections and calls are for. -/
structure Typed (s : Shared) : Prop where
  classes : ∀ d o i c, (s.dispatcher d).identity? o = some (i, c) → s.classOf? i = some c
  dispatchers : ∀ d, (s.dispatcher d).Typed

/-- Objects keep their classes and their registrations, and ids stand for the same objects as before, or
for none. -/
structure Ages (s s' : Shared) : Prop where
  registry : s'.registry = s.registry
  classOf : ∀ i c, s.classOf? i = some c → s'.classOf? i = some c
  binding : ∀ i p, s.binding? i = some p → s'.binding? i = some p
  dispatcher : ∀ d, (s.dispatcher d).Ages (s'.dispatcher d)

theorem Ages.refl (s : Shared) : s.Ages s :=
  ⟨rfl, fun _ _ h => h, fun _ _ h => h, fun _ => .refl _⟩

theorem Ages.trans {s'' : Shared} (h : s.Ages s') (h' : s'.Ages s'') : s.Ages s'' :=
  ⟨h'.registry.trans h.registry, fun i c hc => h'.classOf i c (h.classOf i c hc),
    fun i p hp => h'.binding i p (h.binding i p hp), fun d => (h.dispatcher d).trans (h'.dispatcher d)⟩

theorem Steady.ages (h : s.Steady s') : s.Ages s' := by
  refine ⟨h.registry, fun i c hc => ?_, fun i p hp => ?_, fun d => ?_⟩
  · obtain ⟨x, hx, hc⟩ := Option.bind_eq_some_iff.1 hc
    obtain ⟨x', hx', keeps⟩ := h.instances i x hx
    refine Option.bind_eq_some_iff.2 ⟨x', hx', ?_⟩
    rwa [h.registry, keeps.className]
  · obtain ⟨x, hx, hp⟩ := Option.bind_eq_some_iff.1 hp
    obtain ⟨x', hx', keeps⟩ := h.instances i x hx
    exact Option.bind_eq_some_iff.2 ⟨x', hx', keeps.binding p hp⟩
  · rw [h.dispatcher d]
    exact .refl _

theorem ages_reorder (order : List Nat) : s.Ages { s with signalOrder := order } :=
  Steady.ages (.of_eq rfl rfl fun _ => rfl)

theorem Typed.steady (h : s.Typed) (steady : s.Steady s') : s'.Typed := by
  refine ⟨fun d o i c hc => ?_, fun d => ?_⟩
  · rw [steady.dispatcher d] at hc
    exact steady.ages.classOf i c (h.classes d o i c hc)
  · rw [steady.dispatcher d]
    exact h.dispatchers d

theorem ages_setDispatcher {x : Dispatcher} (ages : (s.dispatcher d).Ages x) :
    s.Ages (s.setDispatcher d x) :=
  ⟨rfl, fun _ _ h => h, fun _ _ h => h, setDispatcher_rel .refl ages⟩

/-- What a dispatcher becomes is as good as it was, if what is registered there is registered with its
own class. -/
theorem Typed.setDispatcher {x : Dispatcher} (h : s.Typed) (typed : x.Typed)
    (classes : ∀ o i c, x.identity? o = some (i, c) → s.classOf? i = some c) :
    (s.setDispatcher d x).Typed := by
  refine ⟨fun d' o i c hc => ?_, fun d' => ?_⟩
  · rcases dispatcher_setDispatcher_or (s := s) (d := d) d' x with e | ⟨-, e⟩
    · rw [e] at hc
      exact h.classes d' o i c hc
    · rw [e] at hc
      exact classes o i c hc
  · rcases dispatcher_setDispatcher_or (s := s) (d := d) d' x with e | ⟨-, e⟩
    · rw [e]
      exact h.dispatchers d'
    · rw [e]
      exact typed

theorem Typed.keeps {x : Dispatcher} (h : s.Typed) (keeps : (s.dispatcher d).Keeps x)
    (typed : x.Typed) : (s.setDispatcher d x).Typed :=
  h.setDispatcher typed fun o i c hc => h.classes d o i c (keeps.identity o (i, c) hc)

/-- An object is registered with its own class. -/
theorem register_cases {i : InstanceId} {context : Context} {o : ObjectId}
    (h : s.register d i context = .ok (o, s')) :
    ∃ c, s.classOf? i = some c ∧ o = ((s.dispatcher d).register i c context).1 ∧
      s'.binding? i = some (d, o) ∧
      (s.setDispatcher d ((s.dispatcher d).register i c context).2).Steady s' := by
  unfold register at h
  split at h
  · cases h
  · rename_i x hx
    split at h
    · cases h
    · rename_i unbound
      split at h
      · cases h
      · rename_i c hc
        cases h
        refine ⟨c, Option.bind_eq_some_iff.2 ⟨x, hx, hc⟩, rfl, ?_,
          steady_modify_instance i fun y hy => ⟨rfl, fun p hp => ?_⟩⟩
        · show ((s.instances.modify i _)[i]?).bind _ = _
          rw [List.getElem?_modify_eq, hx]
          rfl
        -- It was not registered before.
        · cases hx.symm.trans hy
          rw [hp] at unbound
          exact absurd rfl unbound

theorem ages_addDispatcher (timeout : Option Nat) : s.Ages (s.addDispatcher timeout).2 := by
  refine ⟨rfl, fun _ _ h => h, fun _ _ h => h, fun d => ?_⟩
  rcases s.addDispatcher_views timeout d with ⟨-, -, e⟩ | ⟨-, -, -, e, -, -, e'⟩
  · rw [e]
    exact .refl _
  · rw [e, e']
    have keeps : ({} : Dispatcher).Keeps { timeout } := .of_objects rfl
    exact keeps.ages

theorem Typed.addDispatcher (h : s.Typed) (timeout : Option Nat) :
    (s.addDispatcher timeout).2.Typed := by
  refine ⟨fun d o i c hc => ?_, fun d => ?_⟩
  · rcases s.addDispatcher_views timeout d with ⟨-, -, e⟩ | ⟨-, -, -, -, -, -, e⟩
    · rw [e] at hc
      exact h.classes d o i c hc
    · rw [e] at hc
      cases hc
  · rcases s.addDispatcher_views timeout d with ⟨-, -, e⟩ | ⟨-, -, -, -, -, -, e⟩
    · rw [e]
      exact h.dispatchers d
    · rw [e]
      exact Dispatcher.typed_new timeout

/-- Nothing is left of a dispatcher that is closed. -/
theorem Typed.close (h : s.Typed) :
    ((s.letGo (.dispatcher d)).2.setDispatcher d {}).Typed :=
  (h.steady (steady_letGo _)).setDispatcher (Dispatcher.typed_new none) fun _ _ _ hc => (nomatch hc)

/-- A call whose arguments fit finds its method, if its receiver is there. -/
theorem Typed.callee (h : s.Typed) {target : Target} {args : List Variant}
    (fits : (s.dispatcher d).Fits args.length target) :
    (∀ error, s.callee d target args ≠ .unknown error) ∧
      ∀ i m args' held, s.callee d target args = .code (.method i m args') held →
        s.Accepts i m args' := by
  cases fits with
  | callback context number => exact ⟨fun _ => nofun, fun _ _ _ _ => nofun⟩
  | @method o index issued takes =>
    unfold Shared.callee
    dsimp only
    split
    · exact ⟨fun _ => nofun, fun _ _ _ _ => nofun⟩
    · rename_i r hr
      obtain ⟨hr, -⟩ := Dispatcher.active?_eq_some_iff.1 hr
      have stands : (s.dispatcher d).identity? o = some (r.owner, r.metaClass) :=
        Dispatcher.identity?_eq_some_iff.2 ⟨r, hr, rfl⟩
      obtain ⟨m, hm, count⟩ := takes r.owner r.metaClass stands
      split
      · exact ⟨fun _ => nofun, fun _ _ _ _ => nofun⟩
      · rw [hm]
        refine ⟨fun _ => nofun, fun i m' args' held e => ?_⟩
        cases e
        obtain ⟨rfl, -⟩ := (MetaClass.memberAt?_eq_some_iff ClassTable.methods).1 hm
        exact ⟨r.metaClass, h.classes d o _ _ stands, hm, count.symm⟩

end Shared

/-! ## Frames -/

/-- A method that runs, or is to run now, is one that its object accepts, and the deliveries that an emission
has still to make are to what takes its arguments, unless the dispatcher is closed. -/
def Frame.Typed (s : Shared) : Frame → Prop
  | .body (.method i m args) | .starting (.method i m args) => s.Accepts i m args
  | .emitting e => s.Closed e.dispatcher ∨
      ∀ p ∈ e.remaining, (s.dispatcher e.dispatcher).Fits e.args.length p.2.target
  | _ => True

theorem Shared.Accepts.mono {i : InstanceId} {m : MetaClass.Method} {args : List Variant}
    (h : s.Accepts i m args) (classOf : ∀ i c, s.classOf? i = some c → s'.classOf? i = some c) :
    s'.Accepts i m args := by
  obtain ⟨c, hc, takes⟩ := h
  exact ⟨c, classOf i c hc, takes⟩

/-- What threads share after a step: a dispatcher may have been closed. -/
structure Shared.Later (s s' : Shared) : Prop where
  registry : s'.registry = s.registry
  classOf : ∀ i c, s.classOf? i = some c → s'.classOf? i = some c
  binding : ∀ i p, s.binding? i = some p → s'.binding? i = some p
  dispatcher : ∀ d, (s.dispatcher d).Ages (s'.dispatcher d) ∨ s'.Closed d

theorem Shared.Ages.later (h : s.Ages s') : s.Later s' :=
  ⟨h.registry, h.classOf, h.binding, fun d => .inl (h.dispatcher d)⟩

theorem Shared.later_close (last : s.handles d = 1) :
    s.Later ((s.letGo (.dispatcher d)).2.setDispatcher d {}) := by
  have gone := (Shared.steady_letGo (s := s) (.dispatcher d)).ages
  refine ⟨gone.registry, gone.classOf, gone.binding, fun d' => ?_⟩
  by_cases e : d' = d
  · exact .inr (e ▸ Shared.closed_close last {})
  · rw [Shared.dispatcher_setDispatcher_of_ne e]
    exact .inl (gone.dispatcher d')

theorem Frame.Typed.later {f : Frame} (h : f.Typed s) (later : s.Later s')
    (closed : ∀ d, s.Closed d → s'.Closed d) : f.Typed s' := by
  cases f with
  | body entry | starting entry =>
    cases entry with
    | method i m args => exact Shared.Accepts.mono h later.classOf
    | _ => trivial
  | emitting e =>
    rcases h with gone | fits
    · exact .inl (closed _ gone)
    · rcases later.dispatcher e.dispatcher with ages | gone
      · exact .inr fun p hp => (fits p hp).ages ages
      · exact .inl gone
  | _ => trivial

/-! ## Steps -/

theorem Change.ages {s₀ : Shared} {th : Thread} (change : Change s₀ th s s') : s.Ages s' := by
  cases change with
  | steady steady => exact steady.ages
  | host timeout => exact Shared.ages_addDispatcher timeout
  | @register _ d i context o registered =>
    obtain ⟨c, -, -, -, steady⟩ := Shared.register_cases registered
    exact (Shared.ages_setDispatcher ((s.dispatcher d).ages_register i c context)).trans steady.ages
  | alter alters => exact Shared.ages_setDispatcher alters.keeps.ages
  | @post d i context => exact Shared.ages_setDispatcher ((s.dispatcher d).keeps_queues _).ages

theorem Changes.ages {s₀ : Shared} {th : Thread} (changes : Changes s₀ th s s') : s.Ages s' := by
  induction changes with
  | refl => exact .refl s
  | tail _ change ih => exact ih.trans change.ages

theorem Thread.Outcome.later {th : Thread} {p : Shared × Thread} (outcome : Outcome s th p) :
    s.Later p.1 := by
  cases outcome with
  | reaches reaches => exact reaches.changes.ages.later
  | calls changes | begins changes => exact changes.ages.later
  | closes last closed =>
    rw [closed]
    exact Shared.later_close last

/-- What holds of a thread and of what it shares with others whenever it takes a step. -/
structure Thread.Typed (s : Shared) (th : Thread) : Prop where
  shared : s.Typed
  frames : ∀ f ∈ th.frames, f.Typed s
  opened : ∀ e, .emitting e ∈ th.frames → ¬ s.Closed e.dispatcher
  linked : ∀ d, ∃ severing, (s.dispatcher d).Linked severing

namespace Thread.Typed

variable {s₀ : Shared} {th : Thread}

theorem at_now (h : th.Typed s) (now : Nat) : th.Typed { s with now } :=
  ⟨⟨h.shared.classes, h.shared.dispatchers⟩, h.frames, h.opened, h.linked⟩

/-- The arguments of a call that is due fit its target. -/
theorem fits_of_due (h : th.Typed s) {target : Target} {args : List Variant}
    (due : th.Due s d target args) : (s.dispatcher d).Fits args.length target := by
  cases due with
  | @delivery e rest id c more top remaining =>
    have emitting : .emitting e ∈ th.frames := top ▸ List.mem_cons_self
    rcases h.frames _ emitting with closed | fits
    · exact absurd closed (h.opened e emitting)
    · exact fits (id, c) (remaining ▸ List.mem_cons_self)
  | queued top pop => exact (h.shared.dispatchers _).queued _ _ (Queues.mem_queue_pop pop).1
  | asked top permitted passes leads => exact Dispatcher.fits_of_beginCall passes leads

theorem of_called (h : th.Typed s) {entry : Entry} (called : entry.Called s th) :
    (Frame.starting entry).Typed s := by
  cases entry with
  | method i m args' =>
    cases called with
    | due due code => exact (h.shared.callee (h.fits_of_due due)).2 i m args' _ code
    | other other => exact absurd rfl (other i m args')
  | _ => trivial

/-- What begins to run is typed since it was called. -/
theorem of_begins (h : th.Typed s) {entry : Entry} (begins : entry.Begins th) :
    (Frame.body entry).Typed s := by
  cases entry with
  | method i m args' =>
    cases begins with
    | called top => exact h.frames (.starting (.method i m args')) (top ▸ List.mem_cons_self)
    | other other => exact absurd rfl (other i m args')
  | _ => trivial

/-- What arises is typed by what threads shared before. -/
theorem of_arises (h : th.Typed s) {f : Frame} (arises : f.Arises s th) : f.Typed s := by
  cases arises with
  | plain plain =>
    cases f with
    | body | starting | emitting => exact plain.elim
    | _ => trivial
  | @emission e e' he dispatcher args remaining =>
    show s.Closed e'.dispatcher ∨ _
    rw [dispatcher, args]
    exact (h.frames _ he).imp_right fun fits p hp => fits p (remaining.subset hp)
  | @begun o signal e all passes remaining =>
    obtain ⟨severing, linked⟩ := h.linked e.dispatcher
    have fits := (h.shared.dispatchers e.dispatcher).fits_of_beginEmission linked passes
    exact .inr fun p hp => fits p (remaining.subset hp)

theorem of_grows (h : th.Typed s) {fs : List Frame} (grows : Thread.Grows s th fs) :
    ∀ f ∈ fs, f.Typed s := by
  induction grows with
  | kept suffix => exact fun f hf => h.frames f (suffix.subset hf)
  | cons arises _ ih => exact List.forall_mem_cons.2 ⟨h.of_arises arises, ih⟩

theorem change (h : th.Typed s₀) (change : Change s₀ th s s') (typed : s.Typed) : s'.Typed := by
  cases change with
  | steady steady => exact typed.steady steady
  | host timeout => exact typed.addDispatcher timeout
  | @register _ d i context o registered =>
    obtain ⟨c, hc, -, -, steady⟩ := Shared.register_cases registered
    refine .steady (typed.setDispatcher ((typed.dispatchers d).register i c context) ?_) steady
    -- Only the new id stands for something new, which is an object with its own class.
    intro o' i' c' h'
    rw [Dispatcher.identity?_register] at h'
    split at h'
    · cases h'
      exact hc
    · exact typed.classes d o' i' c' h'
  | @alter d x alters => exact typed.keeps alters.keeps (alters.typed (typed.dispatchers d))
  | @post d i context same due =>
    have fits := h.fits_of_due due
    rw [← same] at fits
    exact typed.keeps ((s.dispatcher d).keeps_queues _) ((typed.dispatchers d).enqueue fits context)

theorem changes (h : th.Typed s₀) (changes : Changes s₀ th s₀ s) : s.Typed := by
  induction changes with
  | refl => exact h.shared
  | tail _ change ih => exact h.change change ih

theorem outcome (h : th.Typed s) {p : Shared × Thread} (outcome : Thread.Outcome s th p) :
    p.1.Typed ∧ ∀ f ∈ p.2.frames, f.Typed s := by
  cases outcome with
  | reaches reaches => exact ⟨h.changes reaches.changes, h.of_grows reaches.frames⟩
  | calls changes frames called below =>
    rw [frames]
    exact ⟨h.changes changes, List.forall_mem_cons.2 ⟨h.of_called called, h.of_grows below⟩⟩
  | begins changes frames begins below =>
    rw [frames]
    exact ⟨h.changes changes, List.forall_mem_cons.2 ⟨h.of_begins begins, h.of_grows below⟩⟩
  | closes last closed frames =>
    rw [closed]
    exact ⟨h.shared.close, h.of_grows frames⟩

end Thread.Typed

/-! ## Main theorem -/

namespace Machine

/-- All that threads share and all that they do is typed by the classes of a registry. -/
structure Typed (r : Registry) (m : Machine) : Prop where
  registry : m.shared.registry = r
  shared : m.shared.Typed
  frames : ∀ th ∈ m.threads, ∀ f ∈ th.frames, f.Typed m.shared

variable {r : Registry} {m m' : Machine}

theorem typed_start (r : Registry) : (start r).Typed r where
  registry := rfl
  shared := ⟨fun _ _ _ _ h => (nomatch h), fun _ => Dispatcher.typed_new none⟩
  frames := List.forall_mem_nil _

/-- An emission holds its dispatcher. -/
theorem opened_of_emitting (sound : ∀ f ∈ m.frames, f.Sound) (counted : Counted m.shared m.frames)
    {th : Thread} (hth : th ∈ m.threads) {e : Emission} (he : .emitting e ∈ th.frames) :
    ¬ m.shared.Closed e.dispatcher := by
  have inside : .emitting e ∈ m.frames :=
    Multiset.mem_coe.2 (List.mem_flatMap.2 ⟨th, hth, he⟩)
  have opened := counted.opened inside (sound _ inside)
  exact fun closed => Nat.lt_irrefl 0 (closed.2 ▸ opened)

theorem Typed.thread (h : m.Typed r) (sound : ∀ f ∈ m.frames, f.Sound)
    (sorted : Sorted m.shared m.frames) {th : Thread} (hth : th ∈ m.threads) :
    th.Typed m.shared where
  shared := h.shared
  frames := h.frames th hth
  opened _ he := opened_of_emitting sound sorted.counted hth he
  linked d := ⟨_, sorted.linked d⟩

/-- A call that is due does not find that its method is unknown. -/
theorem Typed.known (h : m.Typed r) (sound : ∀ f ∈ m.frames, f.Sound)
    (sorted : Sorted m.shared m.frames) {th : Thread} (hth : th ∈ m.threads) {target : Target}
    {args : List Variant} (due : th.Due m.shared d target args) (error : DispatchError) :
    m.shared.callee d target args ≠ .unknown error :=
  (h.shared.callee ((h.thread sound sorted hth).fits_of_due due)).1 error

theorem Typed.reorder (h : m.Typed r) (order : List Nat) : (m.reorder order).Typed r := by
  refine ⟨h.registry, ⟨h.shared.classes, h.shared.dispatchers⟩, fun th hth f hf => ?_⟩
  exact (h.frames th hth f hf).later (Shared.ages_reorder order).later fun _ closed => closed

theorem typed_step (h : m.Typed r) (sound : ∀ f ∈ m.frames, f.Sound)
    (sorted : Sorted m.shared m.frames) {t : Nat} (step : m.StepOn t m') : m'.Typed r := by
  have closed : ∀ d, m.shared.Closed d → m'.shared.Closed d := fun d =>
    (kept_closed d).effect (effect_step sound step)
  cases step with
  | @intro th th' s found moves =>
    have thread := h.thread sound sorted (List.mem_of_getElem? found)
    obtain ⟨now, outcome⟩ := moves.outcome
    obtain ⟨typed, arisen⟩ := (thread.at_now now).outcome outcome
    have later := outcome.later
    -- All frames, those that have arisen too, are typed by what was shared before the step.
    refine ⟨later.registry.trans h.registry, typed, fun th₁ h₁ f hf => ?_⟩
    refine Frame.Typed.later (s := { m.shared with now }) ?_ later closed
    rcases List.mem_or_eq_of_mem_set h₁ with old | rfl
    · exact h.frames th₁ old f hf
    · exact arisen f hf

theorem typed_move (h : m.Typed r) (sound : ∀ f ∈ m.frames, f.Sound)
    (sorted : Sorted m.shared m.frames) (a : Move) : (m.move a).Typed r := by
  rcases m.move_cases a with e | e | ⟨order, e⟩ | ⟨t, -, step⟩
  · rw [e]
    exact h
  · rw [e]
    refine ⟨h.registry, h.shared, fun th hth f hf => ?_⟩
    rcases List.mem_append.1 hth with old | new
    · exact h.frames th old f hf
    · cases List.mem_singleton.1 new
      cases List.mem_singleton.1 hf
      trivial
  · rw [e]
    exact h.reorder order
  · exact typed_step h sound sorted step

theorem typed_run (r : Registry) (moves : List Move) : ((start r).run moves).Typed r := by
  induction moves using List.reverseRecOn with
  | nil => exact typed_start r
  | append_singleton moves a ih =>
    rw [run_concat]
    exact typed_move ih (sound_run (sound_start r) moves) (sorted_run r moves) a

/-- After every run, in the middle of other operations too:

* a method that runs is one of its object's class in the registry, and it has an argument for each of
  its parameters;
* a call that is due, whether it is the next delivery of an emission, waits in a queue that is served
  or is one for which client code may ask, does not find that its method is unknown. -/
theorem invocations_fit_methods (r : Registry) (moves : List Move) :
    let m := (start r).run moves
    ∀ th ∈ m.threads,
      (∀ i method args, .body (.method i method args) ∈ th.frames →
        ∃ x c, m.shared.instances[i]? = some x ∧ r.get? x.className = some c ∧
          c.method? method.index = some method ∧ args.length = method.entry.parameterCount) ∧
      ∀ d target args, th.Due m.shared d target args →
        ∀ error, m.shared.callee d target args ≠ .unknown error := by
  intro m th hth
  have typed : m.Typed r := typed_run r moves
  refine ⟨fun i method args hf => ?_, fun d target args due => ?_⟩
  · obtain ⟨c, hc, takes⟩ := typed.frames th hth _ hf
    obtain ⟨x, hx, hc⟩ := Option.bind_eq_some_iff.1 hc
    exact ⟨x, c, hx, typed.registry ▸ hc, takes⟩
  · exact typed.known (sound_run (sound_start r) moves) (sorted_run r moves) hth due

/-! ### A run -/

/-- A class with a signal and a slot that both take a truth value. -/
def lamp : ClassTable where
  className := 0
  superClass := none
  strings := ["Lamp", "switched", "switched(bool)", "void", "light", "light(bool)", "bool", "on"]
  classInfo := []
  methods := [(1, 2, .signal), (4, 5, .slot)].map fun (name, signature, kind) =>
    { name, signature, digest := 0, returnType := 3, parameterTypes := [6], declaredTypes := [6]
      parameterNames := [7], kind, access := .isPublic, cloned := false }
  properties := []
  enums := []

/-- The registry that knows the lamp only. -/
def lamps : Registry :=
  (({} : Registry).add lamp).2

/-- A lamp is switched, which goes to its own slot through a queue, and the queue is served. -/
def switch : List Move :=
  [.spawn, .act 0 (.newDispatcher none), .act 0 (.newObject "Lamp"), .act 0 (.register 0 0),
    .act 0 (.connectByIndex 0 ⟨0, 1⟩ 0 ⟨0, 1⟩ 1 .queued),
    .act 0 (.emitByIndex 0 ⟨0, 1⟩ 0 [.bool true]), .advance 0, .advance 0, .advance 0, .advance 0,
    .act 0 (.serve 0 (.own 0) .whileWork), .advance 0, .advance 0]

/-- The slot of the lamp is due in the queue, and then runs with one argument. -/
theorem light_runs_as_declared :
    let m := (start lamps).run switch.dropLast.dropLast
    let m' := (start lamps).run switch
    (∃ th ∈ m.threads, th.Due m.shared 0 (.method ⟨0, 1⟩ 1) [.bool true] ∧
      ∀ error, m.shared.callee 0 (.method ⟨0, 1⟩ 1) [.bool true] ≠ .unknown error) ∧
    ∃ th ∈ m'.threads, ∃ light c, .body (.method 0 light [.bool true]) ∈ th.frames ∧
      lamps.get? "Lamp" = some c ∧ c.method? light.index = some light ∧
      light.entry.parameterCount = 1 := by
  intro m m'
  refine ⟨?_, ?_⟩
  · refine ⟨_, .head _, ?_⟩
    let serving : Serving := { dispatcher := 0, loop := ⟨.own 0, 0, none⟩, mode := .whileWork }
    let waiting : Invocation := { target := .method ⟨0, 1⟩ 1, args := [.bool true] }
    have due : m.threads.head!.Due m.shared 0 waiting.target waiting.args :=
      .queued (v := serving) rfl rfl
    exact ⟨due, ((invocations_fit_methods lamps switch.dropLast.dropLast) _ (.head _)).2 0 _ _ due⟩
  · have runs := ((invocations_fit_methods lamps switch) _ (.head _)).1 0 _ [.bool true] (.head _)
    obtain ⟨x, c, hx, hc, found, count⟩ := runs
    cases hx
    exact ⟨_, .head _, _, c, .head _, hc, found, count.symm⟩

end Machine
end Reflection

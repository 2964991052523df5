import Reflection.Proofs.Checks
import Reflection.Proofs.Dispatcher.Counts
import Reflection.Proofs.Dispatcher.Order
import Reflection.Proofs.MetaClass.Places
/-!
# Calls fit the methods they are for

Arguments are counted when a signal is emitted, the method that is called may belong to another class
and may be called much later. Both agree because a connection is made only between methods with the
same parameter types, and because what an id stood for when it was given out it stands for as long as
it stands for anything (`Ages`). So the connections and the calls that wait keep to the methods they
are for (`Typed`).
-/

namespace Reflection

/-- The class has a method with `n` parameters at an absolute index. -/
def MetaClass.Takes (c : MetaClass) (index n : Nat) : Prop :=
  ∃ m, c.method? index = some m ∧ m.entry.parameterCount = n

/-- A text that is looked up leads to a method. -/
theorem MetaClass.isSome_method?_of_indexOfCanonical? {c : MetaClass} {text : String} {i : Nat}
    (h : c.indexOfCanonical? text = some i) : (c.method? i).isSome := by
  obtain ⟨below, a, above, k, split, -, ⟨⟨e, he, -⟩, -⟩, rfl⟩ := (indexOf?_eq_some_iff _ _).1 h
  have ha : a ∈ c.lineage := by simp [split]
  obtain ⟨inside, -⟩ := List.getElem?_eq_some_iff.1 he
  let m : Method := ⟨a, e, a.offset ClassTable.methods + k⟩
  have found : c.method? m.index = some m := (memberAt?_eq_some_iff ClassTable.methods).2
    ⟨rfl, k, getElem?_places ClassTable.methods ha inside, he⟩
  exact Option.isSome_iff_exists.2 ⟨m, found⟩

/-- The target that a way leads to. -/
def Route.target? : Route → Option Target
  | .skip | .fail _ => none
  | .callNow target | .enqueue _ target | .wait _ target => some target

theorem Dispatcher.requireArguments_eq_ok_iff {expected got : Nat} :
    requireArguments expected got = .ok () ↔ got = expected := by
  unfold requireArguments
  split
  · rename_i e
    exact ⟨fun _ => e, fun _ => rfl⟩
  · rename_i ne
    exact ⟨fun h => (nomatch h), fun e => absurd e ne⟩

/-- The object that was registered and its class. -/
def Registration.identity (r : Registration) : InstanceId × MetaClass :=
  (r.owner, r.metaClass)

/-- There is a text for each parameter. -/
theorem MetaClass.Method.length_parameterTypes (m : Method) :
    m.parameterTypes.length = m.entry.parameterCount :=
  List.length_map ..

namespace Dispatcher

variable {x y z : Dispatcher} {o : ObjectId} {n : Nat} {target : Target}

/-! ## What ids stand for -/

/-- What an id stands for. -/
def identity? (x : Dispatcher) (o : ObjectId) : Option (InstanceId × MetaClass) :=
  (x.object? o).map (·.identity)

theorem identity?_eq_some_iff {p : InstanceId × MetaClass} :
    x.identity? o = some p ↔ ∃ r, x.object? o = some r ∧ r.identity = p :=
  Option.map_eq_some_iff

/-- Ids that were given out stand for the same objects as before, or for none. -/
structure Ages (x y : Dispatcher) : Prop where
  issued : ∀ o, x.objects.Issued o → y.objects.Issued o
  identity : ∀ o p, x.objects.Issued o → y.identity? o = some p → x.identity? o = some p

theorem Ages.refl (x : Dispatcher) : x.Ages x :=
  ⟨fun _ h => h, fun _ _ _ h => h⟩

theorem Ages.trans (h : x.Ages y) (h' : y.Ages z) : x.Ages z :=
  ⟨fun o ho => h'.issued o (h.issued o ho),
    fun o p ho hp => h.identity o p ho (h'.identity o p (h.issued o ho) hp)⟩

/-- No object is registered, and ids that were given out are not forgotten. -/
structure Keeps (x y : Dispatcher) : Prop where
  issued : ∀ o, x.objects.Issued o → y.objects.Issued o
  identity : ∀ o p, y.identity? o = some p → x.identity? o = some p

theorem Keeps.refl (x : Dispatcher) : x.Keeps x :=
  ⟨fun _ h => h, fun _ _ h => h⟩

theorem Keeps.trans (h : x.Keeps y) (h' : y.Keeps z) : x.Keeps z :=
  ⟨fun o ho => h'.issued o (h.issued o ho), fun o p hp => h.identity o p (h'.identity o p hp)⟩

theorem Keeps.ages (h : x.Keeps y) : x.Ages y :=
  ⟨h.issued, fun o p _ => h.identity o p⟩

theorem Keeps.of_objects (h : y.objects = x.objects) : x.Keeps y := by
  refine ⟨fun o ho => h ▸ ho, fun o p hp => ?_⟩
  rwa [identity?, object?, h] at hp

theorem keeps_modifyObject {f : Registration → Registration} (hf : ∀ r, (f r).identity = r.identity) :
    x.Keeps (x.modifyObject o f) := by
  refine ⟨fun o' ho => ho.modify o f, fun o' p hp => ?_⟩
  obtain ⟨r, hr, rfl⟩ := identity?_eq_some_iff.1 hp
  simp only [object?, modifyObject, Arena.get?_modify] at hr
  split at hr
  · rename_i same
    obtain ⟨old, ho, rfl⟩ := Option.map_eq_some_iff.1 hr
    exact identity?_eq_some_iff.2 ⟨old, same ▸ ho, (hf old).symm⟩
  · exact identity?_eq_some_iff.2 ⟨r, hr, rfl⟩

theorem keeps_queues (x : Dispatcher) (queues : Queues Invocation) : x.Keeps { x with queues } :=
  .of_objects rfl

theorem keeps_unlink {id : ConnectionId} : x.Keeps (x.unlink o id) :=
  keeps_modifyObject fun _ => rfl

theorem keeps_disconnect (x : Dispatcher) (id : ConnectionId) : x.Keeps (x.disconnect id).2 := by
  unfold disconnect
  split
  · exact .refl x
  · have erased : x.Keeps { x with connections := x.connections.erase id } := .of_objects rfl
    dsimp only
    split
    · exact erased.trans keeps_unlink
    · split
      · exact erased.trans keeps_unlink
      · exact (erased.trans keeps_unlink).trans keeps_unlink

theorem keeps_sever (x : Dispatcher) (gone : ObjectId) (id : ConnectionId) :
    x.Keeps (x.sever gone id).2 := by
  have without : ∀ c : Connection,
      let left := { x with connections := x.connections.erase id }
      x.Keeps (if c.sender = gone then left else left.unlink c.sender id) := by
    intro c left
    have erased : x.Keeps left := .of_objects rfl
    split
    · exact erased
    · exact erased.trans keeps_unlink
  unfold sever
  split
  · exact .refl x
  · dsimp only
    split
    · exact without _
    · split
      · exact without _
      · exact (without _).trans keeps_unlink

theorem keeps_beginDestroy {order : List Nat} {ids : List ConnectionId}
    (h : x.beginDestroy? order o = some (ids, y)) : x.Keeps y := by
  unfold beginDestroy? at h
  split at h
  · cases h
  · cases h
    exact keeps_modifyObject fun _ => rfl

theorem keeps_endDestroy : x.Keeps (x.endDestroy o) := by
  refine ⟨fun o' ho => ho.erase o, fun o' p hp => ?_⟩
  obtain ⟨r, hr, rfl⟩ := identity?_eq_some_iff.1 hp
  simp only [object?, endDestroy, Arena.get?_erase] at hr
  split at hr
  · cases hr
  · exact identity?_eq_some_iff.2 ⟨r, hr, rfl⟩

theorem keeps_link (x : Dispatcher) (c : Connection) : x.Keeps (x.link c).2 := by
  have more : x.Keeps { x with connections := (x.connections.insert c).2 } := .of_objects rfl
  unfold link
  dsimp only
  split
  · exact more.trans (keeps_modifyObject fun _ => rfl)
  · refine (more.trans (keeps_modifyObject ?_)).trans (keeps_modifyObject ?_)
    · exact fun _ => rfl
    · exact fun _ => rfl

/-- An object is registered under a new id. -/
theorem identity?_register (x : Dispatcher) (owner : InstanceId) (metaClass : MetaClass)
    (context : Context) (o : ObjectId) :
    (x.register owner metaClass context).2.identity? o =
      if o = (x.register owner metaClass context).1 then some (owner, metaClass)
      else x.identity? o := by
  split
  · rename_i e
    rw [e]
    show ((x.objects.insert _).2.get? (x.objects.insert _).1).map _ = _
    rw [Arena.get?_insert_self]
    rfl
  · rename_i ne
    exact congrArg (Option.map _) (Arena.get?_insert_of_ne x.objects _ ne)

theorem ages_register (x : Dispatcher) (owner : InstanceId) (metaClass : MetaClass)
    (context : Context) : x.Ages (x.register owner metaClass context).2 := by
  refine ⟨fun o ho => ho.insert _, fun o p ho hp => ?_⟩
  rw [identity?_register] at hp
  split at hp
  · rename_i e
    exact absurd (e ▸ ho) (Arena.not_issued_insert _ _)
  · exact hp

/-! ## Targets and arguments -/

/-- If the target is a method, it has `n` parameters as long as its object is registered. -/
inductive Fits (x : Dispatcher) (n : Nat) : Target → Prop
  | callback (context : Context) (number : CallbackId) : Fits x n (.callback context number)
  | method {o : ObjectId} {index : Nat} (issued : x.objects.Issued o)
      (takes : ∀ i c, x.identity? o = some (i, c) → c.Takes index n) : Fits x n (.method o index)

/-- The target of a connection has as many parameters as its signal. -/
structure Joins (x : Dispatcher) (c : Connection) : Prop where
  issued : x.objects.Issued c.sender
  fits : ∀ i k n, x.identity? c.sender = some (i, k) → k.Takes c.signal n → x.Fits n c.target

/-- Connections join what fits, and calls that wait have as many arguments as their targets have
parameters. -/
structure Typed (x : Dispatcher) : Prop where
  joins : ∀ id c, x.connection? id = some c → x.Joins c
  queued : ∀ q i, .work i ∈ (x.queues.queue q).items → x.Fits i.args.length i.target

theorem Fits.ages (h : x.Fits n target) (ages : x.Ages y) : y.Fits n target := by
  cases h with
  | callback context number => exact .callback context number
  | method issued takes =>
    exact .method (ages.issued _ issued) fun i c hc => takes i c (ages.identity _ _ issued hc)

theorem Joins.ages {c : Connection} (h : x.Joins c) (ages : x.Ages y) : y.Joins c :=
  ⟨ages.issued _ h.issued, fun i k n hk takes =>
    (h.fits i k n (ages.identity _ _ h.issued hk) takes).ages ages⟩

theorem Typed.of_ages (h : x.Typed) (ages : x.Ages y)
    (connection : ∀ id c, y.connection? id = some c → x.connection? id = some c)
    (queued : ∀ q i, .work i ∈ (y.queues.queue q).items → ∃ q, .work i ∈ (x.queues.queue q).items) :
    y.Typed := by
  refine ⟨fun id c hc => (h.joins id c (connection id c hc)).ages ages, fun q i hi => ?_⟩
  obtain ⟨q', hq⟩ := queued q i hi
  exact (h.queued q' i hq).ages ages

theorem typed_new (timeout : Option Nat) : ({ timeout } : Dispatcher).Typed :=
  ⟨fun _ _ h => (nomatch h), fun _ _ h => (nomatch h)⟩

theorem Typed.of_eq (h : x.Typed) (ages : x.Ages y) (connections : y.connections = x.connections)
    (queues : y.queues = x.queues) : y.Typed := by
  refine h.of_ages ages (fun id c hc => ?_) fun q i hi => ⟨q, queues ▸ hi⟩
  rwa [connection?, connections] at hc

theorem Typed.register (h : x.Typed) (owner : InstanceId) (metaClass : MetaClass)
    (context : Context) : (x.register owner metaClass context).2.Typed :=
  h.of_eq (x.ages_register owner metaClass context) rfl rfl

theorem Typed.cut (h : x.Typed) (keeps : x.Keeps y) {id : ConnectionId}
    (connections : y.connections = x.connections.erase id) (queues : y.queues = x.queues) :
    y.Typed := by
  refine h.of_ages keeps.ages (fun id' c hc => ?_) fun q i hi => ⟨q, queues ▸ hi⟩
  rw [connection?, connections, Arena.get?_erase] at hc
  split at hc
  · cases hc
  · exact hc

theorem Typed.withQueues (h : x.Typed) {queues : Queues Invocation}
    (queued : ∀ q i, .work i ∈ (queues.queue q).items → ∃ q, .work i ∈ (x.queues.queue q).items) :
    ({ x with queues } : Dispatcher).Typed :=
  h.of_ages (x.keeps_queues queues).ages (fun _ _ hc => hc) queued

theorem Typed.enqueue (h : x.Typed) {i : Invocation} (fits : x.Fits i.args.length i.target)
    (context : Context) : (x.enqueue context i).Typed := by
  have ages : x.Ages (x.enqueue context i) := (x.keeps_queues _).ages
  refine ⟨fun id c hc => (h.joins id c hc).ages ages, fun q j hj => ?_⟩
  rcases Queues.mem_queue_post hj with e | old
  · cases e
    exact fits.ages ages
  · exact (h.queued q j old).ages ages

theorem Typed.link (h : x.Typed) {c : Connection} (joins : x.Joins c) : (x.link c).2.Typed := by
  have ages : x.Ages (x.link c).2 := (x.keeps_link c).ages
  refine ⟨fun id c' hc => ?_, fun q i hi => ?_⟩
  · rw [(connection?_link x c).2] at hc
    split at hc
    · cases hc
      exact joins.ages ages
    · exact (h.joins id c' hc).ages ages
  · rw [queues_link] at hi
    exact (h.queued q i hi).ages ages

/-! ## What passes the checks -/

variable {sender receiver : ObjectId} {type : ConnectionType} {args : List Variant} {route : Route}

theorem issued_of_object? {r : Registration} (h : x.object? o = some r) : x.objects.Issued o :=
  Arena.issued_of_get? h

/-- What holds of the registration that an id leads to holds of what the id stands for. -/
theorem of_identity? {r : Registration} (hr : x.object? o = some r) {i : InstanceId} {c : MetaClass}
    (h : x.identity? o = some (i, c)) : c = r.metaClass := by
  rw [identity?, hr] at h
  exact (congrArg Prod.snd (Option.some.inj h)).symm

theorem joins_of_connectByIndex {signal slot : Nat} {p : ConnectionId × Dispatcher}
    (h : x.connectByIndex sender signal receiver slot type = .ok p) :
    ∃ c, x.Joins c ∧ p = x.link c := by
  simp only [connectByIndex, bind_eq_ok_iff, refuse_bind_eq_ok_iff] at h
  obtain ⟨source, hs, destination, hd, m, hm, k, hk, compatible, _, -, _, -, h⟩ := h
  have hs := endpoint_eq_ok_iff.1 hs
  have hd := endpoint_eq_ok_iff.1 hd
  have signal : source.metaClass.method? signal = some m := by
    unfold MetaClass.signal at hm
    split at hm
    · cases hm
    · rename_i found
      split at hm
      · cases hm
        exact found
      · cases hm
  have slot : destination.metaClass.method? slot = some k := by
    unfold MetaClass.slot at hk
    split at hk
    · cases hk
    · rename_i found
      cases hk
      exact found
  have same : m.parameterTypes = k.parameterTypes := by
    simpa [Signature.compatible] using compatible
  refine ⟨_, ⟨issued_of_object? hs, fun i c n hc takes => ?_⟩, (Except.ok.inj h).symm⟩
  obtain ⟨m', hm', rfl⟩ := takes
  refine .method (issued_of_object? hd) fun i' c' hc' => ⟨k, of_identity? hd hc' ▸ slot, ?_⟩
  -- Equal parameter types are equally many.
  rw [of_identity? hs hc, signal] at hm'
  cases hm'
  rw [← MetaClass.Method.length_parameterTypes, ← same, MetaClass.Method.length_parameterTypes]

/-- Methods that are connected by their signatures are connected by their indices. -/
theorem connectByIndex_of_connect {signal slot : String} {p : ConnectionId × Dispatcher}
    (h : x.connect sender signal receiver slot type = .ok p) :
    ∃ i j, x.connectByIndex sender i receiver j type = .ok p := by
  simp only [connect, bind_eq_ok_iff] at h
  obtain ⟨_, -, _, -, _, -, _, -, i, -, j, -, h⟩ := h
  exact ⟨i, j, h⟩

theorem joins_of_connectCallback {signal : String} {context : Context} {callback : CallbackId}
    {p : ConnectionId × Dispatcher}
    (h : x.connectCallback sender signal context callback type = .ok p) :
    ∃ c, x.Joins c ∧ p = x.link c := by
  simp only [connectCallback, bind_eq_ok_iff] at h
  obtain ⟨_, -, source, hs, _, -, _, -, h⟩ := h
  exact ⟨_, ⟨issued_of_object? (endpoint_eq_ok_iff.1 hs), fun _ _ _ _ _ => .callback context callback⟩,
    (Except.ok.inj h).symm⟩

theorem Linked.of_mem_snapshot {severing : Multiset (ObjectId × List ConnectionId)}
    (linked : x.Linked severing) {r : Registration} (hr : x.object? o = some r) {signal : Nat}
    {id : ConnectionId} {c : Connection} (h : (id, c) ∈ x.snapshot r signal) :
    x.connection? id = some c ∧ c.sender = o ∧ c.signal = signal := by
  obtain ⟨id', listed, found⟩ := List.mem_filterMap.1 h
  obtain ⟨c', hc, e⟩ := Option.map_eq_some_iff.1 found
  cases e
  obtain ⟨c', hc', ends⟩ := linked.of_outgoing o r.links signal id (links?_of_object? hr)
    (Registration.mem_outgoingOf.1 listed)
  cases hc.symm.trans hc'
  exact ⟨hc, ends⟩

/-- An emission has as many arguments as the targets of its deliveries have parameters. -/
theorem Typed.fits_of_beginEmission (h : x.Typed)
    {severing : Multiset (ObjectId × List ConnectionId)} (linked : x.Linked severing) {signal : Nat}
    {all : List (ConnectionId × Connection)} (passes : x.beginEmission sender signal args = .ok all) :
    ∀ p ∈ all, x.Fits args.length p.2.target := by
  unfold Dispatcher.beginEmission at passes
  split at passes
  · cases passes
  · rename_i r hr
    split at passes
    · cases passes
    · rename_i m hm
      obtain ⟨-, passes⟩ := refuse_bind_eq_ok_iff.1 passes
      obtain ⟨counted, passes⟩ := check_bind_eq_ok_iff.1 passes
      cases passes
      rintro ⟨id, c⟩ hp
      split at hp
      · -- The connection is one of this sender and signal, so it joins what fits.
        obtain ⟨hc, rfl, rfl⟩ := linked.of_mem_snapshot hr hp
        refine (h.joins id c hc).fits r.owner r.metaClass _ ?_ ⟨m, hm, ?_⟩
        · exact identity?_eq_some_iff.2 ⟨r, hr, rfl⟩
        · exact (requireArguments_eq_ok_iff.1 counted).symm
      · cases hp

theorem target?_route {current context : Context} {t : Target}
    (h : (Dispatcher.route type current context target).target? = some t) : t = target := by
  unfold Dispatcher.route at h
  cases type with
  | queued => exact (Option.some.inj h).symm
  | _ =>
    dsimp only at h
    split at h
    all_goals cases h <;> rfl

theorem target?_routeOver {c : Connection} {current : Context} {t : Target}
    (h : (x.routeOver c current).target? = some t) : t = c.target := by
  unfold Dispatcher.routeOver at h
  split at h
  · exact target?_route h
  · split at h
    · cases h
    · exact target?_route h

/-- A method that is looked up by its text is one of the object's class. -/
theorem methodNamed_eq_ok {text : String} {r : Registration} {index : Nat}
    (h : x.methodNamed o text = .ok (r, index)) :
    x.object? o = some r ∧ ∃ m, r.metaClass.method? index = some m := by
  simp only [methodNamed, bind_eq_ok_iff] at h
  obtain ⟨s, -, h⟩ := h
  split at h
  · cases h
  · rename_i r' hr
    split at h
    · cases h
    · rename_i index' found
      cases h
      exact ⟨hr, Option.isSome_iff_exists.1 (MetaClass.isSome_method?_of_indexOfCanonical? found)⟩

/-- A call has as many arguments as its target has parameters. -/
theorem fits_of_beginCall {text : String} {current : Context}
    (h : x.beginCall o text type args current = .ok route) (leads : route.target? = some target) :
    x.Fits args.length target := by
  simp only [beginCall, bind_eq_ok_iff, refuse_bind_eq_ok_iff] at h
  obtain ⟨⟨r, index⟩, named, _, counted, -, h⟩ := h
  obtain ⟨hr, m, hm⟩ := methodNamed_eq_ok named
  cases h
  rw [target?_route leads]
  refine .method (issued_of_object? hr) fun i c hc => ⟨m, of_identity? hr hc ▸ hm, ?_⟩
  rw [hm] at counted
  exact (requireArguments_eq_ok_iff.1 counted).symm

end Dispatcher
end Reflection

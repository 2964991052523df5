import Reflection.Proofs.Machine.Queues
/-!
# What binds a thread to a context

A thread changes its context only where client code enters one, where a loop is made and where a loop
ends (`Thread.Rebinds`). A loop that is made takes the thread to its context and remembers where it was,
if it was elsewhere. The end of the loop takes the thread back there, wherever it is by then. All other
steps leave the context alone, and the loops of the thread with it (`Thread.Calm`).
-/

namespace Reflection

/-- A loop made on a thread in `current` remembers this context if it is not its own. -/
def Loop.Leaves (l : Loop) (current : Context) : Prop :=
  l.previous = if l.context = current then none else some current

theorem Loop.leaves_start {α : Type} (qs : Queues α) (current context : Context) :
    (Loop.start qs current context).1.Leaves current :=
  rfl

/-- The loop that a frame runs, with its number if client code keeps it. -/
def Frame.served? : Frame → Option (Option LoopId × Loop)
  | .serving v => some (v.own, v.loop)
  | _ => none

namespace Thread

/-- The loops that run on a thread, the innermost first. -/
def served (th : Thread) : List (Option LoopId × Loop) :=
  th.frames.filterMap (·.served?)

/-- Neither the context of a thread nor its loops change. -/
structure Calm (th th' : Thread) : Prop where
  current : th'.current = th.current
  loops : th'.loops = th.loops
  served : th'.served = th.served

/-- What a step does to the context of a thread and to its loops. -/
inductive Rebinds (th th' : Thread) : Prop
  | stays (calm : th.Calm th')
  | enters (loops : th'.loops = th.loops) (served : th'.served = th.served)
  /-- Client code makes a loop to keep. -/
  | keeps (o : OwnLoop) (leaves : o.loop.Leaves th.current) (current : th'.current = o.loop.context)
      (loops : th'.loops = th.loops ++ [some o]) (served : th'.served = th.served)
  | drops (l : LoopId) (o : OwnLoop) (found : th.loop? l = some o)
      (unused : ∀ loop, (some l, loop) ∉ th.served)
      (current : th'.current = o.loop.previous.getD th.current)
      (loops : th'.loops = th.loops.set l none) (served : th'.served = th.served)
  /-- Client code makes a loop to run it once. -/
  | serves (loop : Loop) (leaves : loop.Leaves th.current) (current : th'.current = loop.context)
      (loops : th'.loops = th.loops) (served : th'.served = (none, loop) :: th.served)
  | uses (l : LoopId) (o : OwnLoop) (found : th.loop? l = some o) (current : th'.current = th.current)
      (loops : th'.loops = th.loops)
      (served : th'.served = (some l, { o.loop with previous := none }) :: th.served)
  | ends (owner : Option LoopId) (loop : Loop) (served : th.served = (owner, loop) :: th'.served)
      (current : th'.current = loop.previous.getD th.current) (loops : th'.loops = th.loops)

variable {s s' : Shared} {th th' th'' : Thread} {f g : Frame} {rest fs : List Frame}
  {p : Shared × Thread}

theorem Calm.refl (th : Thread) : th.Calm th :=
  ⟨rfl, rfl, rfl⟩

theorem Calm.trans (h : th.Calm th') (h' : th'.Calm th'') : th.Calm th'' :=
  ⟨h'.current.trans h.current, h'.loops.trans h.loops, h'.served.trans h.served⟩

/-- What is bound after a step that changes neither context nor loops is bound after both. -/
theorem Calm.rebinds (h : th.Calm th') (r : th'.Rebinds th'') : th.Rebinds th'' := by
  have found : ∀ l, th'.loop? l = th.loop? l := fun l => by rw [loop?, loop?, h.loops]
  cases r with
  | stays calm => exact .stays (h.trans calm)
  | enters loops served => exact .enters (loops.trans h.loops) (served.trans h.served)
  | keeps o leaves current loops served =>
    exact .keeps o (h.current ▸ leaves) current (h.loops ▸ loops) (served.trans h.served)
  | drops l o mine unused current loops served =>
    exact .drops l o (found l ▸ mine) (h.served ▸ unused) (h.current ▸ current) (h.loops ▸ loops)
      (served.trans h.served)
  | serves loop leaves current loops served =>
    exact .serves loop (h.current ▸ leaves) current (loops.trans h.loops) (h.served ▸ served)
  | uses l o mine current loops served =>
    exact .uses l o (found l ▸ mine) (current.trans h.current) (loops.trans h.loops) (h.served ▸ served)
  | ends owner loop served current loops =>
    exact .ends owner loop (h.served ▸ served) (h.current ▸ current) (loops.trans h.loops)

/-- A loop of client code is in use if it is among those that run. -/
theorem uses_iff {l : LoopId} : th.uses l ↔ ∃ loop, (some l, loop) ∈ th.served := by
  simp only [uses, served, List.any_eq_true, List.mem_filterMap]
  constructor
  · rintro ⟨f, hf, h⟩
    cases f with
    | serving v => exact ⟨v.loop, _, hf, by simp [Frame.served?, of_decide_eq_true h]⟩
    | _ => cases h
  · rintro ⟨loop, f, hf, h⟩
    refine ⟨f, hf, ?_⟩
    cases f with
    | serving v =>
      exact decide_eq_true (congrArg Prod.fst (Option.some.inj h))
    | _ => cases h

/-! ## Frames -/

theorem served_cons (hf : th.frames = f :: rest) (other : f.served? = none) :
    th.served = rest.filterMap (·.served?) := by
  rw [served, hf, List.filterMap_cons_none other]

theorem served_serving {v : Serving} (hf : th.frames = .serving v :: rest) :
    th.served = (v.own, v.loop) :: rest.filterMap (·.served?) := by
  rw [served, hf]
  rfl

theorem calm_withFrames (same : fs.filterMap (·.served?) = th.served) : th.Calm (th.withFrames fs) :=
  ⟨rfl, rfl, same⟩

/-- The innermost frame, which is no loop, gives way to others. -/
theorem calm_replace (hf : th.frames = f :: rest) (other : f.served? = none)
    (same : fs.filterMap (·.served?) = rest.filterMap (·.served?)) : th.Calm (th.withFrames fs) :=
  calm_withFrames (same.trans (served_cons hf other).symm)

@[simp] theorem served_afterDelivery (c : Connection) (fs : List Frame) :
    (afterDelivery c fs).filterMap (·.served?) = fs.filterMap (·.served?) := by
  unfold afterDelivery
  split <;> rfl

@[simp] theorem served_afterCut (c : Option Connection) (fs : List Frame) :
    (afterCut c fs).filterMap (·.served?) = fs.filterMap (·.served?) := by
  cases c with
  | none => rfl
  | some c => exact served_afterDelivery c fs

theorem served_beginSevering (s : Shared) (d : DispatcherId) (id : ObjectId) (held : List Held)
    (reply : Bool → Reply) : (beginSevering s d id held reply).2.served? = none := by
  unfold beginSevering
  split <;> rfl

/-! ## Steps that leave the context alone -/

theorem calm_resume (s : Shared) (th : Thread) (reply : Reply) : th.Calm (resume s th reply).2 := by
  unfold resume
  split
  case h_1 => exact ⟨rfl, rfl, rfl⟩
  case h_2 hf => exact calm_replace hf rfl rfl
  case h_3 hf => exact calm_replace hf rfl rfl
  case h_4 hf =>
    split
    · exact .refl th
    · exact calm_replace hf rfl (served_afterDelivery _ _)
  case h_5 hf =>
    split
    · exact .refl th
    · exact calm_replace hf rfl rfl
  case h_6 hf => exact calm_replace hf rfl rfl
  case h_7 hf => exact calm_replace hf rfl rfl
  case h_8 hf => exact calm_replace hf rfl rfl
  case h_9 hf =>
    split
    · exact calm_replace hf rfl rfl
    · exact calm_replace hf rfl (List.filterMap_cons_none (served_beginSevering ..))
  case h_10 => exact .refl th

/-- The innermost frame, which is no loop, is over, and the one below it gets a reply. -/
theorem calm_resume_below (hf : th.frames = f :: rest) (other : f.served? = none) (s : Shared)
    (reply : Reply) : th.Calm (resume s (th.withFrames rest) reply).2 :=
  (calm_replace hf other rfl).trans (calm_resume s _ reply)

theorem calm_finish (s : Shared) (th : Thread) (y : Yield) : th.Calm (finish s th y).2 := by
  unfold finish
  split
  · rename_i hf
    have ended : th.Calm { th with frames := _, answer := none } :=
      ⟨rfl, rfl, (served_cons hf rfl).symm⟩
    exact ended.trans (calm_resume s _ _)
  · exact .refl th

theorem calm_deliver (s : Shared) (e : Emission) (id : ConnectionId) (c : Connection)
    (hf : th.frames = f :: rest) (other : f.served? = none) :
    th.Calm (deliver s th e id c rest).2 := by
  have settled : ∀ e' : Emission, th.Calm (th.withFrames (afterDelivery c (.emitting e' :: rest))) :=
    fun e' => calm_replace hf other (served_afterDelivery _ _)
  unfold deliver
  dsimp only
  split
  · exact settled _
  · exact settled _
  · exact settled _
  · exact settled _
  · split
    · exact settled _
    · exact settled _
    · exact calm_replace hf other rfl

/-- What was taken from a queue is executed in the context in which the thread is. -/
theorem calm_execute (s : Shared) (d : DispatcherId) (i : Invocation)
    (same : rest.filterMap (·.served?) = th.served) : th.Calm (execute s th d i rest).2 := by
  have executing : th.Calm (th.withFrames (.executing i :: rest)) := calm_withFrames same
  unfold execute
  split
  · exact executing.trans (calm_resume s _ _)
  · exact executing.trans (calm_resume s _ _)
  · exact calm_withFrames same

theorem calm_release (s : Shared) (h : Held) (held : List Held) (reply : Reply)
    (hf : th.frames = f :: rest) (other : f.served? = none) :
    th.Calm (release s th h held reply rest).2 := by
  unfold release
  dsimp only
  split
  · exact calm_replace hf other rfl
  · split
    · exact calm_replace hf other rfl
    · exact calm_replace hf other rfl
    · exact calm_replace hf other rfl
    · exact calm_replace hf other rfl

/-! ### Client code -/

theorem calm_reply (s : Shared) (th : Thread) (a : Answer) : th.Calm (reply s th a).2 :=
  ⟨rfl, rfl, rfl⟩

theorem calm_push (s : Shared) (th : Thread) (other : f.served? = none) : th.Calm (push s th f).2 :=
  calm_withFrames (List.filterMap_cons_none other)

theorem calm_replyChange (s : Shared) (th : Thread) (d : DispatcherId)
    (result : Except ObjectError Dispatcher) : th.Calm (replyChange s th d result).2 := by
  cases result <;> exact calm_reply ..

theorem calm_replyConnected (s : Shared) (th : Thread) (d : DispatcherId)
    (result : Except ConnectionError (ConnectionId × Dispatcher)) :
    th.Calm (replyConnected s th d result).2 := by
  cases result <;> exact calm_reply ..

theorem calm_beginEmitting (s : Shared) (th : Thread) (d : DispatcherId) (args : List Variant)
    (held : List Held) (deliveries : Except DispatchError (List (ConnectionId × Connection))) :
    th.Calm (beginEmitting s th d args held deliveries).2 := by
  cases deliveries <;> exact calm_push _ th rfl

theorem calm_emitOwn (s : Shared) (th : Thread) (i : InstanceId) (args : List Variant)
    (deliveries : Dispatcher → ObjectId → Except DispatchError (List (ConnectionId × Connection))) :
    th.Calm (emitOwn s th i args deliveries).2 := by
  unfold emitOwn
  split
  · exact calm_reply ..
  · exact calm_beginEmitting ..

theorem calm_beginCalling (s : Shared) (th : Thread) (d : DispatcherId) (args : List Variant)
    (route : Route) : th.Calm (beginCalling s th d args route).2 := by
  cases route with
  | skip | fail | enqueue => exact calm_reply ..
  | wait => exact calm_withFrames rfl
  | callNow target =>
    unfold beginCalling
    dsimp only
    split
    · exact calm_reply ..
    · exact calm_reply ..
    · exact calm_withFrames rfl

theorem calm_beginAccess (s : Shared) (th : Thread) (d : DispatcherId) (id : ObjectId) (name : String)
    (access : PropertyAccess) (refuse : ObjectError → Answer)
    (code : InstanceId → MetaClass.Property → Except ObjectError Entry) :
    th.Calm (beginAccess s th d id name access refuse code).2 := by
  unfold beginAccess
  split
  · exact calm_reply ..
  · split
    · exact calm_reply ..
    · split
      · exact calm_reply ..
      · exact calm_withFrames rfl

/-! ## Steps that bind a thread -/

theorem rebinds_stopServing (s : Shared) {v : Serving} (exit : LoopExit)
    (hf : th.frames = .serving v :: rest) :
    th.Rebinds (stopServing s th v exit rest).2 := by
  refine .ends v.own v.loop ?_ rfl rfl
  rw [served_serving hf]
  rfl

theorem rebinds_serveNext {v : Serving} (hf : th.frames = .serving v :: rest)
    (h : serveNext s th v rest = some p) : th.Rebinds p.2 := by
  unfold serveNext at h
  dsimp only at h
  split at h
  · split at h
    · cases h
      exact rebinds_stopServing s .empty hf
    · cases h
  · split at h
    · cases h
      exact .stays (calm_execute _ _ _ (served_serving hf).symm)
    · split at h
      · cases h
        exact .stays (.refl th)
      · cases h
        exact rebinds_stopServing _ .quit hf

theorem rebinds_advance (h : advance s th = some p) : th.Rebinds p.2 := by
  unfold advance at h
  split at h
  case h_1 hf =>
    cases h
    exact .stays (calm_replace hf rfl rfl)
  case h_2 hf =>
    split at h
    · cases h
      exact .stays (calm_deliver s _ _ _ hf rfl)
    · cases h
      exact .stays (calm_replace hf rfl rfl)
    · cases h
      exact .stays (calm_replace hf rfl rfl)
  case h_3 hf =>
    split at h
    · cases h
    · cases h
      exact .stays (calm_resume_below hf rfl s _)
  case h_4 hf => exact rebinds_serveNext hf h
  case h_5 hf =>
    cases h
    exact .stays (calm_replace hf rfl (served_afterCut _ _))
  case h_6 hf =>
    cases h
    exact .stays (calm_replace hf rfl rfl)
  case h_7 hf =>
    cases h
    exact .stays (calm_replace hf rfl (served_afterCut _ _))
  case h_8 hf =>
    cases h
    exact .stays (calm_replace hf rfl rfl)
  case h_9 hf =>
    cases h
    exact .stays (calm_resume_below hf rfl s _)
  case h_10 hf =>
    cases h
    exact .stays (calm_release s _ _ _ hf rfl)
  case h_11 => cases h

theorem rebinds_expire (s : Shared) (th : Thread) : th.Rebinds (expire s th).2 := by
  unfold expire
  split
  · rename_i h
    exact rebinds_advance h
  · rename_i hf
    exact .stays (calm_resume_below hf rfl s _)
  · rename_i hf
    exact rebinds_stopServing s .timedOut hf
  · exact .stays (.refl th)

theorem rebinds_useLoop (s : Shared) (th : Thread) (l : LoopId) (mode : LoopMode) :
    th.Rebinds (useLoop s th l mode).2 := by
  unfold useLoop
  split
  · exact .stays (.refl th)
  · rename_i d loop found
    split
    · exact .stays (.refl th)
    · exact .uses l ⟨d, loop⟩ found rfl rfl rfl

theorem rebinds_dropLoop (s : Shared) (th : Thread) (l : LoopId) :
    th.Rebinds (dropLoop s th l).2 := by
  unfold dropLoop
  split
  · exact .stays (.refl th)
  · rename_i d loop found
    dsimp only
    split
    · exact .stays (.refl th)
    · rename_i free
      have unused : ∀ loop, (some l, loop) ∉ th.served := fun loop runs =>
        free (by rw [uses_iff.2 ⟨loop, runs⟩, Bool.true_or])
      exact .drops l ⟨d, loop⟩ found unused rfl rfl rfl

theorem rebinds_perform (s : Shared) (th : Thread) (a : Action) :
    th.Rebinds (perform s th a).2 := by
  cases a with
  | newDispatcher | shareDispatcher | newObject | newCallback | quit => exact .stays (calm_reply ..)
  | dropDispatcher | dropObject | disconnectAll => exact .stays (calm_push _ th rfl)
  | register d i =>
    unfold perform
    dsimp only
    split <;> exact .stays (calm_reply ..)
  | destroy d id =>
    have other := served_beginSevering (s.retain (.dispatcher d)) d id [.dispatcher d]
      fun b => .answer (.flag b)
    exact .stays (calm_push _ th other)
  | move | setName => exact .stays (calm_replyChange ..)
  | block d id blocked =>
    unfold perform
    dsimp only
    split <;> exact .stays (calm_reply ..)
  | connect | connectByIndex => exact .stays (calm_replyConnected ..)
  | connectCallback d sender signal callback type =>
    unfold perform
    dsimp only
    split
    · exact .stays (calm_push _ th rfl)
    · exact .stays (calm_reply ..)
  | disconnect d id => exact .stays (calm_withFrames (served_afterCut _ _))
  | emit | emitByIndex => exact .stays (calm_beginEmitting ..)
  | emitOwn | emitOwnByIndex => exact .stays (calm_emitOwn ..)
  | call d id method type args =>
    unfold perform
    dsimp only
    split
    · exact .stays (calm_reply ..)
    · exact .stays (calm_beginCalling ..)
  | read | write | reset => exact .stays (calm_beginAccess ..)
  | serve d context mode => exact .serves _ (Loop.leaves_start ..) rfl rfl rfl
  | enter context => exact .enters rfl rfl
  | newLoop d context => exact .keeps ⟨d, _⟩ (Loop.leaves_start ..) rfl rfl rfl
  | useLoop l mode => exact rebinds_useLoop s th l mode
  | dropLoop l => exact rebinds_dropLoop s th l
  | newQuitHandle | copyQuitHandle | quitBy | dropQuitHandle =>
    unfold perform
    dsimp only
    split
    · exact .stays (.refl th)
    · exact .stays (calm_reply ..)

theorem rebinds_act (s : Shared) (th : Thread) (a : Action) : th.Rebinds (act s th a).2 := by
  unfold act
  split
  · split
    · have taken : th.Calm { th with answer := none } := ⟨rfl, rfl, rfl⟩
      exact taken.rebinds (rebinds_perform s _ a)
    · exact .stays (.refl th)
  · exact .stays (.refl th)

/-- Whatever happens on a thread binds it in one of these ways. -/
theorem Moves.rebinds (h : Moves s th s' th') : th.Rebinds th' := by
  cases h with
  | act a => exact rebinds_act s th a
  | finish y => exact .stays (calm_finish s th y)
  | advance h => exact rebinds_advance h
  | expire now => exact rebinds_expire _ th

end Thread
end Reflection

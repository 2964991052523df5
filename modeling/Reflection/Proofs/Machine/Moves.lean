import Reflection.Proofs.Machine.Turn
/-!
# Every step is a few turns

The steps of a thread are taken apart once and for all here: `Moves.turns` says that the step leaves
the outer frames of the stack alone and that the inner ones and what threads share change by turns,
unless a call is given up or a connection is made.
-/

namespace Reflection

open Relation (ReflTransGen)

/-! ## Quiet changes -/

namespace Shared

variable {s : Shared}

theorem quiet_addInstance (className : String) : s.Quiet (s.addInstance className).2 :=
  ⟨fun _ => rfl, fun _ => rfl, fun _ => .refl _, rfl, rfl⟩

theorem quiet_addCallback : s.Quiet s.addCallback.2 :=
  ⟨fun _ => rfl, fun _ => rfl, fun _ => .refl _, rfl, rfl⟩

theorem quiet_now (now : Nat) : s.Quiet { s with now } :=
  ⟨fun _ => rfl, fun _ => rfl, fun _ => .refl _, rfl, rfl⟩

theorem quiet_reorder (order : List Nat) : s.Quiet { s with signalOrder := order } :=
  ⟨fun _ => rfl, fun _ => rfl, fun _ => .refl _, rfl, rfl⟩

/-- A call for which nobody waits goes into a queue unseen. -/
theorem quiet_enqueue {d : DispatcherId} {context : Context} {i : Invocation}
    (h : i.completion = none) : s.Quiet (s.enqueue d context i) := by
  have posted : s.Quiet (s.setDispatcher d ((s.dispatcher d).enqueue context i)) := by
    refine quiet_setDispatcher ⟨⟨rfl, rfl⟩, ?_⟩
    rw [Dispatcher.awaited_enqueue, h]
    exact (zero_add _).le
  refine posted.trans (quiet_retainAll fun d => ?_)
  simp [Invocation.held]

theorem alike_enqueueWaiting {d : DispatcherId} {context : Context} {target : Target}
    {args : List Variant} : s.Alike (s.enqueueWaiting d context target args).2 := by
  let i : Invocation := { target, args, completion := some s.completions.length }
  have posted : s.Alike (s.addCompletion.2.setDispatcher d ((s.dispatcher d).enqueue context i)) :=
    ⟨fun _ => handles_setDispatcher _, fun _ => owned_setDispatcher _,
      setDispatcher_rel (s := s.addCompletion.2) .refl ⟨rfl, rfl⟩, size_setDispatcher _⟩
  have held : ∀ d', .dispatcher d' ∉ i.held := by
    simp [Invocation.held]
  exact posted.trans (quiet_retainAll held).alike

theorem alike_complete (k : CompletionId) (c : Completion) : s.Alike (s.complete k c) :=
  ⟨fun _ => rfl, fun _ => rfl, fun _ => .refl _, rfl⟩

/-- What is held while client code runs is no dispatcher and no completion. -/
theorem held_callee {d : DispatcherId} {target : Target} {args : List Variant} {entry : Entry}
    {held : List Held} (h : s.callee d target args = .code entry held) :
    held = [] ∨ ∃ i, held = [.object i] := by
  unfold callee at h
  split at h
  · cases h
    exact .inl rfl
  · split at h
    · cases h
    · split at h
      · cases h
      · split at h
        · cases h
        · cases h
          exact .inr ⟨_, rfl⟩

theorem quiet_retainAll_callee {d : DispatcherId} {target : Target} {args : List Variant}
    {entry : Entry} {held : List Held} (h : s.callee d target args = .code entry held) :
    s.Quiet (s.retainAll held) := by
  rcases held_callee h with rfl | ⟨i, rfl⟩
  · exact .refl s
  · exact quiet_retainAll (by simp)

end Shared

/-! ## Unseen frames -/

/-- Frames that are replaced by others which hold the same dispatchers and completions. -/
structure Stays (old new : List Frame) : Prop extends Carries old new where
  executes : new.flatMap (·.executes) = old.flatMap (·.executes)
  dismisses : ∀ k ∈ new.flatMap (·.dismisses), k ∈ old.flatMap (·.dismisses)

theorem Stays.refl (fs : List Frame) : Stays fs fs :=
  ⟨.refl fs, rfl, fun _ h => h⟩

theorem Turn.quiet {s s' : Shared} {old new : List Frame} (h : s.Quiet s') (hf : Stays old new) :
    Turn (s, old) (s', new) :=
  .work h.alike hf.toCarries
    (.idle (fun d => (h.dispatcher d).awaited) h.completions hf.executes hf.dismisses)

theorem Turn.frames {s : Shared} {old new : List Frame} (hf : Stays old new) :
    Turn (s, old) (s, new) :=
  .quiet (.refl s) hf

theorem Thread.afterDelivery_append (c : Connection) (fs rest : List Frame) :
    afterDelivery c (fs ++ rest) = afterDelivery c fs ++ rest := by
  unfold afterDelivery
  split <;> rfl

theorem Thread.afterCut_append (c : Option Connection) (fs rest : List Frame) :
    afterCut c (fs ++ rest) = afterCut c fs ++ rest := by
  cases c with
  | none => rfl
  | some c => exact afterDelivery_append c fs rest

theorem stays_afterDelivery (c : Connection) (fs : List Frame) :
    Stays fs (Thread.afterDelivery c fs) := by
  unfold Thread.afterDelivery
  split
  · exact .refl fs
  · refine ⟨⟨rfl, rfl, ?_⟩, rfl, fun _ h => h⟩
    simp [Frame.Sound]

theorem stays_afterCut (c : Option Connection) (fs : List Frame) :
    Stays fs (Thread.afterCut c fs) := by
  cases c with
  | none => exact .refl fs
  | some c => exact stays_afterDelivery c fs

namespace Thread

variable {s s' : Shared} {th : Thread} {e : Entry} {old rest : List Frame}

/-- What there is then comes from `old` by turns, and the outer frames `rest` stay. -/
def Goes (s : Shared) (old rest : List Frame) (p : Shared × Thread) : Prop :=
  ∃ new, p.2.frames = new ++ rest ∧ Turns (s, old) (p.1, new)

/-! ## Client code -/

/-- What there is then comes by turns from the client code that runs, on top of it. -/
def Mounts (s : Shared) (e : Entry) (rest : List Frame) (p : Shared × Thread) : Prop :=
  ∃ top, p.2.frames = top ++ .body e :: rest ∧ Turns (s, [.body e]) (p.1, top ++ [.body e])

theorem Mounts.goes {p : Shared × Thread} (h : Mounts s e rest p) : Goes s [.body e] rest p := by
  obtain ⟨top, frames, turns⟩ := h
  refine ⟨top ++ [.body e], ?_, turns⟩
  rw [frames, List.append_assoc]
  rfl

theorem mounts_reply (hb : th.frames = .body e :: rest)
    (h : Turns (s, [.body e]) (s', [.body e])) (a : Answer) :
    Mounts s e rest (reply s' th a) :=
  ⟨[], hb, h⟩

theorem mounts_push {f : Frame} (hb : th.frames = .body e :: rest)
    (h : Turns (s, [.body e]) (s', [f, .body e])) : Mounts s e rest (push s' th f) :=
  ⟨[f], congrArg (f :: ·) hb, h⟩

theorem mounts_reply_quiet (hb : th.frames = .body e :: rest) (h : s.Quiet s') (a : Answer) :
    Mounts s e rest (reply s' th a) :=
  mounts_reply hb (.single (.quiet h (.refl _))) a

/-- An operation that holds its dispatcher begins. -/
theorem opens_releasing (d : DispatcherId) {reply : Reply} (hr : reply ≠ .called .skipped)
    (fs : List Frame) : Opens d fs (.releasing [.dispatcher d] reply :: fs) :=
  ⟨rfl, rfl, fun h => List.forall_mem_cons.2 ⟨hr, h⟩⟩

theorem turn_hold {d : DispatcherId} (h : 0 < s.handles d) {reply : Reply}
    (hr : reply ≠ .called .skipped) (fs : List Frame) :
    Turn (s, fs) (s.retain (.dispatcher d), .releasing [.dispatcher d] reply :: fs) :=
  .hold h (opens_releasing d hr fs) rfl (fun _ h => h)

theorem turns_beginSevering {d : DispatcherId} {held : List Held}
    (holds : d ∈ held.filterMap (·.dispatcher?)) (s : Shared) (id : ObjectId) (reply : Bool → Reply)
    (fs : List Frame) :
    ∃ b, Turns (s, .releasing held (reply b) :: fs)
      ((beginSevering s d id held reply).1, (beginSevering s d id held reply).2 :: fs) := by
  unfold beginSevering
  split
  · exact ⟨false, .refl⟩
  · rename_i ids x h
    exact ⟨true, .single (.destroy h holds)⟩

theorem mounts_replyChange {d : DispatcherId} {result : Except ObjectError Dispatcher}
    (hb : th.frames = .body e :: rest)
    (h : ∀ x, result = .ok x → (s.dispatcher d).Quiet x) :
    Mounts s e rest (replyChange s th d result) := by
  cases result with
  | error => exact mounts_reply_quiet hb (.refl s) _
  | ok x => exact mounts_reply_quiet hb (Shared.quiet_setDispatcher (h x rfl)) _

theorem mounts_beginEmitting {d : DispatcherId} {args : List Variant} {others : List Held}
    {deliveries : Except DispatchError (List (ConnectionId × Connection))}
    (hb : th.frames = .body e :: rest) (opened : 0 < s.handles d)
    (hd : others.filterMap (·.dispatcher?) = []) (hk : others.filterMap (·.completion?) = []) :
    Mounts s e rest (beginEmitting s th d args (.dispatcher d :: others) deliveries) := by
  have quiet : ∀ s : Shared, s.Quiet (s.retainAll others) := fun s =>
    Shared.quiet_retainAll fun d hd' => by
      have := List.filterMap_eq_nil_iff.1 hd _ hd'
      cases this
  have opens : ∀ f : Frame, f.held = .dispatcher d :: others → f.severings = [] → f.executes = [] →
      f.dismisses = [] → f.Sound → ∀ s', (s.retain (.dispatcher d)).Quiet s' →
      Turns (s, [.body e]) (s', [f, .body e]) := by
    intro f held severings executes dismisses sound s' hs
    refine .trans (.single (.hold opened ⟨?_, ?_, fun h => List.forall_mem_cons.2 ⟨sound, h⟩⟩
      ?_ ?_)) (.single (.quiet hs (.refl _)))
    · simp [Frame.handles, held, hd]
    · simp [severings]
    · simp [executes]
    · simp [dismisses]
  have due : (Held.dispatcher d :: others).filterMap (·.completion?) = [] := by
    rw [List.filterMap_cons_none rfl, hk]
  unfold beginEmitting
  cases deliveries with
  | error err =>
    refine mounts_push hb (opens _ rfl rfl rfl ?_ ?_ _ (quiet _))
    · exact due
    · simp [Frame.Sound]
  | ok remaining =>
    refine mounts_push hb (opens _ rfl rfl rfl ?_ ?_ _ ((quiet _).trans (Shared.quiet_retainAll ?_)))
    · exact due
    · simp [Frame.Sound]
    · simp

theorem mounts_emitOwn {i : InstanceId} {args : List Variant}
    {deliveries : Dispatcher → ObjectId →
      Except DispatchError (List (ConnectionId × Connection))}
    (hb : th.frames = .body e :: rest) : Mounts s e rest (emitOwn s th i args deliveries) := by
  unfold emitOwn
  split
  · exact mounts_reply_quiet hb (.refl s) _
  · rename_i d id h
    have opened := Shared.isOpen_iff.1 (Option.filter_eq_some_iff.1 h).2
    dsimp only
    split
    · exact mounts_beginEmitting hb opened rfl rfl
    · exact mounts_beginEmitting hb opened rfl rfl

/-- A called method or callback runs on top of the frame that is told how it ended. -/
theorem stays_callFrames {held : List Held} (hh : held = [] ∨ ∃ i, held = [.object i])
    (entry : Entry) (fs : List Frame) : Stays fs (callFrames entry held fs) := by
  rcases hh with rfl | ⟨i, rfl⟩
  all_goals
    refine ⟨⟨rfl, rfl, fun h => ?_⟩, rfl, fun _ h => h⟩
    exact List.forall_mem_cons.2 ⟨trivial, List.forall_mem_cons.2 ⟨trivial, h⟩⟩

theorem turn_enqueueWaiting {d : DispatcherId} {context : Context} {target : Target}
    {args : List Variant} (fs : List Frame) :
    Turn (s, fs) ((s.enqueueWaiting d context target args).2, fs) :=
  .work Shared.alike_enqueueWaiting (.refl fs) (.await d context target args)

theorem mounts_beginCalling {d : DispatcherId} {args : List Variant} {route : Route}
    (hb : th.frames = .body e :: rest) (opened : 0 < s.handles d) :
    Mounts s e rest (beginCalling s th d args route) := by
  cases route with
  | skip => exact mounts_reply_quiet hb (.refl s) _
  | fail err => exact mounts_reply_quiet hb (.refl s) _
  | enqueue context target => exact mounts_reply_quiet hb (Shared.quiet_enqueue rfl) _
  | wait context target =>
    let s' := (s.enqueueWaiting d context target args).2
    let f := Frame.waiting s.completions.length (s'.deadline d)
    refine ⟨[f, .invoking d [.dispatcher d]], congrArg (f :: _ :: ·) hb, ?_⟩
    have opened' : 0 < s'.handles d := by
      rw [Shared.alike_enqueueWaiting.handles]
      exact opened
    refine .tail (.single (turn_enqueueWaiting _)) (.hold opened' ⟨rfl, rfl, fun h => ?_⟩
      rfl (fun _ h => h))
    exact List.forall_mem_cons.2 ⟨trivial, List.forall_mem_cons.2 ⟨trivial, h⟩⟩
  | callNow target =>
    unfold beginCalling
    dsimp only
    split
    · exact mounts_reply_quiet hb (.refl s) _
    · exact mounts_reply_quiet hb (.refl s) _
    · rename_i entry held h
      refine ⟨callFrames entry held [.invoking d [.dispatcher d]], ?_, ?_⟩
      · exact congrArg (Frame.starting entry :: Frame.calling held :: _ :: ·) hb
      · have hold : Turn (s, [.body e])
            (s.retain (.dispatcher d), [.invoking d [.dispatcher d], .body e]) :=
          .hold opened ⟨rfl, rfl, fun h => List.forall_mem_cons.2 ⟨trivial, h⟩⟩ rfl (fun _ h => h)
        have held' : (s.retain (.dispatcher d)).Quiet (s.retainAll (.dispatcher d :: held)) := by
          refine Shared.quiet_retainAll fun d' hd' => ?_
          rcases Shared.held_callee h with rfl | ⟨i, rfl⟩ <;> simp at hd'
        exact .tail (.single hold)
          (.quiet held' (stays_callFrames (Shared.held_callee h) entry _))

theorem mounts_beginAccess {d : DispatcherId} {id : ObjectId} {name : String} {access : PropertyAccess}
    {refuse : ObjectError → Answer}
    {code : InstanceId → MetaClass.Property → Except ObjectError Entry}
    (hb : th.frames = .body e :: rest) (opened : 0 < s.handles d) :
    Mounts s e rest (beginAccess s th d id name access refuse code) := by
  unfold beginAccess
  split
  · exact mounts_reply_quiet hb (.refl s) _
  · rename_i r _
    split
    · exact mounts_reply_quiet hb (.refl s) _
    · split
      · exact mounts_reply_quiet hb (.refl s) _
      · rename_i entry _
        let held := [Held.object r.owner, .dispatcher d]
        refine ⟨[.starting entry, .accessing access held], ?_, ?_⟩
        · exact congrArg (Frame.starting entry :: Frame.accessing access held :: ·) hb
        · have quiet : s.Quiet (s.retain (.object r.owner)) := Shared.quiet_retain (by simp)
          have opened' : 0 < (s.retain (.object r.owner)).handles d := by
            rw [quiet.handles]
            exact opened
          refine .tail (.single (.quiet quiet (.refl _))) (.hold opened' ⟨rfl, rfl, fun h => ?_⟩
            rfl (fun _ h => h))
          exact List.forall_mem_cons.2 ⟨trivial, List.forall_mem_cons.2 ⟨trivial, h⟩⟩

/-- The destruction of an object begins, unless it is not active. -/
theorem turns_destroy {d : DispatcherId} (opened : 0 < s.handles d) (id : ObjectId)
    (reply : Bool → Reply) (hr : ∀ b, reply b ≠ .called .skipped) (fs : List Frame) :
    Turns (s, fs) ((beginSevering (s.retain (.dispatcher d)) d id [.dispatcher d] reply).1,
      (beginSevering (s.retain (.dispatcher d)) d id [.dispatcher d] reply).2 :: fs) := by
  have holds : d ∈ [Held.dispatcher d].filterMap (·.dispatcher?) := by simp
  obtain ⟨b, turns⟩ := turns_beginSevering holds (s.retain (.dispatcher d)) id reply fs
  exact .head (turn_hold opened (hr b) fs) turns

theorem connects_replyConnected {d : DispatcherId}
    {result : Except ConnectionError (ConnectionId × Dispatcher)} (opened : 0 < s.handles d)
    (hr : ∀ p, result = .ok p → ∃ c, (s.dispatcher d).Admits c ∧ p = (s.dispatcher d).link c)
    (hb : th.frames = .body e :: rest) :
    Mounts s e rest (replyConnected s th d result) ∨
      Connects s (replyConnected s th d result).1 ∧
        (replyConnected s th d result).2.frames = th.frames := by
  cases result with
  | error => exact .inl (mounts_reply_quiet hb (.refl s) _)
  | ok p =>
    obtain ⟨c, admits, rfl⟩ := hr p rfl
    exact .inr ⟨.link opened admits, rfl⟩

theorem mounts_newLoop {d : DispatcherId} (opened : 0 < s.handles d) (current context : Context)
    (hb : th.frames = .body e :: rest) (a : Answer) :
    Mounts s e rest (reply (((s.share d).lend d).setDispatcher d
      { s.dispatcher d with queues := (Loop.start (s.dispatcher d).queues current context).2.2 })
      th a) := by
  refine mounts_reply hb (.tail (.single (.share opened)) (.quiet ?_ (.refl _))) a
  refine Shared.quiet_lend.trans (Shared.quiet_setDispatcher ?_)
  rw [Shared.dispatcher_lend, Shared.dispatcher_share]
  exact Dispatcher.quiet_queues _ (Queues.works_hold.trans (Queues.works_obtain context)).le

theorem mounts_useLoop (hb : th.frames = .body e :: rest) (l : LoopId) (mode : LoopMode) :
    Mounts s e rest (useLoop s th l mode) := by
  unfold useLoop
  split
  · exact ⟨[], hb, .refl⟩
  · rename_i d loop _
    split
    · exact ⟨[], hb, .refl⟩
    · rename_i opened
      have opened : 0 < s.handles d := Shared.isOpen_iff.1 (by simpa using opened)
      let frame := Frame.serving
        { dispatcher := d, loop := { loop with previous := none }, mode, own := some l }
      have hold : Turn (s, [.body e]) (s.retain (.dispatcher d), [frame, .body e]) := by
        refine .hold opened ⟨rfl, rfl, fun h => ?_⟩ rfl (fun _ h => h)
        exact List.forall_mem_cons.2 ⟨trivial, h⟩
      exact mounts_push hb (.tail (.single hold)
        (.quiet (Shared.quiet_modifyQueues Queues.works_hold.le) (.refl _)))

theorem mounts_dropLoop (hb : th.frames = .body e :: rest) (l : LoopId) :
    Mounts s e rest (dropLoop s th l) := by
  unfold dropLoop
  split
  · exact ⟨[], hb, .refl⟩
  · rename_i d loop _
    dsimp only
    split
    · exact ⟨[], hb, .refl⟩
    · rename_i drops
      rw [Bool.or_eq_true, not_or, Bool.not_eq_true', Bool.not_eq_false] at drops
      refine ⟨[_], congrArg (_ :: ·) hb, .tail (.single (.quiet ?_ (.refl _)))
        (.disown (Shared.owned_of_isOwned drops.2))⟩
      refine (Shared.quiet_setDispatcher ?_).trans Shared.quiet_regain
      exact Dispatcher.quiet_queues _ (Queues.works_release _).le

theorem quiet_addQuitHandle (s : Shared) (x : QuitHandle) : s.Quiet (s.addQuitHandle x).2 := by
  have held : s.Quiet (s.modifyQueues x.dispatcher (·.hold x.queue)) :=
    Shared.quiet_modifyQueues Queues.works_hold.le
  exact ⟨held.handles, held.owned, held.dispatcher, held.size, held.completions⟩

/-- A dispatcher on which client code may act is not gone, unless it is about to be dropped. -/
theorem opened_of_permits {a : Action} (permitted : permits s a) (on : a.dispatcher? = some d)
    (keeps : ∀ d, a ≠ .dropDispatcher d) : 0 < s.handles d := by
  have all : (a.dispatcher?.all s.isOpen) = true := by
    cases a with
    | dropDispatcher => exact absurd rfl (keeps _)
    | _ => exact permitted
  rw [on] at all
  exact Shared.isOpen_iff.1 all

/-- What client code asks for is done by turns above the frames that it runs on, or makes a
connection. -/
theorem mounts_perform (a : Action) (permitted : permits s a) (hb : th.frames = .body e :: rest) :
    Mounts s e rest (perform s th a) ∨
      Connects s (perform s th a).1 ∧ (perform s th a).2.frames = th.frames := by
  have modify : ∀ d o (f : Registration → Registration), (∀ r, (f r).links = r.links) →
      (s.dispatcher d).Quiet ((s.dispatcher d).modifyObject o f) :=
    fun d o f hf => Dispatcher.quiet_modifyObject _ _ hf
  have answered : ∀ b, Reply.answer (.flag b) ≠ .called .skipped := by simp
  cases a with
  | newDispatcher timeout => exact .inl (mounts_reply hb (.single (.host timeout)) _)
  | shareDispatcher d =>
    have opened := opened_of_permits permitted rfl nofun
    exact .inl (mounts_reply hb (.single (.share opened)) _)
  | dropDispatcher d =>
    exact .inl (mounts_push hb (.single (.disown (Shared.owned_of_isOwned permitted))))
  | newObject className => exact .inl (mounts_reply_quiet hb (Shared.quiet_addInstance _) _)
  | dropObject i =>
    refine .inl (mounts_push hb (.single (.frames ⟨⟨rfl, rfl, fun h => ?_⟩, rfl, fun _ h => h⟩)))
    exact List.forall_mem_cons.2 ⟨nofun, h⟩
  | newCallback => exact .inl (mounts_reply_quiet hb Shared.quiet_addCallback _)
  | register d i =>
    refine .inl ?_
    unfold perform
    dsimp only
    split
    · exact mounts_reply_quiet hb (.refl s) _
    · rename_i id s' h
      exact mounts_reply hb (.single (.register (opened_of_permits permitted rfl nofun) h)) _
  | destroy d id =>
    refine .inl (mounts_push hb ?_)
    exact turns_destroy (opened_of_permits permitted rfl nofun) id _ answered _
  | move d id context =>
    refine .inl (mounts_replyChange hb fun x hx => ?_)
    rw [Dispatcher.move] at hx
    cases h : (s.dispatcher d).receiver id with
    | error err =>
      rw [h] at hx
      cases hx
    | ok r =>
      rw [h] at hx
      cases hx
      exact modify _ _ _ fun _ => rfl
  | setName d id name =>
    refine .inl (mounts_replyChange hb fun x hx => ?_)
    unfold Dispatcher.setName at hx
    split at hx
    · cases hx
    · cases hx
      exact modify _ _ _ fun _ => rfl
  | block d id blocked =>
    refine .inl ?_
    unfold perform
    dsimp only
    split
    · exact mounts_reply_quiet hb (.refl s) _
    · rename_i before x hx
      unfold Dispatcher.block at hx
      split at hx
      · cases hx
      · cases hx
        refine mounts_reply_quiet hb ?_ _
        exact Shared.quiet_setDispatcher (modify _ _ _ fun _ => rfl)
  | connect d sender signal receiver slot type =>
    have opened := opened_of_permits permitted rfl nofun
    exact connects_replyConnected opened (fun _ => Dispatcher.connect_eq_ok) hb
  | connectByIndex d sender signal receiver slot type =>
    have opened := opened_of_permits permitted rfl nofun
    exact connects_replyConnected opened (fun _ => Dispatcher.connectByIndex_eq_ok) hb
  | connectCallback d sender signal callback type =>
    unfold perform
    dsimp only
    split
    · refine .inl (mounts_push hb (.single (.frames ⟨⟨rfl, rfl, fun h => ?_⟩, rfl, fun _ h => h⟩)))
      exact List.forall_mem_cons.2 ⟨nofun, h⟩
    · rename_i id x hx
      obtain ⟨c, admits, e⟩ := Dispatcher.connectCallback_eq_ok hx
      obtain rfl : x = ((s.dispatcher d).link c).2 := congrArg Prod.snd e
      exact .inr ⟨.link (opened_of_permits permitted rfl nofun) admits, rfl⟩
  | disconnect d id =>
    let cut := ((s.dispatcher d).disconnect id).1
    let frame := Frame.releasing [.dispatcher d] (.answer (.flag cut.isSome))
    refine .inl ⟨afterCut cut [frame], ?_, ?_⟩
    · show afterCut cut (frame :: th.frames) = _
      rw [hb]
      exact afterCut_append cut [frame] _
    · have hold : Turn (s, [.body e]) (s.retain (.dispatcher d), [frame, .body e]) :=
        turn_hold (opened_of_permits permitted rfl nofun) (answered _) _
      have cut : Turn (s.retain (.dispatcher d), [frame, .body e]) (_, _) := .cut d id
      rw [Shared.dispatcher_retain] at cut
      rw [← afterCut_append]
      exact .tail (.tail (.single hold) cut) (.frames (stays_afterCut _ _))
  | disconnectAll d sender =>
    have opened := opened_of_permits permitted rfl nofun
    refine .inl (mounts_push hb (.single (.hold opened ⟨rfl, rfl, fun h => ?_⟩
      rfl (fun _ h => h))))
    exact List.forall_mem_cons.2 ⟨trivial, h⟩
  | emit | emitByIndex =>
    exact .inl (mounts_beginEmitting hb (opened_of_permits permitted rfl nofun) rfl rfl)
  | emitOwn i signal args => exact .inl (mounts_emitOwn hb)
  | emitOwnByIndex i signal args => exact .inl (mounts_emitOwn hb)
  | call d id method type args =>
    refine .inl ?_
    unfold perform
    dsimp only
    split
    · exact mounts_reply_quiet hb (.refl s) _
    · exact mounts_beginCalling hb (opened_of_permits permitted rfl nofun)
  | read d id name => exact .inl (mounts_beginAccess hb (opened_of_permits permitted rfl nofun))
  | write d id name value => exact .inl (mounts_beginAccess hb (opened_of_permits permitted rfl nofun))
  | reset d id name => exact .inl (mounts_beginAccess hb (opened_of_permits permitted rfl nofun))
  | quit d context =>
    refine .inl (mounts_reply_quiet hb (Shared.quiet_setDispatcher ?_) _)
    exact Dispatcher.quiet_queues _ (Queues.works_post_quit context).le
  | serve d context mode =>
    let x := s.dispatcher d
    let started := Loop.start x.queues th.current context
    let frame := Frame.serving { dispatcher := d, loop := started.1, mode }
    refine .inl ⟨[frame], congrArg (frame :: ·) hb, ?_⟩
    have hold : Turn (s, [.body e]) (s.retain (.dispatcher d), [frame, .body e]) := by
      refine .hold (opened_of_permits permitted rfl nofun) ⟨rfl, rfl, fun h => ?_⟩ rfl (fun _ h => h)
      exact List.forall_mem_cons.2 ⟨trivial, h⟩
    refine .tail (.single hold) (.quiet (Shared.quiet_setDispatcher ?_) (.refl _))
    rw [Shared.dispatcher_retain]
    exact Dispatcher.quiet_queues _ (Queues.works_hold.trans (Queues.works_obtain context)).le
  | enter context => exact .inl ⟨[], hb, .refl⟩
  | newLoop d context =>
    refine .inl ?_
    unfold perform
    have opened := opened_of_permits permitted rfl nofun
    exact mounts_newLoop opened th.current context hb (.loop th.loops.length)
  | useLoop l mode => exact .inl (mounts_useLoop hb l mode)
  | dropLoop l => exact .inl (mounts_dropLoop hb l)
  | newQuitHandle l =>
    refine .inl ?_
    unfold perform
    dsimp only
    split
    · exact ⟨[], hb, .refl⟩
    · exact mounts_reply_quiet hb (quiet_addQuitHandle s _) _
  | copyQuitHandle h =>
    refine .inl ?_
    unfold perform
    dsimp only
    split
    · exact ⟨[], hb, .refl⟩
    · exact mounts_reply_quiet hb (quiet_addQuitHandle s _) _
  | quitBy h =>
    refine .inl ?_
    unfold perform
    dsimp only
    split
    · exact ⟨[], hb, .refl⟩
    · rename_i x _
      have posted : s.Quiet (s.modifyQueues x.dispatcher (·.push x.queue .quit)) :=
        Shared.quiet_modifyQueues Queues.works_push_quit.le
      exact mounts_reply_quiet hb posted _
  | dropQuitHandle h =>
    refine .inl ?_
    unfold perform
    dsimp only
    split
    · exact ⟨[], hb, .refl⟩
    · rename_i x _
      have given : s.Quiet (s.modifyQueues x.dispatcher (·.letGo x.queue)) :=
        Shared.quiet_modifyQueues Queues.works_letGo.le
      have gone : s.Quiet { s.modifyQueues x.dispatcher (·.letGo x.queue) with
          quitHandles := s.quitHandles.set h none } :=
        ⟨given.handles, given.owned, given.dispatcher, given.size, given.completions⟩
      exact mounts_reply_quiet hb gone _

/-! ## Replies -/

theorem stays_pop {f : Frame} (hh : f.handles = []) (hs : f.severings = []) (he : f.executes = [])
    (fs : List Frame) : Stays (f :: fs) fs := by
  refine ⟨⟨?_, ?_, fun h => (List.forall_mem_cons.1 h).2⟩, ?_, fun k h => ?_⟩
  · rw [List.flatMap_cons, hh, List.nil_append]
  · rw [List.flatMap_cons, hs, List.nil_append]
  · rw [List.flatMap_cons, he, List.nil_append]
  · exact List.mem_append_right _ h

/-- An emission goes on. -/
theorem stays_emitting (emission next : Emission) (held : next.held = emission.held)
    (dispatcher : next.dispatcher = emission.dispatcher) :
    Stays [.emitting emission] [.emitting next] := by
  have same : Frame.held (.emitting next) = Frame.held (.emitting emission) := held
  refine ⟨⟨?_, rfl, fun h => List.forall_mem_singleton.2 ?_⟩, rfl, fun k hk => ?_⟩
  · rw [List.flatMap_singleton, List.flatMap_singleton, Frame.handles, same]
    rfl
  · have sound := h _ List.mem_cons_self
    rwa [Frame.Sound, ← held, ← dispatcher] at sound
  · rw [List.flatMap_singleton] at hk ⊢
    show k ∈ emission.held.filterMap _
    rw [← held]
    exact hk

/-- A frame gives way to one that gives back what it held. -/
theorem stays_releasing {f : Frame} {reply : Reply} (hs : f.severings = []) (he : f.executes = [])
    (hd : f.dismisses = f.held.filterMap (·.completion?)) (hr : reply ≠ .called .skipped) :
    Stays [f] [.releasing f.held reply] := by
  refine ⟨⟨rfl, ?_, fun _ => List.forall_mem_singleton.2 hr⟩, ?_, fun _ h => ?_⟩
  · rw [List.flatMap_singleton, List.flatMap_singleton, hs]
    rfl
  · rw [List.flatMap_singleton, List.flatMap_singleton, he]
    rfl
  · rw [List.flatMap_singleton] at h ⊢
    rw [hd]
    exact h

theorem result_ne_skipped (y : Yield) : Reply.called y.result ≠ .called .skipped := by
  cases y <;> exact nofun

/-- The end of a call that was taken from a queue is told to the caller who waits for it. -/
theorem turn_executed (i : Invocation) (fs : List Frame) :
    Turn (s, .executing i :: fs)
      (i.completion.elim s fun k => s.complete k .delivered, .releasing i.held .nothing :: fs) := by
  have sound : (Frame.releasing i.held .nothing).Sound := by simp [Frame.Sound]
  refine .work ?_ ⟨rfl, rfl, fun h => ?_⟩ .deliver
  · cases i.completion with
    | none => exact (Shared.Quiet.refl s).alike
    | some k => exact Shared.alike_complete k _
  · exact List.forall_mem_cons.2 ⟨sound, (List.forall_mem_cons.1 h).2⟩

theorem resume_executing {i : Invocation} {r : CallResult} (hr : Reply.called r ≠ .called .skipped)
    (hf : th.frames = .executing i :: rest) :
    resume s th (.called r) =
      (i.completion.elim s fun k => s.complete k .delivered,
        th.withFrames (.releasing i.held .nothing :: rest)) := by
  unfold resume
  rw [hf]
  cases r with
  | skipped => exact absurd rfl hr
  | returned value => cases h : i.completion <;> simp [h]
  | failed err => cases h : i.completion <;> simp [h]

/-- Telling the innermost frame how what it waits for has ended is done by turns. -/
theorem goes_resume {g : Frame} (hf : th.frames = g :: rest) {r : Reply}
    (hr : r ≠ .called .skipped) : Goes s [g] rest (resume s th r) := by
  have answered : ∀ a, Reply.answer a ≠ .called .skipped := by simp
  unfold resume
  split
  case h_1 => exact ⟨[g], hf, .refl⟩
  case h_2 held _ y h =>
    rw [hf] at h
    cases h
    exact ⟨[_], rfl, .single (.frames (stays_releasing rfl rfl rfl (result_ne_skipped y)))⟩
  case h_3 access held _ y h =>
    rw [hf] at h
    cases h
    exact ⟨[_], rfl, .single (.frames (stays_releasing rfl rfl rfl (answered _)))⟩
  case h_4 emission _ result h =>
    rw [hf] at h
    cases h
    split
    · exact ⟨[_], hf, .refl⟩
    · rename_i id c _
      refine ⟨afterDelivery c [.emitting (emission.settle id result.ending)],
        afterDelivery_append c [_] rest, ?_⟩
      have settled := stays_emitting emission (emission.settle id result.ending) rfl rfl
      exact .tail (.single (.frames settled)) (.frames (stays_afterDelivery c _))
  case h_5 emission _ c h =>
    rw [hf] at h
    cases h
    split
    · exact ⟨[_], hf, .refl⟩
    · rename_i id k more _
      exact ⟨[_], rfl, .single (.frames (stays_emitting emission _ rfl rfl))⟩
  case h_6 _ held _ result h =>
    rw [hf] at h
    cases h
    exact ⟨[_], rfl, .single (.frames (stays_releasing rfl rfl rfl (answered _)))⟩
  case h_7 d held _ c h =>
    rw [hf] at h
    cases h
    exact ⟨[_], rfl, .single (.frames (stays_releasing rfl rfl rfl (answered _)))⟩
  case h_8 i _ result h =>
    rw [hf] at h
    cases h
    have goes : Goes s [.executing i] rest (resume s th (.called result)) := by
      rw [resume_executing hr hf]
      exact ⟨[.releasing i.held .nothing], rfl, .single (turn_executed i [])⟩
    unfold resume at goes
    rw [hf] at goes
    exact goes
  case h_9 i _ y h =>
    rw [hf] at h
    cases h
    have gone : Turn (s, [.disposing i]) (s, []) := .frames (stays_pop rfl rfl rfl [])
    split
    · exact ⟨[], rfl, .single gone⟩
    · rename_i d id h
      have opened := Shared.isOpen_iff.1 (Option.filter_eq_some_iff.1 h).2
      exact ⟨[_], rfl, .head gone (turns_destroy opened id (fun _ => .nothing) (fun _ => by simp) [])⟩
  case h_10 => exact ⟨[g], hf, .refl⟩

/-! ## Steps of operations -/

theorem goes_settled {emission : Emission} (next : Emission) (c : Connection)
    (h : Turn (s, [.emitting emission]) (s', [.emitting emission])) (held : next.held = emission.held)
    (dispatcher : next.dispatcher = emission.dispatcher) :
    Goes s [.emitting emission] rest
      (s', th.withFrames (afterDelivery c (.emitting next :: rest))) := by
  refine ⟨afterDelivery c [.emitting next], afterDelivery_append c [_] rest, ?_⟩
  have settled := stays_emitting emission next held dispatcher
  exact .tail (.tail (.single h) (.frames settled)) (.frames (stays_afterDelivery c _))

theorem goes_deliver {emission next : Emission} (id : ConnectionId) (c : Connection)
    (held : next.held = emission.held) (dispatcher : next.dispatcher = emission.dispatcher) :
    Goes s [.emitting emission] rest (deliver s th next id c rest) := by
  have same : Turn (s, [.emitting emission]) (s, [.emitting emission]) := .frames (.refl _)
  unfold deliver
  dsimp only
  split
  · exact goes_settled _ c same held dispatcher
  · exact goes_settled _ c same held dispatcher
  · exact goes_settled _ c (.quiet (Shared.quiet_enqueue rfl) (.refl _)) held dispatcher
  · exact goes_settled _ c (turn_enqueueWaiting _) held dispatcher
  · split
    · exact goes_settled _ c same held dispatcher
    · exact goes_settled _ c same held dispatcher
    · rename_i entry held' h
      let next' := { next with delivering := some (id, c) }
      refine ⟨callFrames entry held' [.emitting next'], rfl, ?_⟩
      have settled := stays_emitting emission next' held dispatcher
      exact .tail (.single (.quiet (Shared.quiet_retainAll_callee h) settled))
        (.frames (stays_callFrames (Shared.held_callee h) entry _))

theorem goes_stopServing {v : Serving} (exit : LoopExit) :
    Goes s [.serving v] rest (stopServing s th v exit rest) := by
  have quiet : (s.dispatcher v.dispatcher).Quiet
      { s.dispatcher v.dispatcher with
        queues := (v.loop.stop (s.dispatcher v.dispatcher).queues th.current).2 } :=
    Dispatcher.quiet_queues _ (Queues.works_release _).le
  refine ⟨[.releasing [.dispatcher v.dispatcher] (.answer (.served exit v.executed))], rfl, ?_⟩
  exact .tail (.single (.quiet (Shared.quiet_setDispatcher quiet) (.refl _)))
    (.frames (stays_releasing rfl rfl rfl (by simp)))

theorem callee_setDispatcher_queues {d : DispatcherId} (queues : Queues Invocation)
    (target : Target) (args : List Variant) :
    (s.setDispatcher d { s.dispatcher d with queues }).callee d target args =
      s.callee d target args := by
  cases target with
  | callback => rfl
  | method receiver index =>
    have active : ((s.setDispatcher d { s.dispatcher d with queues }).dispatcher d).active? receiver =
        (s.dispatcher d).active? receiver := by
      rcases Shared.dispatcher_setDispatcher_or (s := s) (d := d) d { s.dispatcher d with queues } with
        h | ⟨-, h⟩
      · rw [h]
      · rw [h]
        rfl
    simp only [Shared.callee]
    rw [active]
    rfl

theorem carries_take {v : Serving} {i : Invocation} {n : Nat} :
    Carries [.serving v] [.executing i, .serving { v with executed := n }] := by
  refine ⟨?_, rfl, fun _ => List.forall_mem_cons.2 ⟨trivial, List.forall_mem_singleton.2 trivial⟩⟩
  simp [Frame.handles, Frame.held]

/-! ## Serving -/

/-- What there is then comes from `old` by turns, or a call was given up. -/
def GoesOrSkips (s : Shared) (old rest : List Frame) (p : Shared × Thread) : Prop :=
  Goes s old rest p ∨ ∃ new, p.2.frames = new ++ rest ∧ Skips (s, old) (p.1, new)

/-- A call that was taken from a queue is made at once, if its receiver is there. -/
theorem goes_execute {v : Serving} {i : Invocation} {queues : Queues Invocation} {n : Nat}
    (h : (s.dispatcher v.dispatcher).queues.pop? v.loop.queue = some (.work i, queues)) :
    GoesOrSkips s [.serving v] rest
      (execute (s.setDispatcher v.dispatcher { s.dispatcher v.dispatcher with queues }) th
        v.dispatcher i (.serving { v with executed := n } :: rest)) := by
  have taken : Turn (s, [.serving v])
      (s.setDispatcher v.dispatcher { s.dispatcher v.dispatcher with queues },
        [.executing i, .serving { v with executed := n }]) :=
    .work (Shared.alike_take queues) carries_take (.take h)
  unfold execute
  split
  · rename_i gone
    rw [callee_setDispatcher_queues] at gone
    exact .inr ⟨[.releasing i.held .nothing, .serving { v with executed := n }], rfl, .intro h gone⟩
  · rename_i err _
    rw [resume_executing (by simp) rfl]
    exact .inl ⟨[.releasing i.held .nothing, .serving { v with executed := n }], rfl,
      .tail (.single taken) (turn_executed i _)⟩
  · rename_i entry held hc
    refine .inl ⟨callFrames entry held [.executing i, .serving { v with executed := n }], rfl, ?_⟩
    exact .tail (.tail (.single taken) (.quiet (Shared.quiet_retainAll_callee hc) (.refl _)))
      (.frames (stays_callFrames (Shared.held_callee hc) entry _))

theorem goes_serveNext {v : Serving} {p : Shared × Thread} (hf : th.frames = .serving v :: rest)
    (h : serveNext s th v rest = some p) : GoesOrSkips s [.serving v] rest p := by
  unfold serveNext at h
  dsimp only at h
  split at h
  · split at h
    · cases h
      exact .inl (goes_stopServing .empty)
    · cases h
  · rename_i item queues hp
    have quiet : s.Quiet (s.setDispatcher v.dispatcher { s.dispatcher v.dispatcher with queues }) :=
      Shared.quiet_setDispatcher
        (Dispatcher.quiet_queues _ ((Queues.works_pop hp).symm ▸ Multiset.le_add_left _ _))
    split at h
    · cases h
      exact goes_execute hp
    · split at h
      · cases h
        exact .inl ⟨[.serving v], hf, .single (.quiet quiet (.refl _))⟩
      · cases h
        let s' := s.setDispatcher v.dispatcher { s.dispatcher v.dispatcher with queues }
        have stopped : Goes s' [.serving v] rest (stopServing s' th v .quit rest) :=
          goes_stopServing .quit
        obtain ⟨new, hn, turns⟩ := stopped
        exact .inl ⟨new, hn, .head (.quiet quiet (.refl _)) turns⟩

theorem sound_releasing {held held' : List Held} {reply : Reply}
    (h : ∀ f ∈ [Frame.releasing held reply], f.Sound) : ∀ f ∈ [Frame.releasing held' reply], f.Sound :=
  List.forall_mem_singleton.2 (h (.releasing held reply) List.mem_cons_self)

/-- Frames that give back one thing less, which is neither a dispatcher nor a completion. -/
theorem stays_release {h : Held} {held : List Held} {reply : Reply} (hd : h.dispatcher? = none)
    (hk : h.completion? = none) :
    Stays [.releasing (h :: held) reply] [.releasing held reply] := by
  refine ⟨⟨?_, rfl, sound_releasing⟩, rfl, fun k hk' => ?_⟩
  · simp [Frame.handles, Frame.held, hd]
  · simpa [Frame.dismisses, Frame.held, hk] using hk'

theorem goes_release (h : Held) (held : List Held) (reply : Reply) :
    Goes s [.releasing (h :: held) reply] rest (release s th h held reply rest) := by
  have body : ∀ entry, Stays [.releasing held reply] [.body entry, .releasing held reply] :=
    fun _ => ⟨⟨rfl, rfl, fun h => List.forall_mem_cons.2 ⟨trivial, h⟩⟩, rfl, fun _ h => h⟩
  cases h with
  | dispatcher d =>
    unfold release
    dsimp only
    split
    · rename_i last
      refine ⟨[.releasing held reply], rfl, .single (.release fun e => ?_)⟩
      rw [Shared.letGo_last.2 e] at last
      cases last
    · rename_i last
      have last : s.handles d = 1 := by
        apply Shared.letGo_last.1
        simpa using last
      -- The state of the dispatcher is gone with its last handle; what it held is to be given back.
      refine ⟨[.releasing ((s.dispatcher d).held ++ held) reply], ?_, .single (.close last)⟩
      rw [Shared.dispatcher_letGo]
      rfl
  | object i =>
    have gone : Turn (s, [.releasing (.object i :: held) reply])
        ((s.letGo (.object i)).2, [.releasing held reply]) :=
      .quiet (Shared.quiet_letGo_object i) (stays_release rfl rfl)
    unfold release
    dsimp only
    split
    · exact ⟨[_], rfl, .single gone⟩
    · refine ⟨[.body (.disposer i), .disposing i, .releasing held reply], rfl, .tail (.single gone) ?_⟩
      refine .frames ⟨⟨rfl, rfl, fun h => ?_⟩, rfl, fun _ h => h⟩
      exact List.forall_mem_cons.2 ⟨trivial, List.forall_mem_cons.2 ⟨trivial, h⟩⟩
  | callback c =>
    have gone : Turn (s, [.releasing (.callback c :: held) reply])
        ((s.letGo (.callback c)).2, [.releasing held reply]) :=
      .quiet (Shared.quiet_letGo_callback c) (stays_release rfl rfl)
    unfold release
    dsimp only
    split
    · exact ⟨[_], rfl, .single gone⟩
    · exact ⟨[.body (.callbackDisposer c), .releasing held reply], rfl,
        .tail (.single gone) (.frames (body _))⟩
  | completion k =>
    refine ⟨[.releasing held reply], rfl, .single ?_⟩
    refine .work (Shared.alike_complete k .dropped) ⟨?_, rfl, sound_releasing⟩ .dismiss
    simp only [Frame.handles, Frame.held, List.flatMap_singleton]
    exact (List.filterMap_cons_none (Held.dispatcher?_completion k)).symm

/-- A frame is over and hands a reply to the one below it. -/
inductive Pops (s : Shared) : Frame → Reply → Prop
  | ended (e : Entry) (y : Yield) : Pops s (.body e) (.yielded y)
  | released (reply : Reply) (unskipped : reply ≠ .called .skipped) : Pops s (.releasing [] reply) reply
  | told {k : CompletionId} {c : Completion} (h : s.completions[k]? = some (some c))
      (deadline : Option Nat) : Pops s (.waiting k deadline) (.completed (some c))
  | untold (k : CompletionId) (deadline : Option Nat) : Pops s (.waiting k deadline) (.completed none)

theorem Pops.unskipped {f : Frame} {r : Reply} (h : Pops s f r) : r ≠ .called .skipped := by
  cases h with
  | released _ unskipped => exact unskipped
  | _ => simp

theorem Pops.of_completions {f : Frame} {r : Reply} (h : Pops s f r)
    (same : s'.completions = s.completions) : Pops s' f r := by
  cases h with
  | ended e y => exact .ended e y
  | released _ unskipped => exact .released r unskipped
  | told h deadline => exact .told (same ▸ h) deadline
  | untold k deadline => exact .untold k deadline

theorem Pops.stays {f : Frame} {r : Reply} (h : Pops s f r) (fs : List Frame) : Stays (f :: fs) fs := by
  cases h <;> exact stays_pop rfl rfl rfl fs

/-- What a step does to the frames: it replaces the innermost one, or removes it and hands a reply to
the one below. -/
inductive Steps (s : Shared) (f : Frame) (below : List Frame) (p : Shared × Thread) : Prop
  | within (goes : GoesOrSkips s [f] below p)
  | pops {th : Thread} {r : Reply} (pop : Pops s f r) (left : th.frames = below)
      (resumed : p = resume s th r)

/-- A step is done by turns, unless it gives up a call. -/
theorem Steps.turns {f : Frame} {below : List Frame} {p : Shared × Thread} (h : Steps s f below p) :
    ∃ old rest, f :: below = old ++ rest ∧ GoesOrSkips s old rest p := by
  cases h with
  | within goes => exact ⟨[f], below, rfl, goes⟩
  | @pops th r pop left resumed =>
    cases below with
    | nil =>
      refine ⟨[f], [], rfl, .inl ⟨[], ?_, .single ?_⟩⟩
      · rw [resumed]
        unfold resume
        simp [left]
      · rw [resumed]
        unfold resume
        simp only [left]
        exact .frames (pop.stays [])
    | cons g rest =>
      obtain ⟨new, hn, turns⟩ := goes_resume (s := s) left pop.unskipped
      rw [← resumed] at hn turns
      exact ⟨[f, g], rest, rfl, .inl ⟨new, hn, .head (.frames (pop.stays [g])) turns⟩⟩

/-- Ending client code is a step, unless there is none. -/
theorem steps_finish (s : Shared) (th : Thread) (y : Yield) :
    finish s th y = (s, th) ∨ ∃ f below, th.frames = f :: below ∧ Steps s f below (finish s th y) := by
  unfold finish
  split
  · rename_i e rest hf
    exact .inr ⟨_, _, hf, .pops (.ended e y) rfl rfl⟩
  · exact .inl rfl

theorem steps_advance {th' : Thread} (sound : ∀ f ∈ th.frames, f.Sound)
    (h : advance s th = some (s', th')) :
    ∃ f below, th.frames = f :: below ∧ Steps s f below (s', th') := by
  unfold advance at h
  split at h
  case h_1 entry rest hf =>
    cases h
    refine ⟨_, _, hf, .within (.inl ⟨[.body entry], rfl, .single (.frames ⟨⟨rfl, rfl, fun _ => ?_⟩, rfl,
      fun _ h => h⟩)⟩)⟩
    exact List.forall_mem_singleton.2 trivial
  case h_2 emission rest hf =>
    refine ⟨_, _, hf, .within (.inl ?_)⟩
    split at h
    · rename_i id c more _
      have e := Option.some.inj h
      rw [← e]
      exact goes_deliver id c rfl rfl
    · rename_i k _ _ _
      cases h
      refine ⟨[.waiting k _, .emitting emission], rfl, .single (.frames ⟨⟨rfl, rfl, fun h => ?_⟩,
        rfl, fun _ h => h⟩)⟩
      exact List.forall_mem_cons.2 ⟨trivial, h⟩
    · cases h
      exact ⟨[_], rfl, .single (.frames (stays_releasing rfl rfl rfl (by simp)))⟩
  case h_3 k deadline rest hf =>
    split at h
    · cases h
    · rename_i c hc
      have e := Option.some.inj h
      rw [← e]
      exact ⟨_, _, hf, .pops (.told (Option.join_eq_some_iff.1 hc) deadline) rfl rfl⟩
  case h_4 v rest hf => exact ⟨_, _, hf, .within (goes_serveNext hf h)⟩
  case h_5 d id next remaining held reply rest hf =>
    cases h
    refine ⟨_, _, hf, .within (.inl ⟨afterCut _ [.severing d id remaining held reply],
      afterCut_append _ [_] rest, ?_⟩)⟩
    exact .tail (.single .sever) (.frames (stays_afterCut _ _))
  case h_6 d id held reply rest hf =>
    cases h
    exact ⟨_, _, hf, .within (.inl ⟨[_], rfl, .single .severed⟩)⟩
  case h_7 d next remaining count held rest hf =>
    cases h
    refine ⟨_, _, hf, .within (.inl ⟨afterCut _ [.disconnecting d remaining _ held],
      afterCut_append _ [_] rest, ?_⟩)⟩
    refine .tail (.tail (.single (.cut d next)) (.frames ?_)) (.frames (stays_afterCut _ _))
    exact ⟨⟨rfl, rfl, fun _ => List.forall_mem_singleton.2 trivial⟩, rfl, fun _ h => h⟩
  case h_8 d count held rest hf =>
    cases h
    exact ⟨_, _, hf, .within (.inl ⟨[_], rfl, .single (.frames (stays_releasing rfl rfl rfl (by simp)))⟩)⟩
  case h_9 reply rest hf =>
    -- Only the execution of a call skips it, never a frame that gives back what was held.
    have unskipped : reply ≠ .called .skipped :=
      sound (.releasing [] reply) (hf ▸ List.mem_cons_self)
    have e := Option.some.inj h
    rw [← e]
    exact ⟨_, _, hf, .pops (.released reply unskipped) rfl rfl⟩
  case h_10 first held reply rest hf =>
    have e := Option.some.inj h
    rw [← e]
    exact ⟨_, _, hf, .within (.inl (goes_release first held reply))⟩
  case h_11 => cases h

/-- Giving up waiting is a step, unless the thread does not wait. -/
theorem steps_expire (sound : ∀ f ∈ th.frames, f.Sound) :
    expire s th = (s, th) ∨ ∃ f below, th.frames = f :: below ∧ Steps s f below (expire s th) := by
  unfold expire
  split
  · rename_i next h
    exact .inr (steps_advance sound h)
  · rename_i k deadline rest _ hf
    exact .inr ⟨_, _, hf, .pops (.untold k deadline) rfl rfl⟩
  · rename_i v rest _ hf
    exact .inr ⟨_, _, hf, .within (.inl (goes_stopServing .timedOut))⟩
  · exact .inl rfl

/-! ## All steps -/

/-- What can happen on a thread. -/
inductive Moves (s : Shared) (th : Thread) : Shared → Thread → Prop
  | act (a : Action) : Moves s th (act s th a).1 (act s th a).2
  | finish (y : Yield) : Moves s th (finish s th y).1 (finish s th y).2
  | advance {s' : Shared} {th' : Thread} (h : advance s th = some (s', th')) : Moves s th s' th'
  | expire (now : Nat) (waits : th.deadline?.isSome) :
      Moves s th (expire { s with now } th).1 (expire { s with now } th).2

/-- What happens on a thread, maybe after some time, is a step, makes a connection or is nothing. -/
theorem Moves.steps {th' : Thread} (sound : ∀ f ∈ th.frames, f.Sound) (h : Moves s th s' th') :
    ∃ now, (∃ f below, th.frames = f :: below ∧ Steps { s with now } f below (s', th')) ∨
      th'.frames = th.frames ∧ (Connects s s' ∨ s' = { s with now }) := by
  cases h with
  | act a =>
    refine ⟨s.now, ?_⟩
    unfold Thread.act
    split
    · rename_i e rest hb
      split
      · rename_i permitted
        have hb' : ({ th with answer := none } : Thread).frames = .body e :: rest := hb
        rcases mounts_perform a permitted hb' with goes | ⟨connects, same⟩
        · exact .inl ⟨_, _, hb, .within (.inl goes.goes)⟩
        · exact .inr ⟨same, .inl connects⟩
      · exact .inr ⟨rfl, .inr rfl⟩
    · exact .inr ⟨rfl, .inr rfl⟩
  | finish y =>
    refine ⟨s.now, ?_⟩
    rcases steps_finish s th y with e | steps
    · rw [e]
      exact .inr ⟨rfl, .inr rfl⟩
    · exact .inl steps
  | advance h => exact ⟨s.now, .inl (steps_advance sound h)⟩
  | expire now =>
    rcases steps_expire (s := { s with now }) sound with e | steps
    · rw [e]
      exact ⟨now, .inr ⟨rfl, .inr rfl⟩⟩
    · exact ⟨now, .inl steps⟩

/-- Whatever happens on a thread, outer frames stay and inner ones change by turns, or a call is given
up, or a connection is made and no frame changes. -/
theorem Moves.turns {th' : Thread} (sound : ∀ f ∈ th.frames, f.Sound) (h : Moves s th s' th') :
    (∃ old new rest, th.frames = old ++ rest ∧ th'.frames = new ++ rest ∧
      (Turns (s, old) (s', new) ∨ Skips (s, old) (s', new))) ∨
    Connects s s' ∧ th'.frames = th.frames := by
  obtain ⟨now, ⟨f, below, hf, steps⟩ | ⟨same, connects | rfl⟩⟩ := h.steps sound
  · obtain ⟨old, rest, split, ⟨new, hn, turns⟩ | ⟨new, hn, skips⟩⟩ := steps.turns
    · exact .inl ⟨old, new, rest, hf.trans split, hn,
        .inl (.head (.quiet (Shared.quiet_now now) (.refl _)) turns)⟩
    · exact .inl ⟨old, new, rest, hf.trans split, hn, .inr skips.at_now⟩
  · exact .inr ⟨connects, same⟩
  · exact .inl ⟨[], [], th.frames, rfl, same, .inl (.single (.quiet (Shared.quiet_now now) (.refl _)))⟩

end Thread
end Reflection

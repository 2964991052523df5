import Reflection.Proofs.Lists
import Reflection.Proofs.Machine.Stakes
/-!
# What goes through queues

Deliveries and calls post to queues, and so do those who ask a loop to quit; loops take what was
posted. `Thread.traffic` and `Thread.asked` tell for each step what it posts and takes. Queues and
those who hold them change just so (`settles_advance`, `deals_perform`), until the last handle of their
dispatcher is given back.
-/

namespace Reflection

/-! ## Client code's handles -/

namespace Shared

variable {s : Shared} {d d' : DispatcherId}

theorem lt_of_handles (h : 0 < s.handles d) : d < s.dispatchers.length := by
  obtain ⟨_, hx⟩ := getElem?_of_handles h
  exact (List.getElem?_eq_some_iff.1 hx).1

theorem lent_lt_owned (h : s.isOwned d) : s.lent d < s.owned d := by
  rw [isOwned] at h
  rw [lent, owned]
  cases hx : s.dispatchers[d]? with
  | none => simp [hx] at h
  | some x =>
    rw [hx, Option.any_some] at h
    exact of_decide_eq_true h

theorem lent_addDispatcher (timeout : Option Nat) :
    (s.addDispatcher timeout).2.lent d' = s.lent d' := by
  simp only [lent, addDispatcher]
  rcases Nat.lt_trichotomy d' s.dispatchers.length with lt | rfl | gt
  · rw [List.getElem?_append_left lt]
  · simp
  · have old : s.dispatchers[d']? = none := List.getElem?_eq_none (Nat.le_of_lt gt)
    have new : (s.dispatchers ++
        [{ dispatcher := { timeout }, handles := 1, owned := 1 }])[d']? = none :=
      List.getElem?_eq_none (by rw [List.length_append]; exact gt)
    rw [old, new]

@[simp] theorem lent_share : (s.share d).lent d' = s.lent d' :=
  congrArg (Option.getD · 0) (map_modify_of_eq fun _ => rfl)

@[simp] theorem lent_disown : (s.disown d).lent d' = s.lent d' :=
  congrArg (Option.getD · 0) (map_modify_of_eq fun _ => rfl)

@[simp] theorem owned_lend : (s.lend d).owned d' = s.owned d' :=
  quiet_lend.owned d'

@[simp] theorem owned_regain : (s.regain d).owned d' = s.owned d' :=
  quiet_regain.owned d'

theorem lent_lend (known : d < s.dispatchers.length) :
    (s.lend d).lent d' = s.lent d' + if d = d' then 1 else 0 := by
  simp only [lent, lend, List.getElem?_modify]
  by_cases e : d = d'
  · subst e
    simp [known]
  · simp [e]

theorem lent_regain (d d' : DispatcherId) :
    (s.regain d).lent d' = s.lent d' - if d = d' then 1 else 0 := by
  simp only [lent, regain, List.getElem?_modify]
  cases s.dispatchers[d']? with
  | none => simp
  | some x => by_cases e : d = d' <;> simp [e]

end Shared

namespace Thread

variable {s s' : Shared} {th th' : Thread} {p : Shared × Thread} {es : List Event} {stake : Stake}
  {d : DispatcherId} {f g : Frame} {fs rest : List Frame}

theorem stakes_of_running (s : Shared) (loops : th'.loops = th.loops)
    (running : th'.running = stake :: th.running) : stakes s th' = stake ::ₘ stakes s th := by
  have kept : th'.kept = th.kept := congrArg (·.reduceOption.map (·.stake)) loops
  rw [stakes, stakes, running, kept, ← Multiset.cons_coe, Multiset.cons_add, Multiset.cons_add]

theorem stakes_of_kept (s : Shared) (running : th'.running = th.running)
    (kept : th'.kept.Perm (stake :: th.kept)) : stakes s th' = stake ::ₘ stakes s th := by
  rw [stakes, stakes, running, Multiset.coe_eq_coe.2 kept, ← Multiset.cons_coe, Multiset.add_cons,
    Multiset.cons_add]

theorem stakes_of_quitters (th : Thread) (quitters : s'.quitters.Perm (stake :: s.quitters)) :
    stakes s' th = stake ::ₘ stakes s th := by
  rw [stakes, stakes, Multiset.coe_eq_coe.2 quitters, ← Multiset.cons_coe, Multiset.add_cons]

theorem keeps_of_loops (loops : th'.loops = th.loops) (d : DispatcherId) : th'.keeps d = th.keeps d :=
  congrArg (fun l => ((l.reduceOption.map (·.stake)).filterMap (ofDispatcher d)).length) loops

/-- The queues of one dispatcher change, and client code keeps the same loops. -/
theorem Deals.set {x : Dispatcher} (loops : th'.loops = th.loops)
    (trades : ∀ others, Trades s (stakes s th + others) es (s.setDispatcher d x)
      (stakes s th' + others)) : Deals s th es (s.setDispatcher d x, th') := by
  refine ⟨trades, fun d' n lent => ?_⟩
  rw [keeps_of_loops loops]
  exact ⟨(Shared.lent_setDispatcher x d').trans lent.lent,
    lent.owned.trans_eq (Shared.owned_setDispatcher x).symm⟩

theorem idle_withFrames (h : s.Still s') (same : fs.flatMap (·.stakes) = th.running) :
    Idle s th (s', th.withFrames fs) :=
  ⟨h, rfl, same⟩

/-- The innermost frame gives way to another one, and no loop begins or ends. -/
theorem idle_replace (h : s.Still s') (hf : th.frames = f :: rest) (same : g.stakes = f.stakes) :
    Idle s th (s', th.withFrames (g :: rest)) := by
  refine idle_withFrames h ?_
  rw [running, hf, List.flatMap_cons, List.flatMap_cons, same]

theorem idle_push (h : s.Still s') (none : f.stakes = []) : Idle s th (push s' th f) := by
  refine idle_withFrames h ?_
  rw [List.flatMap_cons, none]
  rfl

@[simp] theorem stakes_afterDelivery (c : Connection) (fs : List Frame) :
    (afterDelivery c fs).flatMap (·.stakes) = fs.flatMap (·.stakes) := by
  unfold afterDelivery
  split <;> rfl

@[simp] theorem stakes_afterCut (c : Option Connection) (fs : List Frame) :
    (afterCut c fs).flatMap (·.stakes) = fs.flatMap (·.stakes) := by
  cases c with
  | none => rfl
  | some c => exact stakes_afterDelivery c fs

/-! ## Replies -/

theorem still_beginSevering (s : Shared) (d : DispatcherId) (id : ObjectId) (held : List Held)
    (reply : Bool → Reply) : s.Still (beginSevering s d id held reply).1 ∧
      (beginSevering s d id held reply).2.stakes = [] := by
  unfold beginSevering
  split
  · exact ⟨.refl s, rfl⟩
  · rename_i begun
    exact ⟨Shared.still_setDispatcher (Dispatcher.queues_beginDestroy begun), rfl⟩

theorem idle_resume (s : Shared) (th : Thread) (reply : Reply) : Idle s th (resume s th reply) := by
  have still := Shared.Still.refl s
  unfold resume
  split
  case h_1 => exact ⟨still, rfl, rfl⟩
  case h_2 hf => exact idle_replace still hf rfl
  case h_3 hf => exact idle_replace still hf rfl
  case h_4 e rest r hf =>
    split
    · exact .refl s th
    · refine idle_withFrames still ?_
      rw [stakes_afterDelivery, running, hf]
      rfl
  case h_5 hf =>
    split
    · exact .refl s th
    · exact idle_replace still hf rfl
  case h_6 hf => exact idle_replace still hf rfl
  case h_7 hf => exact idle_replace still hf rfl
  case h_8 i rest r hf =>
    have told : ∀ k, s.Still (s.complete k .delivered) := fun k => .of_dispatchers rfl rfl
    dsimp only
    split
    · exact idle_replace still hf rfl
    · exact idle_replace still hf rfl
    · exact idle_replace (told _) hf rfl
  case h_9 i rest y hf =>
    split
    · refine idle_withFrames still ?_
      rw [running, hf]
      rfl
    · rename_i d id _
      have held : s.Still (s.retain (.dispatcher d)) := Shared.still_retain _
      obtain ⟨severing, none⟩ :=
        still_beginSevering (s.retain (.dispatcher d)) d id [.dispatcher d] fun _ => .nothing
      exact idle_replace (held.trans severing) hf none
  case h_10 => exact .refl s th

/-- The innermost frame is over, and the one below it gets a reply. -/
theorem idle_resume_below (hf : th.frames = f :: rest) (none : f.stakes = []) (reply : Reply) :
    Idle s th (resume s (th.withFrames rest) reply) := by
  have ended : Idle s th (s, th.withFrames rest) := by
    refine idle_withFrames (.refl s) ?_
    rw [running, hf, List.flatMap_cons, none]
    rfl
  exact ended.trans (idle_resume _ _ _)

theorem idle_finish (s : Shared) (th : Thread) (y : Yield) : Idle s th (finish s th y) := by
  unfold finish
  split
  · rename_i entry rest hf
    have ended : Idle s th (s, { th with frames := rest, answer := none }) := by
      refine ⟨.refl s, rfl, ?_⟩
      rw [running, running, hf]
      rfl
    exact ended.trans (idle_resume _ _ _)
  · exact .refl s th

/-! ## Posting -/

/-- What a call along a route posts. A caller who waits does so for a completion that is new. -/
def posts (s : Shared) (d : DispatcherId) (args : List Variant) : Route → List Event
  | .enqueue context target => [(d, .posted context (.work { target, args }))]
  | .wait context target =>
    [(d, .posted context (.work { target, args, completion := some s.completions.length }))]
  | .skip | .fail _ | .callNow _ => []

theorem deals_enqueue (known : d < s.dispatchers.length) (th : Thread) (context : Context)
    (i : Invocation) : Deals s th [(d, .posted context (.work i))] (s.enqueue d context i, th) :=
  (Deals.set rfl fun _ => .post known context (.work i)).idle
    (.of_still (Shared.still_retainAll _) th)

theorem deals_enqueueWaiting (known : d < s.dispatchers.length) (th : Thread) (context : Context)
    (target : Target) (args : List Variant) :
    Deals s th (posts s d args (.wait context target))
      ((s.enqueueWaiting d context target args).2, th) := by
  have counted : s.Still s.addCompletion.2 := .of_dispatchers rfl rfl
  exact (Idle.of_still counted th).then (deals_enqueue (s := s.addCompletion.2) known th context _)

/-- A delivery posts what its route says. -/
theorem deals_deliver {e e₀ : Emission} (known : e.dispatcher < s.dispatchers.length)
    (hf : th.frames = .emitting e₀ :: rest) (id : ConnectionId) (c : Connection) :
    Deals s th (posts s e.dispatcher e.args ((s.dispatcher e.dispatcher).routeOver c e.current))
      (deliver s th e id c rest) := by
  have settled : ∀ (s' : Shared) (e' : Emission),
      Idle s' th (s', th.withFrames (afterDelivery c (.emitting e' :: rest))) := by
    intro s' e'
    refine idle_withFrames (.refl s') ?_
    rw [stakes_afterDelivery, running, hf]
    rfl
  unfold deliver
  dsimp only
  generalize (s.dispatcher e.dispatcher).routeOver c e.current = route
  cases route with
  | skip => exact (settled s _).deals
  | fail => exact (settled s _).deals
  | enqueue context target => exact (deals_enqueue known th context _).idle (settled _ _)
  | wait context target =>
    exact (deals_enqueueWaiting known th context target e.args).idle (settled _ _)
  | callNow target =>
    dsimp only
    split
    · exact (settled s _).deals
    · exact (settled s _).deals
    · refine Idle.deals (idle_withFrames (Shared.still_retainAll _) ?_)
      rw [running, hf]
      rfl

theorem deals_beginCalling (known : d < s.dispatchers.length) (th : Thread) (args : List Variant)
    (route : Route) : Deals s th (posts s d args route) (beginCalling s th d args route) := by
  have replied : ∀ (s' : Shared) (a : Answer), Idle s' th (reply s' th a) := fun s' a =>
    ⟨.refl s', rfl, rfl⟩
  cases route with
  | skip => exact (replied s _).deals
  | fail => exact (replied s _).deals
  | enqueue context target => exact (deals_enqueue known th context _).idle (replied _ _)
  | wait context target =>
    refine (deals_enqueueWaiting known th context target args).idle ?_
    exact idle_withFrames (Shared.still_retain _) rfl
  | callNow target =>
    unfold beginCalling
    dsimp only
    split
    · exact (replied s _).deals
    · exact (replied s _).deals
    · exact Idle.deals (idle_withFrames (Shared.still_retainAll _) rfl)

/-! ## Loops -/

theorem idle_execute (same : rest.flatMap (·.stakes) = th.running) (d : DispatcherId)
    (i : Invocation) : Idle s th (execute s th d i rest) := by
  have executing : Idle s th (s, th.withFrames (.executing i :: rest)) :=
    idle_withFrames (.refl s) same
  unfold execute
  split
  · exact executing.trans (idle_resume _ _ _)
  · exact executing.trans (idle_resume _ _ _)
  · exact idle_withFrames (Shared.still_retainAll _) same

theorem deals_stopServing {v : Serving} (known : v.dispatcher < s.dispatchers.length)
    (hf : th.frames = .serving v :: rest) (exit : LoopExit) :
    Deals s th [] (stopServing s th v exit rest) := by
  refine .set rfl fun others => ?_
  let th' := (stopServing s th v exit rest).2
  have running : th.running = (v.dispatcher, v.loop.context, v.loop.queue) :: th'.running := by
    rw [running, hf]
    rfl
  have whole : stakes s th = (v.dispatcher, v.loop.context, v.loop.queue) ::ₘ stakes s th' :=
    stakes_of_running s rfl running
  rw [whole, Multiset.cons_add]
  exact .stop known v.loop th.current _

/-- What the next step of the operation under way posts or takes. -/
def traffic (s : Shared) (th : Thread) : List Event :=
  match th.frames with
  | .emitting e :: _ =>
    match e.remaining with
    | [] => []
    | (_, c) :: _ => posts s e.dispatcher e.args ((s.dispatcher e.dispatcher).routeOver c e.current)
  | .serving v :: _ =>
    match (s.dispatcher v.dispatcher).queues.pop? v.loop.queue with
    | none => []
    | some (item, _) => [(v.dispatcher, .taken v.loop.context item)]
  | _ => []

theorem traffic_serving {v : Serving} (hf : th.frames = .serving v :: rest) {item : QueueItem Invocation}
    {queues : Queues Invocation}
    (pop : (s.dispatcher v.dispatcher).queues.pop? v.loop.queue = some (item, queues)) :
    traffic s th = [(v.dispatcher, .taken v.loop.context item)] := by
  simp only [traffic, hf, pop]

theorem traffic_serving_none {v : Serving} (hf : th.frames = .serving v :: rest)
    (pop : (s.dispatcher v.dispatcher).queues.pop? v.loop.queue = none) : traffic s th = [] := by
  simp only [traffic, hf, pop]

/-- Only deliveries and loops post and take. -/
theorem traffic_eq_nil (hf : th.frames = f :: rest) (emits : ∀ e, f ≠ .emitting e)
    (serves : ∀ v, f ≠ .serving v) : traffic s th = [] := by
  unfold traffic
  rw [hf]
  cases f with
  | emitting e => exact absurd rfl (emits e)
  | serving v => exact absurd rfl (serves v)
  | _ => rfl

theorem deals_serveNext {v : Serving} (known : v.dispatcher < s.dispatchers.length)
    (hf : th.frames = .serving v :: rest) (h : serveNext s th v rest = some p) :
    Deals s th (traffic s th) p := by
  unfold serveNext at h
  dsimp only at h
  split at h
  · rename_i pop
    rw [traffic_serving_none hf pop]
    split at h
    · cases h
      exact deals_stopServing known hf .empty
    · cases h
  · rename_i item queues pop
    rw [traffic_serving hf pop]
    have held : (v.dispatcher, v.loop.context, v.loop.queue) ∈ stakes s th := by
      simp [stakes, running, hf, Frame.stakes]
    have taken : Deals s th [(v.dispatcher, .taken v.loop.context item)]
        (s.setDispatcher v.dispatcher { s.dispatcher v.dispatcher with queues }, th) :=
      .set rfl fun _ => .take known (Multiset.mem_add.2 (.inl held)) pop
    split at h
    · cases h
      refine taken.idle (idle_execute ?_ _ _)
      rw [running, hf]
      rfl
    · split at h
      · cases h
        exact taken
      · cases h
        let s' := s.setDispatcher v.dispatcher { s.dispatcher v.dispatcher with queues }
        have known' : v.dispatcher < s'.dispatchers.length := by rwa [Shared.size_setDispatcher]
        have stopped := taken.trans (deals_stopServing known' hf .quit)
        rwa [List.append_nil] at stopped

/-! ## Steps -/

/-- Queues and those who hold them change as is told, or the last handle of a dispatcher is given back
and nothing is posted or taken. -/
inductive Settles (s : Shared) (th : Thread) (es : List Event) (p : Shared × Thread) : Prop
  | deals (h : Deals s th es p)
  | closes {d : DispatcherId} {th' : Thread} (silent : es = []) (last : s.handles d = 1)
      (idle : Idle s th ((s.letGo (.dispatcher d)).2, th'))
      (closed : p = ((s.letGo (.dispatcher d)).2.setDispatcher d {}, th'))

theorem settles_release {h : Held} {held : List Held} {reply : Reply}
    (hf : th.frames = .releasing (h :: held) reply :: rest) :
    Settles s th [] (release s th h held reply rest) := by
  have gone : s.Still (s.letGo h).2 := Shared.still_letGo h
  have releasing : ∀ held', Idle s th ((s.letGo h).2, th.withFrames (.releasing held' reply :: rest)) :=
    fun held' => idle_replace gone hf rfl
  unfold release
  dsimp only
  split
  · exact .deals (releasing held).deals
  · rename_i last
    cases h with
    | completion k => exact .deals (releasing held).deals
    | callback c =>
      refine .deals (Idle.deals (idle_withFrames gone ?_))
      rw [running, hf]
      rfl
    | object i =>
      refine .deals (Idle.deals (idle_withFrames gone ?_))
      rw [running, hf]
      rfl
    | dispatcher d =>
      have last : s.handles d = 1 := by
        apply Shared.letGo_last.1
        simpa using last
      exact .closes rfl last (releasing _) rfl

/-- The dispatchers whose queues a thread can come to use are there. -/
structure Known (s : Shared) (th : Thread) : Prop where
  emitting : ∀ e, .emitting e ∈ th.frames → e.dispatcher < s.dispatchers.length
  holders : ∀ stake ∈ stakes s th, stake.1 < s.dispatchers.length

theorem Known.serving (h : Known s th) {v : Serving} (hf : th.frames = .serving v :: rest) :
    v.dispatcher < s.dispatchers.length := by
  refine h.holders (v.dispatcher, v.loop.context, v.loop.queue) ?_
  simp [stakes, running, hf, Frame.stakes]

theorem settles_advance (known : Known s th) (h : advance s th = some p) :
    Settles s th (traffic s th) p := by
  have still := Shared.Still.refl s
  unfold advance at h
  split at h
  case h_2 e rest hf =>
    split at h
    · rename_i id c more remaining
      cases h
      have posts : traffic s th =
          posts s e.dispatcher e.args ((s.dispatcher e.dispatcher).routeOver c e.current) := by
        simp only [traffic, hf, remaining]
      rw [posts]
      exact .deals (deals_deliver (e := { e with remaining := more })
        (known.emitting e (hf ▸ List.mem_cons_self)) hf id c)
    · rename_i remaining _
      cases h
      have silent : traffic s th = [] := by simp only [traffic, hf, remaining]
      rw [silent]
      refine .deals (Idle.deals (idle_withFrames still ?_))
      rw [running, hf]
      rfl
    · rename_i remaining _
      cases h
      have silent : traffic s th = [] := by simp only [traffic, hf, remaining]
      rw [silent]
      exact .deals (Idle.deals (idle_replace still hf rfl))
  case h_4 v rest hf => exact .deals (deals_serveNext (known.serving hf) hf h)
  -- All other frames leave queues alone.
  case h_1 entry rest hf =>
    rw [traffic_eq_nil hf (by simp) (by simp)]
    cases h
    exact .deals (Idle.deals (idle_replace still hf rfl))
  case h_3 k deadline rest hf =>
    rw [traffic_eq_nil hf (by simp) (by simp)]
    split at h
    · cases h
    · cases h
      exact .deals (idle_resume_below hf rfl _).deals
  case h_5 d id next remaining held reply rest hf =>
    rw [traffic_eq_nil hf (by simp) (by simp)]
    cases h
    refine .deals (Idle.deals (idle_withFrames
      (Shared.still_setDispatcher (Dispatcher.queues_sever _ _ _)) ?_))
    rw [stakes_afterCut, running, hf]
    rfl
  case h_6 d id held reply rest hf =>
    rw [traffic_eq_nil hf (by simp) (by simp)]
    cases h
    exact .deals (Idle.deals (idle_replace (Shared.still_setDispatcher rfl) hf rfl))
  case h_7 d next remaining count held rest hf =>
    rw [traffic_eq_nil hf (by simp) (by simp)]
    cases h
    refine .deals (Idle.deals (idle_withFrames
      (Shared.still_setDispatcher (Dispatcher.queues_disconnect _ _)) ?_))
    rw [stakes_afterCut, running, hf]
    rfl
  case h_8 d count held rest hf =>
    rw [traffic_eq_nil hf (by simp) (by simp)]
    cases h
    exact .deals (Idle.deals (idle_replace still hf rfl))
  case h_9 reply rest hf =>
    rw [traffic_eq_nil hf (by simp) (by simp)]
    cases h
    exact .deals (idle_resume_below hf rfl _).deals
  case h_10 first held reply rest hf =>
    rw [traffic_eq_nil hf (by simp) (by simp)]
    cases h
    exact settles_release hf
  case h_11 => cases h

/-- Who has to wait posts and takes nothing. -/
theorem traffic_of_stuck (h : advance s th = none) : traffic s th = [] := by
  unfold traffic
  split
  · rename_i e rest hf
    split
    · rfl
    · rename_i remaining
      simp only [advance, hf, remaining, reduceCtorEq] at h
  · rename_i v rest hf
    split
    · rfl
    · rename_i item queues pop
      simp only [advance, hf, serveNext, pop] at h
      split at h
      · cases h
      · split at h <;> cases h
  · rfl

/-- Giving up waiting posts and takes nothing; whoever gives up late takes the next step instead. -/
theorem settles_expire (known : Known s th) : Settles s th (traffic s th) (expire s th) := by
  unfold expire
  split
  · rename_i h
    exact settles_advance known h
  · rename_i k deadline rest stuck hf
    rw [traffic_of_stuck stuck]
    exact .deals (idle_resume_below hf rfl _).deals
  · rename_i v rest stuck hf
    rw [traffic_of_stuck stuck]
    exact .deals (deals_stopServing (known.serving hf) hf .timedOut)
  · rename_i stuck _ _
    rw [traffic_of_stuck stuck]
    exact .deals (Idle.refl s th).deals

/-! ## Client code -/

/-- What client code posts with an action. -/
def asked (s : Shared) (th : Thread) : Action → List Event
  | .call d id method type args =>
    match (s.dispatcher d).beginCall id method type args th.current with
    | .error _ => []
    | .ok route => posts s d args route
  | .quit d context => [(d, .posted context .quit)]
  | .quitBy h =>
    match s.quitHandle? h with
    | none => []
    | some x => [(x.dispatcher, .posted x.context .quit)]
  | _ => []

theorem asked_of_refused {o : ObjectId} {method : String} {type : ConnectionType} {args : List Variant}
    {error : DispatchError}
    (refused : (s.dispatcher d).beginCall o method type args th.current = .error error) :
    asked s th (.call d o method type args) = [] := by
  unfold asked
  simp only [refused]

theorem asked_of_route {o : ObjectId} {method : String} {type : ConnectionType} {args : List Variant}
    {route : Route} (routed : (s.dispatcher d).beginCall o method type args th.current = .ok route) :
    asked s th (.call d o method type args) = posts s d args route := by
  unfold asked
  simp only [routed]

theorem idle_reply (h : s.Still s') (a : Answer) : Idle s th (reply s' th a) :=
  ⟨h, rfl, rfl⟩

theorem idle_replyChange {result : Except ObjectError Dispatcher}
    (same : ∀ x, result = .ok x → x.queues = (s.dispatcher d).queues) :
    Idle s th (replyChange s th d result) := by
  cases result with
  | error => exact idle_reply (.refl s) _
  | ok x => exact idle_reply (Shared.still_setDispatcher (same x rfl)) _

theorem idle_replyConnected {result : Except ConnectionError (ConnectionId × Dispatcher)}
    (links : ∀ p, result = .ok p → ∃ c, (s.dispatcher d).Admits c ∧ p = (s.dispatcher d).link c) :
    Idle s th (replyConnected s th d result) := by
  cases result with
  | error => exact idle_reply (.refl s) _
  | ok p =>
    obtain ⟨c, -, rfl⟩ := links p rfl
    exact idle_reply (Shared.still_setDispatcher (Dispatcher.queues_link _ c)) _

theorem idle_beginEmitting (s : Shared) (th : Thread) (d : DispatcherId) (args : List Variant)
    (held : List Held) (deliveries : Except DispatchError (List (ConnectionId × Connection))) :
    Idle s th (beginEmitting s th d args held deliveries) := by
  have holds := Shared.still_retainAll (s := s) held
  cases deliveries with
  | error => exact idle_push holds rfl
  | ok remaining => exact idle_push (holds.trans (Shared.still_retainAll _)) rfl

theorem idle_emitOwn (s : Shared) (th : Thread) (i : InstanceId) (args : List Variant)
    (deliveries : Dispatcher → ObjectId →
      Except DispatchError (List (ConnectionId × Connection))) :
    Idle s th (emitOwn s th i args deliveries) := by
  unfold emitOwn
  split
  · exact idle_reply (.refl s) _
  · exact idle_beginEmitting s th _ args _ _

theorem idle_beginAccess (s : Shared) (th : Thread) (d : DispatcherId) (id : ObjectId) (name : String)
    (access : PropertyAccess) (refuse : ObjectError → Answer)
    (code : InstanceId → MetaClass.Property → Except ObjectError Entry) :
    Idle s th (beginAccess s th d id name access refuse code) := by
  unfold beginAccess
  split
  · exact idle_reply (.refl s) _
  · split
    · exact idle_reply (.refl s) _
    · split
      · exact idle_reply (.refl s) _
      · exact idle_withFrames (Shared.still_retainAll _) rfl

/-! ### Loops and quit handles -/

theorem kept_of_loop? {l : LoopId} {o : OwnLoop} (h : th.loop? l = some o) :
    th.kept.Perm (o.stake :: { th with loops := th.loops.set l none }.kept) :=
  (perm_reduceOption_set (Option.join_eq_some_iff.1 h)).map _

theorem mem_stakes_of_loop? {l : LoopId} {o : OwnLoop} (h : th.loop? l = some o) (s : Shared) :
    o.stake ∈ stakes s th := by
  have kept : o.stake ∈ th.kept := (kept_of_loop? h).mem_iff.2 List.mem_cons_self
  exact Multiset.mem_add.2 (.inl (Multiset.mem_add.2 (.inr (Multiset.mem_coe.2 kept))))

theorem quitters_of_quitHandle? {h : QuitHandleId} {x : QuitHandle} (hx : s.quitHandle? h = some x) :
    s.quitters.Perm (x.stake :: { s with quitHandles := s.quitHandles.set h none }.quitters) :=
  (perm_reduceOption_set (Option.join_eq_some_iff.1 hx)).map _

theorem mem_stakes_of_quitHandle? {h : QuitHandleId} {x : QuitHandle}
    (hx : s.quitHandle? h = some x) (th : Thread) : x.stake ∈ stakes s th := by
  have quitter : x.stake ∈ s.quitters := (quitters_of_quitHandle? hx).mem_iff.2 List.mem_cons_self
  exact Multiset.mem_add.2 (.inr (Multiset.mem_coe.2 quitter))

theorem keeps_of_kept (kept : th'.kept.Perm (stake :: th.kept)) (d : DispatcherId) :
    th'.keeps d = th.keeps d + if stake.1 = d then 1 else 0 := by
  rw [keeps, (kept.filterMap _).length_eq, keeps]
  obtain ⟨d', h⟩ := stake
  by_cases e : d' = d
  · subst e
    rw [List.filterMap_cons_some (ofDispatcher_self h), if_pos rfl]
    rfl
  · rw [List.filterMap_cons_none (ofDispatcher_of_ne e h), if_neg e]
    rfl

/-- A loop begins to run. -/
theorem Deals.runs {x : Dispatcher} (loops : th'.loops = th.loops)
    (running : th'.running = stake :: th.running)
    (trades : ∀ others, Trades s (stakes s th + others) [] (s.setDispatcher d x)
      (stake ::ₘ (stakes s th + others))) : Deals s th [] (s.setDispatcher d x, th') := by
  refine .set loops fun others => ?_
  rw [stakes_of_running s loops running, Multiset.cons_add]
  exact trades others

theorem deals_serve (known : d < s.dispatchers.length) (th : Thread) (context : Context)
    (mode : LoopMode) : Deals s th [] (perform s th (.serve d context mode)) := by
  have held : s.Still (s.retain (.dispatcher d)) := Shared.still_retain _
  refine (Idle.of_still held th).then (.runs rfl rfl fun others => ?_)
  rw [← held.size] at known
  have started := Trades.start (H := stakes (s.retain (.dispatcher d)) th + others) known th.current context
  rwa [Shared.dispatcher_retain] at started

theorem deals_useLoop (s : Shared) (th : Thread) (l : LoopId) (mode : LoopMode) :
    Deals s th [] (useLoop s th l mode) := by
  unfold useLoop
  split
  · exact (Idle.refl s th).deals
  · rename_i d loop found
    split
    · exact (Idle.refl s th).deals
    · rename_i opened
      have opened : 0 < s.handles d := Shared.isOpen_iff.1 (by simpa using opened)
      have held : s.Still (s.retain (.dispatcher d)) := Shared.still_retain _
      refine (Idle.of_still held th).then (.runs rfl rfl fun others => ?_)
      exact .hold (held.size.symm ▸ Shared.lt_of_handles opened)
        (Multiset.mem_add.2 (.inl (mem_stakes_of_loop? found _)))

theorem deals_newLoop (opened : 0 < s.handles d) (th : Thread) (context : Context) :
    Deals s th [] (perform s th (.newLoop d context)) := by
  let started := Loop.start (s.dispatcher d).queues th.current context
  let o : OwnLoop := ⟨d, started.1⟩
  let s₁ := (s.share d).lend d
  let th' : Thread := { th with current := context, loops := th.loops ++ [some o] }
  have known : d < (s.share d).dispatchers.length := by
    simpa [Shared.share] using Shared.lt_of_handles opened
  have known₁ : d < s₁.dispatchers.length := by simpa [s₁, Shared.lend] using known
  have kept : th'.kept.Perm (o.stake :: th.kept) := (reduceOption_concat_some th.loops o).map _
  have whole : stakes s th' = o.stake ::ₘ stakes s th := stakes_of_kept s rfl kept
  refine ⟨fun others => ?_, fun d' n lent => ?_⟩
  · have same : ∀ d', s₁.dispatcher d' = s.dispatcher d' := fun d' =>
      Shared.dispatcher_lend.trans Shared.dispatcher_share
    have shared : Trades s (stakes s th + others) [] s₁ (stakes s th + others) :=
      .of_queues fun d' => congrArg (·.queues) (same d')
    have begun := Trades.start (H := stakes s th + others) known₁ th.current context
    rw [same d] at begun
    show Trades s (stakes s th + others) [] _ (stakes s th' + others)
    rw [whole, Multiset.cons_add]
    exact shared.trans begun
  · -- Client code gets one more handle, which its new loop has.
    have more : th'.keeps d' = th.keeps d' + if d = d' then 1 else 0 := keeps_of_kept kept d'
    have lent' : s₁.lent d' = s.lent d' + if d = d' then 1 else 0 := by
      rw [Shared.lent_lend known, Shared.lent_share]
    have owned : s₁.owned d' = s.owned d' + if d = d' then 1 else 0 := by
      rw [Shared.owned_lend, Shared.owned_share opened]
    obtain ⟨before, enough⟩ := lent
    refine ⟨?_, ?_⟩
    · show Shared.lent (Shared.setDispatcher ..) d' = th'.keeps d' + n
      rw [Shared.lent_setDispatcher, lent', more]
      omega
    · show th'.keeps d' + n ≤ Shared.owned (Shared.setDispatcher ..) d'
      rw [Shared.owned_setDispatcher, owned, more]
      omega

theorem deals_dropLoop (known : ∀ stake ∈ stakes s th, stake.1 < s.dispatchers.length) (l : LoopId) :
    Deals s th [] (dropLoop s th l) := by
  unfold dropLoop
  split
  · exact (Idle.refl s th).deals
  · rename_i d loop found
    dsimp only
    split
    · exact (Idle.refl s th).deals
    · rename_i drops
      rw [Bool.or_eq_true, not_or, Bool.not_eq_true', Bool.not_eq_false] at drops
      have known := known _ (mem_stakes_of_loop? found s)
      let queues := (loop.stop (s.dispatcher d).queues th.current).2
      let s₁ := s.setDispatcher d { s.dispatcher d with queues }
      let th' : Thread :=
        { th with current := loop.previous.getD th.current, loops := th.loops.set l none }
      have kept : th.kept.Perm ((d, loop.context, loop.queue) :: th'.kept) := kept_of_loop? found
      have whole : stakes s th = (d, loop.context, loop.queue) ::ₘ stakes s th' :=
        stakes_of_kept s rfl kept
      have dropped : Deals s th [] ((s₁.regain d).disown d, th') := by
        refine ⟨fun others => ?_, fun d' n lent => ?_⟩
        · rw [whole, Multiset.cons_add]
          have given : ∀ H, Trades s₁ H [] ((s₁.regain d).disown d) H := fun H =>
            .of_queues fun d' => by rw [Shared.dispatcher_disown, Shared.dispatcher_regain]
          exact (Trades.stop known loop th.current _).trans (given _)
        · -- Client code gives back one handle, which was the loop's.
          have fewer : th.keeps d' = th'.keeps d' + if d = d' then 1 else 0 := keeps_of_kept kept d'
          have after : (s₁.regain d).lent d' = th'.keeps d' + n := by
            have before := lent.lent
            rw [Shared.lent_regain, Shared.lent_setDispatcher]
            omega
          have spare : (s₁.regain d).lent d < (s₁.regain d).owned d := Shared.lent_lt_owned drops.2
          have given := Shared.owned_disown (Nat.lt_of_le_of_lt (Nat.zero_le _) spare) d'
          refine ⟨Shared.lent_disown.trans after, ?_⟩
          show th'.keeps d' + n ≤ ((s₁.regain d).disown d).owned d'
          by_cases e : d = d'
          · subst e
            rw [if_pos rfl] at given
            omega
          · have enough := lent.owned
            rw [if_neg e, Shared.owned_regain, Shared.owned_setDispatcher] at given
            rw [if_neg e] at fewer
            omega
      exact dropped.idle (idle_push (.refl _) rfl)

theorem deals_addQuitHandle (th : Thread) {x : QuitHandle}
    (known : x.dispatcher < s.dispatchers.length) (held : x.stake ∈ stakes s th) :
    Deals s th [] ((s.addQuitHandle x).2, th) := by
  have whole : stakes (s.addQuitHandle x).2 th = x.stake ::ₘ stakes s th :=
    stakes_of_quitters th ((reduceOption_concat_some s.quitHandles x).map _)
  refine ⟨fun others => ?_, fun d n lent => ?_⟩
  · rw [whole, Multiset.cons_add]
    exact Trades.hold known (Multiset.mem_add.2 (.inl held))
  · exact ⟨(Shared.lent_setDispatcher _ d).trans lent.lent,
      lent.owned.trans_eq (Shared.owned_setDispatcher _).symm⟩

theorem deals_dropQuitHandle (th : Thread) {h : QuitHandleId} {x : QuitHandle}
    (known : x.dispatcher < s.dispatchers.length) (found : s.quitHandle? h = some x) :
    Deals s th [] ({ s.modifyQueues x.dispatcher (·.letGo x.queue) with
      quitHandles := s.quitHandles.set h none }, th) := by
  let s' : Shared := { s with quitHandles := s.quitHandles.set h none }
  have whole : stakes s th = x.stake ::ₘ stakes s' th :=
    stakes_of_quitters th (quitters_of_quitHandle? found)
  refine ⟨fun others => ?_, fun d n lent => ?_⟩
  · rw [whole, Multiset.cons_add]
    exact Trades.letGo known x.context x.queue (stakes s' th + others)
  · exact ⟨(Shared.lent_setDispatcher _ d).trans lent.lent,
      lent.owned.trans_eq (Shared.owned_setDispatcher _).symm⟩

/-! ### Actions -/

theorem deals_newDispatcher (s : Shared) (th : Thread) (timeout : Option Nat) :
    Deals s th [] ((s.addDispatcher timeout).2, th) := by
  refine ⟨fun _ => .of_queues fun d => ?_, fun d n lent => ⟨?_, ?_⟩⟩
  · rcases s.addDispatcher_views timeout d with ⟨-, -, same⟩ | ⟨-, -, -, old, -, -, new⟩
    · exact congrArg (·.queues) same
    · rw [old, new]
  · exact (s.lent_addDispatcher timeout).trans lent.lent
  · rcases s.addDispatcher_views timeout d with ⟨-, same, -⟩ | ⟨-, -, none, -⟩
    · exact lent.owned.trans_eq same.symm
    · exact (none ▸ lent.owned).trans (Nat.zero_le _)

theorem deals_share (opened : 0 < s.handles d) (th : Thread) : Deals s th [] (s.share d, th) := by
  refine ⟨fun _ => .of_queues fun d' => by rw [Shared.dispatcher_share], fun d' n lent => ⟨?_, ?_⟩⟩
  · exact Shared.lent_share.trans lent.lent
  · rw [Shared.owned_share opened]
    exact lent.owned.trans (Nat.le_add_right _ _)

/-- Client code does not give away the handles of its loops. -/
theorem deals_disown (spare : s.isOwned d) (th : Thread) : Deals s th [] (s.disown d, th) := by
  refine ⟨fun _ => .of_queues fun d' => by rw [Shared.dispatcher_disown], fun d' n lent => ⟨?_, ?_⟩⟩
  · exact Shared.lent_disown.trans lent.lent
  · have spare := Shared.lent_lt_owned spare
    have given := Shared.owned_disown (Nat.lt_of_le_of_lt (Nat.zero_le _) spare) d'
    obtain ⟨before, enough⟩ := lent
    show th.keeps d' + n ≤ (s.disown d).owned d'
    by_cases e : d = d'
    · subst e
      rw [if_pos rfl] at given
      omega
    · rw [if_neg e] at given
      omega

theorem deals_perform (a : Action) (permitted : permits s a) (known : Known s th) :
    Deals s th (asked s th a) (perform s th a) := by
  have still := Shared.Still.refl s
  have held : ∀ d, s.Still (s.retain (.dispatcher d)) := fun d => Shared.still_retain _
  have answered : ∀ {s' : Shared}, s.Still s' → ∀ a, Deals s th [] (reply s' th a) :=
    fun h a => (idle_reply h a).deals
  cases a with
  | newDispatcher timeout => exact (deals_newDispatcher s th timeout).idle (idle_reply (.refl _) _)
  | shareDispatcher d =>
    exact (deals_share (opened_of_permits permitted rfl nofun) th).idle (idle_reply (.refl _) _)
  | dropDispatcher d => exact (deals_disown permitted th).idle (idle_push (.refl _) rfl)
  | newObject className =>
    refine answered ?_ _
    exact .of_dispatchers rfl rfl
  | dropObject i => exact (idle_push still rfl).deals
  | newCallback =>
    refine answered ?_ _
    exact .of_dispatchers rfl rfl
  | register d i =>
    unfold perform
    dsimp only
    split
    · exact answered still _
    · rename_i registered
      obtain ⟨metaClass, instances, rfl⟩ := Shared.register_eq_ok registered
      have set : s.Still (s.setDispatcher d ((s.dispatcher d).register i metaClass th.current).2) :=
        Shared.still_setDispatcher rfl
      refine answered (set.trans ?_) _
      exact .of_dispatchers rfl rfl
  | destroy d id =>
    obtain ⟨severing, none⟩ := still_beginSevering (s.retain (.dispatcher d)) d id [.dispatcher d]
      fun b => .answer (.flag b)
    exact (idle_push ((held d).trans severing) none).deals
  | move d id context =>
    refine Idle.deals (idle_replyChange fun x hx => ?_)
    obtain ⟨r, -, hx⟩ := bind_eq_ok_iff.1 hx
    cases hx
    rfl
  | setName d id name =>
    refine Idle.deals (idle_replyChange fun x hx => ?_)
    unfold Dispatcher.setName at hx
    split at hx
    · cases hx
    · cases hx
      rfl
  | block d id blocked =>
    unfold perform
    dsimp only
    split
    · exact answered still _
    · rename_i hx
      unfold Dispatcher.block at hx
      split at hx
      · cases hx
      · cases hx
        refine answered ?_ _
        exact Shared.still_setDispatcher rfl
  | connect d sender signal receiver slot type =>
    exact (idle_replyConnected fun _ => Dispatcher.connect_eq_ok).deals
  | connectByIndex d sender signal receiver slot type =>
    exact (idle_replyConnected fun _ => Dispatcher.connectByIndex_eq_ok).deals
  | connectCallback d sender signal callback type =>
    unfold perform
    dsimp only
    split
    · exact (idle_push still rfl).deals
    · rename_i hx
      obtain ⟨c, -, e⟩ := Dispatcher.connectCallback_eq_ok hx
      obtain rfl := congrArg Prod.snd e
      exact answered (Shared.still_setDispatcher (Dispatcher.queues_link _ c)) _
  | disconnect d id =>
    have cut : (s.retain (.dispatcher d)).Still ((s.retain (.dispatcher d)).setDispatcher d
        ((s.dispatcher d).disconnect id).2) := by
      refine Shared.still_setDispatcher ?_
      rw [Dispatcher.queues_disconnect, Shared.dispatcher_retain]
    refine Idle.deals (idle_withFrames ((held d).trans cut) ?_)
    rw [stakes_afterCut]
    rfl
  | disconnectAll d sender => exact (idle_push (held d) rfl).deals
  | emit d sender signal args => exact (idle_beginEmitting s th d args _ _).deals
  | emitByIndex d sender signal args => exact (idle_beginEmitting s th d args _ _).deals
  | emitOwn i signal args =>
    unfold perform
    exact (idle_emitOwn s th i args _).deals
  | emitOwnByIndex i signal args =>
    unfold perform
    exact (idle_emitOwn s th i args _).deals
  | call d id method type args =>
    unfold perform asked
    dsimp only
    cases (s.dispatcher d).beginCall id method type args th.current with
    | error => exact answered still _
    | ok route =>
      have opened := opened_of_permits permitted rfl nofun
      exact deals_beginCalling (Shared.lt_of_handles opened) th args route
  | read d id name =>
    unfold perform
    exact (idle_beginAccess s th d id name _ _ _).deals
  | write d id name value =>
    unfold perform
    exact (idle_beginAccess s th d id name _ _ _).deals
  | reset d id name =>
    unfold perform
    exact (idle_beginAccess s th d id name _ _ _).deals
  | quit d context =>
    have opened := opened_of_permits permitted rfl nofun
    have posted : Deals s th [(d, .posted context .quit)] (s.setDispatcher d
        { s.dispatcher d with queues := (s.dispatcher d).queues.post context .quit }, th) :=
      .set rfl fun _ => .post (Shared.lt_of_handles opened) context .quit
    exact posted.idle (idle_reply (.refl _) _)
  | serve d context mode =>
    have opened := opened_of_permits permitted rfl nofun
    exact deals_serve (Shared.lt_of_handles opened) th context mode
  | enter context => exact Idle.deals ⟨still, rfl, rfl⟩
  | newLoop d context => exact deals_newLoop (opened_of_permits permitted rfl nofun) th context
  | useLoop l mode => exact deals_useLoop s th l mode
  | dropLoop l => exact deals_dropLoop known.holders l
  | newQuitHandle l =>
    unfold perform
    dsimp only
    split
    · exact (Idle.refl s th).deals
    · rename_i o found
      have mine := mem_stakes_of_loop? found s
      exact (deals_addQuitHandle th (known.holders _ mine) mine).idle (idle_reply (.refl _) _)
  | copyQuitHandle h =>
    unfold perform
    dsimp only
    split
    · exact (Idle.refl s th).deals
    · rename_i x found
      have mine := mem_stakes_of_quitHandle? found th
      exact (deals_addQuitHandle th (known.holders _ mine) mine).idle (idle_reply (.refl _) _)
  | quitBy h =>
    unfold perform asked
    dsimp only
    cases found : s.quitHandle? h with
    | none => exact (Idle.refl s th).deals
    | some x =>
      have mine := mem_stakes_of_quitHandle? found th
      have pushed : Deals s th [(x.dispatcher, .posted x.context .quit)]
          (s.modifyQueues x.dispatcher (·.push x.queue .quit), th) :=
        .set rfl fun _ => .push (known.holders _ mine) (Multiset.mem_add.2 (.inl mine)) .quit
      exact pushed.idle (idle_reply (.refl _) _)
  | dropQuitHandle h =>
    unfold perform
    dsimp only
    split
    · exact (Idle.refl s th).deals
    · rename_i x found
      have mine := mem_stakes_of_quitHandle? found th
      exact (deals_dropQuitHandle th (known.holders _ mine) found).idle (idle_reply (.refl _) _)

/-- What client code posts with an action, if it runs and can ask for it. -/
def acted (s : Shared) (th : Thread) (a : Action) : List Event :=
  match th.frames with
  | .body _ :: _ => if permits s a then asked s th a else []
  | _ => []

theorem deals_act (known : Known s th) (a : Action) : Deals s th (acted s th a) (act s th a) := by
  unfold act
  split
  · rename_i hf
    split
    · rename_i permitted
      have asks : acted s th a = asked s { th with answer := none } a := by
        rw [acted, hf]
        exact if_pos permitted
      have taken : Idle s th (s, { th with answer := none }) := ⟨.refl s, rfl, rfl⟩
      rw [asks]
      exact taken.then (deals_perform a permitted ⟨known.emitting, known.holders⟩)
    · rename_i refused
      have silent : acted s th a = [] := by
        rw [acted, hf]
        exact if_neg refused
      rw [silent]
      exact (Idle.refl s th).deals
  · rename_i other
    have silent : acted s th a = [] := by
      unfold acted
      split
      · rename_i hf
        exact absurd hf (other _ _)
      · rfl
    rw [silent]
    exact (Idle.refl s th).deals

/-! ## Who takes -/

theorem not_taken_posts {c : Context} {item : QueueItem Invocation} {args : List Variant}
    {route : Route} {d' : DispatcherId} : (d, .taken c item) ∉ posts s d' args route := by
  cases route <;> simp [posts]

/-- Client code takes nothing itself. -/
theorem not_taken_acted {c : Context} {item : QueueItem Invocation} {a : Action} :
    (d, .taken c item) ∉ acted s th a := by
  have posted : (d, .taken c item) ∉ asked s th a := by
    unfold asked
    split
    · split
      · exact List.not_mem_nil
      · exact not_taken_posts
    · simp
    · split <;> simp
    · exact List.not_mem_nil
  unfold acted
  split
  · split
    · exact posted
    · exact List.not_mem_nil
  · exact List.not_mem_nil

/-- Only a loop takes from its queue. -/
theorem serving_of_taken {c : Context} {item : QueueItem Invocation}
    (h : (d, .taken c item) ∈ traffic s th) :
    ∃ v rest, th.frames = .serving v :: rest ∧ v.dispatcher = d := by
  unfold traffic at h
  split at h
  · split at h
    · cases h
    · exact absurd h not_taken_posts
  · rename_i v rest hf
    split at h
    · cases h
    · cases List.mem_singleton.1 h
      exact ⟨v, rest, hf, rfl⟩
  · cases h

/-- A loop takes a call from the queue of its context and goes on to execute it. -/
inductive Takes (s : Shared) (th : Thread) (i : Invocation) :
    DispatcherId → Context → Shared × Thread → Prop
  | intro {v : Serving} {below : List Frame} {queues : Queues Invocation} (now : Nat)
      (serves : th.frames = .serving v :: below)
      (pop : (s.dispatcher v.dispatcher).queues.pop? v.loop.queue = some (.work i, queues)) :
      Takes s th i v.dispatcher v.loop.context
        (execute { s.setDispatcher v.dispatcher { s.dispatcher v.dispatcher with queues } with now } th
          v.dispatcher i (.serving { v with executed := v.executed + 1 } :: below))

theorem takes_of_taken {c : Context} {i : Invocation} (h : (d, .taken c (.work i)) ∈ traffic s th)
    (now : Nat) : ∃ p, advance { s with now } th = some p ∧ Takes s th i d c p := by
  obtain ⟨v, below, hf, rfl⟩ := serving_of_taken h
  cases pop : (s.dispatcher v.dispatcher).queues.pop? v.loop.queue with
  | none =>
    rw [traffic_serving_none hf pop] at h
    cases h
  | some popped =>
    obtain ⟨item, queues⟩ := popped
    rw [traffic_serving hf pop] at h
    cases List.mem_singleton.1 h
    have pop' : (({ s with now } : Shared).dispatcher v.dispatcher).queues.pop? v.loop.queue =
        some (.work i, queues) := pop
    refine ⟨_, ?_, .intro now hf pop⟩
    simp only [advance, hf, serveNext, pop']
    rfl

end Thread
end Reflection

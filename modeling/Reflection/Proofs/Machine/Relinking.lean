import Reflection.Machine
import Reflection.Proofs.Dispatcher.Relinking
/-!
# Deliveries do not ask for connections

Machines that differ only in the connections of their dispatchers take the same steps while deliveries
are made, waited for or taken from queues (`Machine.Relinked.move`). So a delivery that is under way
does not notice that its connection was cut.
-/

namespace Reflection

/-- The same dispatcher, perhaps with other connections. -/
structure Hosted.Relinked (h h' : Hosted) : Prop where
  dispatcher : h.dispatcher.Relinked h'.dispatcher
  handles : h'.handles = h.handles
  owned : h'.owned = h.owned

theorem Hosted.Relinked.refl (h : Hosted) : h.Relinked h :=
  ⟨.refl _, rfl, rfl⟩

/-- States that differ at most in the connections of their dispatchers. -/
inductive Shared.Relinked (s : Shared) : Shared → Prop
  | intro {dispatchers : List Hosted} (h : List.Forall₂ Hosted.Relinked s.dispatchers dispatchers) :
      Relinked s { s with dispatchers }

variable {s s' : Shared} {d : DispatcherId}

/-! ## Lists of dispatchers -/

theorem forall₂_modify {l l' : List Hosted} (h : List.Forall₂ Hosted.Relinked l l')
    {f f' : Hosted → Hosted} (hf : ∀ {x x'}, x.Relinked x' → (f x).Relinked (f' x')) (d : Nat) :
    List.Forall₂ Hosted.Relinked (l.modify d f) (l'.modify d f') := by
  induction h generalizing d with
  | nil =>
    rw [List.modify_nil, List.modify_nil]
    exact .nil
  | cons same rest ih =>
    cases d with
    | zero => exact .cons (hf same) rest
    | succ d => exact .cons same (ih d)

theorem relinked_getElem? {l l' : List Hosted} (h : List.Forall₂ Hosted.Relinked l l') (d : Nat) :
    Dispatcher.Relinked ((l[d]?.map Hosted.dispatcher).getD {})
      ((l'[d]?.map Hosted.dispatcher).getD {}) := by
  induction h generalizing d with
  | nil => exact Dispatcher.Relinked.refl _
  | cons same rest ih =>
    cases d with
    | zero => exact same.dispatcher
    | succ d => exact ih d

theorem relinked_modify {l : List Hosted} {d : Nat} {x : Dispatcher}
    (h : Dispatcher.Relinked ((l[d]?.map Hosted.dispatcher).getD {}) x) :
    List.Forall₂ Hosted.Relinked l (l.modify d fun y => { y with dispatcher := x }) := by
  induction l generalizing d with
  | nil =>
    rw [List.modify_nil]
    exact .nil
  | cons y l ih =>
    cases d with
    | zero => exact .cons ⟨h, rfl, rfl⟩ (List.forall₂_same.2 fun z _ => .refl z)
    | succ d => exact .cons (.refl y) (ih h)

namespace Shared
namespace Relinked

theorem dispatcher (h : s.Relinked s') (d : DispatcherId) :
    (s.dispatcher d).Relinked (s'.dispatcher d) := by
  cases h with
  | intro h => exact relinked_getElem? h d

/-! ## Changes -/

theorem setDispatcher (h : s.Relinked s') {x x' : Dispatcher} (hx : x.Relinked x')
    (d : DispatcherId) : (s.setDispatcher d x).Relinked (s'.setDispatcher d x') := by
  cases h with
  | intro h =>
    refine .intro (forall₂_modify h ?_ d)
    intro y y' same
    exact ⟨hx, same.handles, same.owned⟩

/-- Setting a dispatcher is not noticed if only its connections change. -/
theorem of_dispatcher {x : Dispatcher} (h : (s.dispatcher d).Relinked x) :
    s.Relinked (s.setDispatcher d x) :=
  .intro (relinked_modify h)

theorem retain (h : s.Relinked s') (held : Held) : (s.retain held).Relinked (s'.retain held) := by
  cases h with
  | intro h =>
    cases held with
    | dispatcher d =>
      refine .intro (forall₂_modify h ?_ d)
      intro y y' same
      exact ⟨same.dispatcher, congrArg (· + 1) same.handles, same.owned⟩
    | object i => exact .intro h
    | callback c => exact .intro h
    | completion k => exact .intro h

theorem retainAll (h : s.Relinked s') (held : List Held) :
    (s.retainAll held).Relinked (s'.retainAll held) := by
  induction held generalizing s s' with
  | nil => exact h
  | cons first held ih => exact ih (h.retain first)

theorem complete (h : s.Relinked s') (k : CompletionId) (c : Completion) :
    (s.complete k c).Relinked (s'.complete k c) := by
  cases h with
  | intro h => exact .intro h

theorem enqueue (h : s.Relinked s') (d : DispatcherId) (context : Context) (i : Invocation) :
    (s.enqueue d context i).Relinked (s'.enqueue d context i) :=
  (h.setDispatcher ((h.dispatcher d).enqueue context i) d).retainAll i.held

theorem enqueueWaiting (h : s.Relinked s') (d : DispatcherId) (context : Context)
    (target : Target) (args : List Variant) :
    (s'.enqueueWaiting d context target args).1 = (s.enqueueWaiting d context target args).1 ∧
      (s.enqueueWaiting d context target args).2.Relinked
        (s'.enqueueWaiting d context target args).2 := by
  have more : s.addCompletion.2.Relinked s'.addCompletion.2 := by
    cases h with
    | intro h => exact .intro h
  have same : s'.addCompletion.1 = s.addCompletion.1 := by
    cases h with
    | intro h => rfl
  unfold Shared.enqueueWaiting
  dsimp only
  rw [same]
  exact ⟨rfl, more.enqueue d context _⟩

/-! ## What deliveries ask for -/

theorem isAlive (h : s.Relinked s') (i : InstanceId) : s'.isAlive i = s.isAlive i := by
  cases h with
  | intro h => rfl

theorem completions (h : s.Relinked s') : s'.completions = s.completions := by
  cases h with
  | intro h => rfl

theorem now (h : s.Relinked s') : s'.now = s.now := by
  cases h with
  | intro h => rfl

theorem withNow (h : s.Relinked s') (now : Nat) :
    Relinked { s with now } { s' with now } := by
  cases h with
  | intro h => exact .intro h

theorem deadline (h : s.Relinked s') (d : DispatcherId) : s'.deadline d = s.deadline d := by
  have timeout := (h.dispatcher d).timeout
  cases h with
  | intro h => exact congrArg (·.map (s.now + ·)) timeout

theorem timeoutError (h : s.Relinked s') (d : DispatcherId) :
    s'.timeoutError d = s.timeoutError d := by
  rw [Shared.timeoutError, Shared.timeoutError, (h.dispatcher d).timeout]

/-- The same is called. -/
theorem callee (h : s.Relinked s') (d : DispatcherId) (target : Target) (args : List Variant) :
    s'.callee d target args = s.callee d target args := by
  unfold Shared.callee
  split
  · rfl
  · rename_i receiver index
    rcases (h.dispatcher d).active? receiver with ⟨hx, hy⟩ | ⟨r, r', hx, hy, bare⟩
    · rw [hx, hy]
    · have owner : r'.owner = r.owner := congrArg (·.owner) bare
      have metaClass : r'.metaClass = r.metaClass := congrArg (·.metaClass) bare
      rw [hx, hy]
      dsimp only
      rw [owner, metaClass, h.isAlive]

end Relinked
end Shared

/-! ## Steps -/

namespace Thread

/-- The outcomes of a step differ at most in connections. -/
def SameStep (a b : Shared × Thread) : Prop :=
  a.1.Relinked b.1 ∧ b.2 = a.2

variable {th : Thread}

/-- An emission or a call gets to know the outcome of what it waited for. -/
theorem sameStep_resume (h : s.Relinked s') (th : Thread) {reply : Reply}
    (hr : ∀ y, reply ≠ .yielded y) : SameStep (resume s th reply) (resume s' th reply) := by
  unfold resume
  split
  · exact ⟨h, rfl⟩
  · exact ⟨h, rfl⟩
  · exact ⟨h, rfl⟩
  · split
    · exact ⟨h, rfl⟩
    · exact ⟨h, rfl⟩
  · split
    · exact ⟨h, rfl⟩
    · rw [h.timeoutError]
      exact ⟨h, rfl⟩
  · exact ⟨h, rfl⟩
  · rw [h.timeoutError]
    exact ⟨h, rfl⟩
  · refine ⟨?_, rfl⟩
    dsimp only
    split
    · exact h
    · exact h
    · exact h.complete _ _
  · exact absurd rfl (hr _)
  · exact ⟨h, rfl⟩

/-- A delivery is made in the same way. -/
theorem sameStep_deliver (h : s.Relinked s') (th : Thread) (e : Emission) (id : ConnectionId)
    (c : Connection) (rest : List Frame) :
    SameStep (deliver s th e id c rest) (deliver s' th e id c rest) := by
  unfold deliver
  rw [(h.dispatcher e.dispatcher).routeOver]
  dsimp only
  split
  · exact ⟨h, rfl⟩
  · exact ⟨h, rfl⟩
  · exact ⟨h.enqueue _ _ _, rfl⟩
  · rename_i context target _
    obtain ⟨same, after⟩ := h.enqueueWaiting e.dispatcher context target e.args
    rw [same]
    exact ⟨after, rfl⟩
  · rw [h.callee]
    split
    · exact ⟨h, rfl⟩
    · exact ⟨h, rfl⟩
    · exact ⟨h.retainAll _, rfl⟩

/-- A call from a queue is made in the same way. -/
theorem sameStep_execute (h : s.Relinked s') (th : Thread) (d : DispatcherId) (i : Invocation)
    (rest : List Frame) : SameStep (execute s th d i rest) (execute s' th d i rest) := by
  unfold execute
  rw [h.callee]
  split
  · exact sameStep_resume h _ nofun
  · exact sameStep_resume h _ nofun
  · exact ⟨h.retainAll _, rfl⟩

theorem sameStep_stopServing (h : s.Relinked s') (th : Thread) (v : Serving) (exit : LoopExit)
    (rest : List Frame) : SameStep (stopServing s th v exit rest) (stopServing s' th v exit rest) := by
  unfold stopServing
  dsimp only
  rw [(h.dispatcher v.dispatcher).queues]
  exact ⟨h.setDispatcher ((h.dispatcher v.dispatcher).withQueues _) _, rfl⟩

theorem sameStep_serveNext (h : s.Relinked s') (th : Thread) (v : Serving) (rest : List Frame) :
    Option.Rel SameStep (serveNext s th v rest) (serveNext s' th v rest) := by
  unfold serveNext
  dsimp only
  rw [(h.dispatcher v.dispatcher).queues]
  split
  · split
    · exact .some (sameStep_stopServing h th v .empty rest)
    · exact .none
  · rename_i item queues _
    have after := h.setDispatcher ((h.dispatcher v.dispatcher).withQueues queues) v.dispatcher
    split
    · exact .some (sameStep_execute after th v.dispatcher _ _)
    · split
      · exact .some ⟨after, rfl⟩
      · exact .some (sameStep_stopServing after th v .quit rest)

/-- The next step of a thread makes a delivery, waits for one or takes a call from a queue. -/
def Delivers (th : Thread) : Prop :=
  match th.frames with
  | .emitting _ :: _ | .waiting _ _ :: _ | .serving _ :: _ => True
  | _ => False

/-- The next step does not depend on connections. -/
theorem sameStep_advance (h : s.Relinked s') (delivers : th.Delivers) :
    Option.Rel SameStep (th.advance s) (th.advance s') := by
  unfold Delivers at delivers
  unfold advance
  split at delivers
  · rename_i e rest hf
    rw [hf]
    dsimp only
    rw [h.deadline]
    split
    · exact .some (sameStep_deliver h th _ _ _ rest)
    · exact .some ⟨h, rfl⟩
    · exact .some ⟨h, rfl⟩
  · rename_i k deadline rest hf
    rw [hf]
    dsimp only
    rw [h.completions]
    split
    · exact .none
    · exact .some (sameStep_resume h _ nofun)
  · rename_i v rest hf
    rw [hf]
    exact sameStep_serveNext h th v rest
  · exact delivers.elim

/-- Giving up does not depend on connections. -/
theorem sameStep_expire (h : s.Relinked s') (delivers : th.Delivers) :
    SameStep (th.expire s) (th.expire s') := by
  have next := sameStep_advance h delivers
  unfold expire
  generalize th.advance s = a at next
  generalize th.advance s' = b at next
  cases next with
  | some same => exact same
  | none =>
    split
    · rename_i none
      cases none
    · exact sameStep_resume h _ nofun
    · exact sameStep_stopServing h th _ _ _
    · exact ⟨h, rfl⟩

end Thread

namespace Machine

/-- Machines that differ at most in the connections of their dispatchers. -/
structure Relinked (m w : Machine) : Prop where
  shared : m.shared.Relinked w.shared
  threads : w.threads = m.threads

/-- The next step of a thread makes a delivery, waits for one or takes a call from a queue. -/
def Delivers (m : Machine) (t : Nat) : Prop :=
  ∃ th, m.threads[t]? = some th ∧ th.Delivers

variable {m w : Machine} {t : Nat}

/-- A step of a thread that delivers does not depend on connections. -/
theorem Relinked.advance (h : m.Relinked w) (delivers : m.Delivers t) :
    (m.move (.advance t)).Relinked (w.move (.advance t)) := by
  obtain ⟨th, ht, delivers⟩ := delivers
  have same := Thread.sameStep_advance h.shared delivers
  simp only [move, advance?, h.threads, ht]
  generalize th.advance m.shared = a at same
  generalize th.advance w.shared = b at same
  cases same with
  | some same => exact ⟨same.1, by simp [same.2]⟩
  | none => exact h

/-- Neither does the end of its patience. -/
theorem Relinked.expire (h : m.Relinked w) (delivers : m.Delivers t) :
    (m.move (.expire t)).Relinked (w.move (.expire t)) := by
  obtain ⟨th, ht, delivers⟩ := delivers
  have found : w.threads[t]? = some th := h.threads ▸ ht
  have deadline : w.deadline? t = m.deadline? t := by
    rw [deadline?, deadline?, h.threads]
  unfold move Machine.expire
  dsimp only
  rw [deadline]
  split
  · exact h
  · rename_i time _
    have later : Shared.Relinked { m.shared with now := max m.shared.now time }
        { w.shared with now := max w.shared.now time } := by
      rw [h.shared.now]
      exact h.shared.withNow _
    have same := Thread.sameStep_expire later delivers
    simp only [onThread, ht, found]
    exact ⟨same.1, by rw [same.2, h.threads]⟩

/-- Making or cutting a connection makes machines that differ at most in connections. -/
theorem relinked_of_rewires {x : Dispatcher} (h : (m.shared.dispatcher d).Rewires x) :
    m.Relinked { m with shared := m.shared.setDispatcher d x } :=
  ⟨.of_dispatcher h.relinked, rfl⟩

end Machine

end Reflection

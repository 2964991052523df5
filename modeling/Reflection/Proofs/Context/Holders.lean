import Mathlib.Data.Multiset.Count
import Mathlib.Data.Multiset.MapFold
import Reflection.Context.Loop
/-!
# Queues stay with their contexts as long as they are held

Loops and quit handles hold the queue of the context that they are for. Queues and holders change
together in a few ways (`Queues.Step`): items are posted and taken, and holders come and go. A context
keeps its queue as long as there is a holder, so every holder holds the queue that its context has
(`Held.step`), and what waits for a context is what was posted and not yet taken
(`Run.waiting`).
-/

namespace Reflection

/-- A loop or quit handle, by the context that it is for and the queue that it holds. -/
abbrev Holder := Context × QueueId

/-- What happens to the items of a context. -/
inductive QueueEvent (α : Type) where
  | posted (c : Context) (item : QueueItem α)
  | taken (c : Context) (item : QueueItem α)

namespace QueueEvent

variable {α : Type}

/-- The item that is posted to a context. -/
def posted? (c : Context) : QueueEvent α → Option (QueueItem α)
  | .posted c' item => if c' = c then some item else none
  | .taken .. => none

/-- The item that is taken from the queue of a context. -/
def taken? (c : Context) : QueueEvent α → Option (QueueItem α)
  | .posted .. => none
  | .taken c' item => if c' = c then some item else none

/-- The items that are posted to a context, in this order. -/
def postedTo (c : Context) (es : List (QueueEvent α)) : List (QueueItem α) :=
  es.filterMap (·.posted? c)

/-- The items that are taken from the queue of a context, in this order. -/
def takenFrom (c : Context) (es : List (QueueEvent α)) : List (QueueItem α) :=
  es.filterMap (·.taken? c)

variable {c : Context} {es es' : List (QueueEvent α)}

@[simp] theorem postedTo_nil : postedTo c ([] : List (QueueEvent α)) = [] := rfl

@[simp] theorem takenFrom_nil : takenFrom c ([] : List (QueueEvent α)) = [] := rfl

@[simp] theorem postedTo_append : postedTo c (es ++ es') = postedTo c es ++ postedTo c es' :=
  List.filterMap_append

@[simp] theorem takenFrom_append : takenFrom c (es ++ es') = takenFrom c es ++ takenFrom c es' :=
  List.filterMap_append

@[simp] theorem postedTo_posted (c' : Context) (item : QueueItem α) :
    postedTo c [.posted c' item] = if c' = c then [item] else [] := by
  by_cases e : c' = c <;> simp [postedTo, posted?, e]

@[simp] theorem postedTo_taken (c' : Context) (item : QueueItem α) :
    postedTo c [.taken c' item] = [] := rfl

@[simp] theorem takenFrom_posted (c' : Context) (item : QueueItem α) :
    takenFrom c [.posted c' item] = [] := rfl

@[simp] theorem takenFrom_taken (c' : Context) (item : QueueItem α) :
    takenFrom c [.taken c' item] = if c' = c then [item] else [] := by
  by_cases e : c' = c <;> simp [takenFrom, taken?, e]

end QueueEvent

namespace Queues

/-! ## Steps -/

/-- Queues and those who hold them. -/
abbrev World (α : Type) := Queues α × Multiset Holder

/-- What can happen to queues and their holders. -/
inductive Step {α : Type} : World α → List (QueueEvent α) → World α → Prop
  | post (qs : Queues α) (H : Multiset Holder) (c : Context) (item : QueueItem α) :
      Step (qs, H) [.posted c item] (qs.post c item, H)
  /-- A quit handle posts to the queue that it holds. -/
  | push {qs : Queues α} {H : Multiset Holder} {c : Context} {q : QueueId} (held : (c, q) ∈ H)
      (item : QueueItem α) : Step (qs, H) [.posted c item] (qs.push q item, H)
  | take {qs qs' : Queues α} {H : Multiset Holder} {c : Context} {q : QueueId} {item : QueueItem α}
      (held : (c, q) ∈ H) (pop : qs.pop? q = some (item, qs')) :
      Step (qs, H) [.taken c item] (qs', H)
  /-- A loop is made. -/
  | start (qs : Queues α) (H : Multiset Holder) (c : Context) :
      Step (qs, H) [] ((qs.obtain c).2.hold (qs.obtain c).1, (c, (qs.obtain c).1) ::ₘ H)
  /-- A further holder gets the queue from one that has it. -/
  | hold {qs : Queues α} {H : Multiset Holder} {c : Context} {q : QueueId} (held : (c, q) ∈ H) :
      Step (qs, H) [] (qs.hold q, (c, q) ::ₘ H)
  | letGo (qs : Queues α) (H : Multiset Holder) (c : Context) (q : QueueId) :
      Step (qs, (c, q) ::ₘ H) [] (qs.letGo q, H)
  /-- A loop ends. -/
  | stop (qs : Queues α) (H : Multiset Holder) (c : Context) (q : QueueId) :
      Step (qs, (c, q) ::ₘ H) [] (qs.release c q, H)

/-- Steps one after the other, with all that happens to items. -/
inductive Run {α : Type} : World α → List (QueueEvent α) → World α → Prop
  | refl (w : World α) : Run w [] w
  | tail {w w' w'' : World α} {es es' : List (QueueEvent α)} (run : Run w es w')
      (step : Step w' es' w'') : Run w (es ++ es') w''

variable {α : Type} {qs : Queues α} {c c' : Context} {q q' : QueueId} {H : Multiset Holder}

/-! ## Single queues -/

theorem users_modify_of_eq {f : Queue α → Queue α} (hf : ∀ x, (f x).users = x.users) :
    ((qs.modify q f).queue q').users = (qs.queue q').users := by
  by_cases e : q = q'
  · subst e
    rcases Nat.lt_or_ge q qs.all.length with lt | ge
    · rw [queue_modify_self lt, hf]
    · simp [queue, modify, ge]
  · rw [queue_modify_of_ne qs e]

/-- A queue that is made now is empty and held by no one, as any was taken to be before. -/
theorem queue_obtain (qs : Queues α) (c : Context) (q : QueueId) :
    (qs.obtain c).2.queue q = qs.queue q := by
  unfold obtain
  split
  · rfl
  · rcases Nat.lt_trichotomy q qs.all.length with lt | rfl | gt
    · simp [queue, List.getElem?_append_left lt]
    · simp [queue]
    · have old : qs.all[q]? = none := List.getElem?_eq_none (Nat.le_of_lt gt)
      have new : (qs.all ++ [({} : Queue α)])[q]? = none := List.getElem?_eq_none (by simp; omega)
      simp [queue, old, new]

theorem users_post (item : QueueItem α) :
    ((qs.post c item).queue q).users = (qs.queue q).users := by
  rw [← queue_obtain qs c q]
  exact users_modify_of_eq fun _ => rfl

/-- A context that has a queue keeps it when another gets one. -/
theorem of?_obtain_of_some (h : qs.of? c' = some q) : (qs.obtain c).2.of? c' = some q := by
  unfold obtain
  split
  · exact h
  · show (qs.owners ++ _).lookup c' = some q
    rw [List.lookup_append, show qs.owners.lookup c' = some q from h]
    rfl

/-- What is appended to the queue of a context waits there after all that waits already. -/
theorem waiting_push (h : qs.of? c = some q) (item : QueueItem α) (c' : Context) :
    (qs.push q item).waiting c' = if c' = c then qs.waiting c ++ [item] else qs.waiting c' := by
  unfold push
  split
  · rename_i e
    subst e
    rw [waiting_of_of? h, waiting_of_of? ((of?_modify _ _ _ _).trans h), queue_modify_self (lt_of_of? h)]
  · rename_i ne
    exact waiting_modify_of_ne h ne _

/-! ## Holders -/

/-- Each holder holds the queue that its context has, and no queue has more holders than users. -/
structure Held (w : World α) : Prop where
  own : ∀ c q, (c, q) ∈ w.2 → w.1.of? c = some q
  counted : ∀ q, (w.2.map Prod.snd).count q ≤ (w.1.queue q).users

theorem held_empty : Held ((empty, 0) : World α) :=
  ⟨fun _ _ h => absurd h (Multiset.notMem_zero _), fun _ => Nat.zero_le _⟩

theorem Held.lt (h : Held (qs, H)) (held : (c, q) ∈ H) : q < qs.all.length :=
  lt_of_of? (h.own c q held)

theorem count_holders_cons (c : Context) (q q' : QueueId) (H : Multiset Holder) :
    (((c, q) ::ₘ H).map Prod.snd).count q' = (H.map Prod.snd).count q' + if q' = q then 1 else 0 := by
  rw [Multiset.map_cons, Multiset.count_cons]

/-- A further holder of a queue that its context has is counted. -/
theorem Held.hold (h : Held (qs, H)) (own : qs.of? c = some q) :
    Held (qs.hold q, (c, q) ::ₘ H) := by
  refine ⟨fun c' q' held => ?_, fun q' => ?_⟩
  · rcases Multiset.mem_cons.1 held with e | held
    · cases e
      exact own
    · exact h.own c' q' held
  · have old := h.counted q'
    rw [count_holders_cons]
    show _ ≤ ((qs.modify q _).queue q').users
    split
    · rename_i e
      subst e
      rw [queue_modify_self (lt_of_of? own)]
      exact Nat.succ_le_succ old
    · rename_i ne
      rwa [queue_modify_of_ne qs (Ne.symm ne)]

theorem Held.letGo (h : Held (qs, (c, q) ::ₘ H)) : Held (qs.letGo q, H) := by
  refine ⟨fun c' q' held => h.own c' q' (Multiset.mem_cons_of_mem held), fun q' => ?_⟩
  have old := h.counted q'
  rw [count_holders_cons] at old
  show _ ≤ ((qs.modify q _).queue q').users
  split at old
  · rename_i e
    subst e
    rw [queue_modify_self (h.lt (Multiset.mem_cons_self _ _))]
    exact Nat.le_sub_one_of_lt old
  · rename_i ne
    rwa [queue_modify_of_ne qs (Ne.symm ne)]

/-- When a loop ends, no one else holds a queue that its context gives up. -/
theorem Held.stop (h : Held (qs, (c, q) ::ₘ H)) : Held (qs.release c q, H) := by
  dsimp only [release]
  split
  · rename_i gives
    have old := h.counted q
    rw [count_holders_cons, if_pos rfl, gives.2.1] at old
    have none : (H.map Prod.snd).count q = 0 := Nat.le_zero.1 (Nat.le_of_succ_le_succ old)
    refine ⟨fun c' q' held => ?_, fun q' => (h.letGo).counted q'⟩
    have own := h.own c' q' (Multiset.mem_cons_of_mem held)
    have other : c' ≠ c := by
      rintro rfl
      have same : q' = q := Option.some.inj (own.symm.trans gives.1)
      exact Multiset.count_eq_zero.1 none (same ▸ Multiset.mem_map.2 ⟨_, held, rfl⟩)
    rw [of?_giveUp, if_neg other]
    exact own
  · exact h.letGo

theorem Held.step {w w' : World α} {es : List (QueueEvent α)} (h : Held w) (step : Step w es w') :
    Held w' := by
  cases step with
  | post qs H c item =>
    exact ⟨fun c' q held => of?_obtain_of_some (h.own c' q held),
      fun q => (h.counted q).trans_eq (users_post item).symm⟩
  | push held item =>
    let pushed (x : Queue α) := { x with items := x.items ++ [item] }
    exact ⟨h.own, fun q => (h.counted q).trans_eq (users_modify_of_eq (f := pushed) fun _ => rfl).symm⟩
  | @take qs qs' H c q item held pop =>
    unfold pop? at pop
    split at pop
    · cases pop
    · rename_i rest _
      cases pop
      let left (x : Queue α) := { x with items := rest }
      exact ⟨h.own, fun q => (h.counted q).trans_eq (users_modify_of_eq (f := left) fun _ => rfl).symm⟩
  | start qs H c =>
    have obtained : Held ((qs.obtain c).2, H) :=
      ⟨fun c' q held => of?_obtain_of_some (h.own c' q held), fun q => queue_obtain qs c q ▸ h.counted q⟩
    exact obtained.hold (of?_obtain qs c)
  | hold held => exact h.hold (h.own _ _ held)
  | letGo => exact h.letGo
  | stop => exact h.stop

/-- What waited before and what is posted is what is taken and what waits after. -/
theorem Step.waiting {w w' : World α} {es : List (QueueEvent α)} (step : Step w es w') (h : Held w)
    (c : Context) :
    w.1.waiting c ++ QueueEvent.postedTo c es = QueueEvent.takenFrom c es ++ w'.1.waiting c := by
  cases step with
  | post qs H c' item =>
    rw [QueueEvent.postedTo_posted, QueueEvent.takenFrom_posted, List.nil_append]
    dsimp only
    rw [waiting_post]
    by_cases e : c' = c
    · rw [if_pos e, if_pos e.symm, e]
    · rw [if_neg e, if_neg (Ne.symm e), List.append_nil]
  | @push qs H c' q held item =>
    rw [QueueEvent.postedTo_posted, QueueEvent.takenFrom_posted, List.nil_append]
    dsimp only
    rw [waiting_push (h.own c' q held)]
    by_cases e : c' = c
    · rw [if_pos e, if_pos e.symm, e]
    · rw [if_neg e, if_neg (Ne.symm e), List.append_nil]
  | @take qs qs' H c' q item held pop =>
    obtain ⟨first, others⟩ := waiting_pop (h.own c' q held) pop
    rw [QueueEvent.postedTo_taken, QueueEvent.takenFrom_taken, List.append_nil]
    by_cases e : c' = c
    · rw [if_pos e, ← e]
      exact first
    · rw [if_neg e]
      exact (others c (Ne.symm e)).symm
  | start => simp
  | hold | letGo | stop => simp

theorem Run.held {w w' : World α} {es : List (QueueEvent α)} (run : Run w es w') (h : Held w) :
    Held w' := by
  induction run with
  | refl => exact h
  | tail _ step ih => exact ih.step step

theorem Run.trans {w w' w'' : World α} {es es' : List (QueueEvent α)} (run : Run w es w')
    (run' : Run w' es' w'') : Run w (es ++ es') w'' := by
  induction run' with
  | refl =>
    rw [List.append_nil]
    exact run
  | tail _ step ih =>
    rw [← List.append_assoc]
    exact ih.tail step

theorem Run.single {w w' : World α} {es : List (QueueEvent α)} (step : Step w es w') : Run w es w' :=
  (Run.refl w).tail step

/-- Nothing is lost, and what is taken is taken in the order in which it was posted. -/
theorem Run.waiting {w w' : World α} {es : List (QueueEvent α)} (run : Run w es w') (h : Held w)
    (c : Context) :
    w.1.waiting c ++ QueueEvent.postedTo c es = QueueEvent.takenFrom c es ++ w'.1.waiting c := by
  induction run with
  | refl => simp
  | @tail w' w'' es es' run step ih =>
    calc w.1.waiting c ++ QueueEvent.postedTo c (es ++ es')
        = (w.1.waiting c ++ QueueEvent.postedTo c es) ++ QueueEvent.postedTo c es' := by simp
      _ = QueueEvent.takenFrom c es ++ (w'.1.waiting c ++ QueueEvent.postedTo c es') := by
          rw [ih, List.append_assoc]
      _ = QueueEvent.takenFrom c es ++ (QueueEvent.takenFrom c es' ++ w''.1.waiting c) := by
          rw [step.waiting (run.held h) c]
      _ = QueueEvent.takenFrom c (es ++ es') ++ w''.1.waiting c := by simp

end Queues
end Reflection

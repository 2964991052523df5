import Mathlib.Data.Multiset.Bind
import Reflection.Context.Queue
/-!
# What waits in a queue

Loops hold on to queues by number, also when the context gives its queue up. So what waits is looked
at queue by queue here, whether or not the queue still belongs to a context: each operation leaves
what waits where it is, but for the item that it is about.
-/

namespace Reflection

/-- The call that waits, if it is no quit request. -/
def QueueItem.work? {α : Type} : QueueItem α → Option α
  | .work a => some a
  | .quit => none

/-- The calls that wait in a queue. -/
def Queue.works {α : Type} (x : Queue α) : Multiset α :=
  (x.items.filterMap (·.work?) : List α)

namespace Queues

variable {α : Type}

/-- Changing a queue changes only what waits there. -/
theorem mem_queue_modify {qs : Queues α} {q q' : QueueId} {f : Queue α → Queue α}
    {item : QueueItem α} (h : item ∈ ((qs.modify q f).queue q').items) :
    item ∈ (qs.queue q').items ∨ (q' = q ∧ item ∈ (f (qs.queue q)).items) := by
  by_cases e : q = q'
  · subst e
    by_cases lt : q < qs.all.length
    · rw [queue_modify_self lt] at h
      exact .inr ⟨rfl, h⟩
    · simp only [queue, modify, List.getElem?_modify_eq] at h
      rw [List.getElem?_eq_none (Nat.le_of_not_lt lt)] at h
      cases h
  · rw [queue_modify_of_ne qs e] at h
    exact .inl h

/-- A queue made for a context is empty. -/
theorem mem_queue_obtain {qs : Queues α} {c : Context} {q : QueueId} {item : QueueItem α}
    (h : item ∈ ((qs.obtain c).2.queue q).items) : item ∈ (qs.queue q).items := by
  unfold obtain at h
  split at h
  · exact h
  · simp only [queue] at h ⊢
    rcases Nat.lt_trichotomy q qs.all.length with lt | rfl | gt
    · rwa [List.getElem?_append_left lt] at h
    · rw [List.getElem?_concat_length] at h
      cases h
    · rw [List.getElem?_eq_none (by rw [List.length_append]; exact gt)] at h
      cases h

theorem mem_queue_push {qs : Queues α} {q q' : QueueId} {item item' : QueueItem α}
    (h : item' ∈ ((qs.push q item).queue q').items) : item' = item ∨ item' ∈ (qs.queue q').items := by
  rcases mem_queue_modify h with old | ⟨rfl, new⟩
  · exact .inr old
  · rcases List.mem_append.1 new with old | new
    · exact .inr old
    · exact .inl (List.mem_singleton.1 new)

theorem mem_queue_post {qs : Queues α} {c : Context} {q : QueueId} {item item' : QueueItem α}
    (h : item' ∈ ((qs.post c item).queue q).items) : item' = item ∨ item' ∈ (qs.queue q).items :=
  (mem_queue_push h).imp_right mem_queue_obtain

theorem mem_queue_hold {qs : Queues α} {q q' : QueueId} {item : QueueItem α}
    (h : item ∈ ((qs.hold q).queue q').items) : item ∈ (qs.queue q').items := by
  rcases mem_queue_modify h with old | ⟨rfl, new⟩
  · exact old
  · exact new

theorem mem_queue_letGo {qs : Queues α} {q q' : QueueId} {item : QueueItem α}
    (h : item ∈ ((qs.letGo q).queue q').items) : item ∈ (qs.queue q').items := by
  rcases mem_queue_modify h with old | ⟨rfl, new⟩
  · exact old
  · exact new

theorem mem_queue_release {qs : Queues α} {c : Context} {q q' : QueueId} {item : QueueItem α}
    (h : item ∈ ((qs.release c q).queue q').items) : item ∈ (qs.queue q').items := by
  dsimp only [release] at h
  split at h <;> exact mem_queue_letGo h

/-- What is taken from a queue waited there, and so did all that waits now. -/
theorem mem_queue_pop {qs qs' : Queues α} {q : QueueId} {item : QueueItem α}
    (h : qs.pop? q = some (item, qs')) :
    item ∈ (qs.queue q).items ∧
      ∀ q' other, other ∈ (qs'.queue q').items → other ∈ (qs.queue q').items := by
  unfold pop? at h
  split at h
  · cases h
  · rename_i first rest hq
    cases h
    refine ⟨hq ▸ List.mem_cons_self, fun q' other ho => ?_⟩
    rcases mem_queue_modify ho with old | ⟨rfl, new⟩
    · exact old
    · exact hq ▸ List.mem_cons_of_mem _ new

/-- The work in all queues waits in some queue. -/
theorem mem_queue_of_mem_allWork {qs : Queues α} {a : α} (h : a ∈ qs.allWork) :
    ∃ q, .work a ∈ (qs.queue q).items := by
  obtain ⟨⟨c, q⟩, -, h⟩ := List.mem_flatMap.1 h
  obtain ⟨item, hi, e⟩ := List.mem_filterMap.1 h
  cases item with
  | work b =>
    cases e
    exact ⟨q, hi⟩
  | quit => cases e

/-! ## All queues -/

/-- The calls that wait in all queues, whether or not they still belong to contexts. -/
def works (qs : Queues α) : Multiset α :=
  (qs.all : Multiset (Queue α)).bind (·.works)

variable {qs qs' : Queues α} {q : QueueId} {a : α}

theorem mem_works : a ∈ qs.works ↔ ∃ q, .work a ∈ (qs.queue q).items := by
  have here : ∀ x : Queue α, a ∈ x.works ↔ .work a ∈ x.items := by
    intro x
    rw [Queue.works, Multiset.mem_coe, List.mem_filterMap]
    constructor
    · rintro ⟨item, hi, e⟩
      cases item with
      | work b =>
        cases e
        exact hi
      | quit => cases e
    · exact fun hi => ⟨_, hi, rfl⟩
  simp only [works, Multiset.mem_bind, Multiset.mem_coe, here]
  constructor
  · rintro ⟨x, hx, hi⟩
    obtain ⟨q, hq⟩ := List.mem_iff_getElem?.1 hx
    refine ⟨q, ?_⟩
    rw [queue, hq]
    exact hi
  · rintro ⟨q, hi⟩
    rw [queue] at hi
    cases hq : qs.all[q]? with
    | none =>
      rw [hq] at hi
      cases hi
    | some x =>
      rw [hq] at hi
      exact ⟨x, List.mem_of_getElem? hq, hi⟩

theorem works_modify (lt : q < qs.all.length) (f : Queue α → Queue α) :
    (qs.modify q f).works + (qs.queue q).works = qs.works + (f (qs.queue q)).works := by
  have found : qs.all[q]? = some (qs.queue q) := by simp [queue, lt]
  show (qs.all.modify q f : Multiset (Queue α)).bind _ + _ = (qs.all : Multiset (Queue α)).bind _ + _
  clear lt
  generalize qs.all = l, qs.queue q = x at found
  induction l generalizing q with
  | nil => cases found
  | cons y l ih =>
    cases q with
    | zero =>
      cases found
      simp only [List.modify_zero_cons, ← Multiset.cons_coe, Multiset.cons_bind]
      ac_rfl
    | succ q =>
      have rest := ih (List.getElem?_cons_succ.symm.trans found)
      simp only [List.modify_succ_cons, ← Multiset.cons_coe, Multiset.cons_bind, add_assoc, rest]

theorem works_modify_of_eq {f : Queue α → Queue α} (same : ∀ x, (f x).works = x.works) :
    (qs.modify q f).works = qs.works := by
  rcases Nat.lt_or_ge q qs.all.length with lt | ge
  · have change := works_modify lt f
    rwa [same, Multiset.add_left_inj] at change
  · show (qs.all.modify q f : Multiset (Queue α)).bind _ = _
    rw [List.modify_eq_self ge]
    rfl

@[simp] theorem works_hold : (qs.hold q).works = qs.works :=
  works_modify_of_eq fun _ => rfl

@[simp] theorem works_letGo : (qs.letGo q).works = qs.works :=
  works_modify_of_eq fun _ => rfl

@[simp] theorem works_release (c : Context) : (qs.release c q).works = qs.works := by
  dsimp only [release]
  split <;> exact works_letGo

@[simp] theorem works_obtain (c : Context) : (qs.obtain c).2.works = qs.works := by
  unfold obtain
  split
  · rfl
  · show ((qs.all ++ [({} : Queue α)] : List (Queue α)) : Multiset (Queue α)).bind _ = _
    rw [← Multiset.coe_add, Multiset.add_bind]
    exact add_zero _

@[simp] theorem works_push_quit : (qs.push q .quit).works = qs.works := by
  refine works_modify_of_eq fun x => ?_
  simp [Queue.works, QueueItem.work?]

@[simp] theorem works_post_quit (c : Context) : (qs.post c .quit).works = qs.works :=
  works_push_quit.trans (works_obtain c)

theorem works_push (lt : q < qs.all.length) (a : α) : (qs.push q (.work a)).works = a ::ₘ qs.works := by
  have pushed : ∀ x : Queue α, ({ x with items := x.items ++ [.work a] } : Queue α).works =
      a ::ₘ x.works := by
    intro x
    rw [Queue.works, Queue.works, List.filterMap_append, Multiset.cons_coe]
    exact Multiset.coe_eq_coe.2 (List.perm_append_singleton a _)
  have change := works_modify lt fun x => { x with items := x.items ++ [.work a] }
  rwa [pushed, Multiset.add_cons, ← Multiset.cons_add, Multiset.add_left_inj] at change

theorem works_post (c : Context) (a : α) : (qs.post c (.work a)).works = a ::ₘ qs.works := by
  rw [post, works_push (lt_of_of? (of?_obtain qs c)), works_obtain]

/-- The work that is taken from a queue waited, and the rest waits now. -/
theorem works_pop {item : QueueItem α} (h : qs.pop? q = some (item, qs')) :
    qs.works = (item.work?.toList : Multiset α) + qs'.works := by
  unfold pop? at h
  split at h
  · cases h
  · rename_i rest hq
    cases h
    have lt : q < qs.all.length := by
      by_contra ge
      rw [queue, List.getElem?_eq_none (Nat.le_of_not_lt ge)] at hq
      cases hq
    have first : (qs.queue q).works = (item.work?.toList : Multiset α) + (rest.filterMap (·.work?) : List α) := by
      rw [Queue.works, hq, Multiset.coe_add]
      cases item <;> rfl
    have change := works_modify lt fun x => { x with items := rest }
    rw [first, ← add_assoc, Queue.works, Multiset.add_left_inj] at change
    rw [← change, add_comm]

end Queues
end Reflection

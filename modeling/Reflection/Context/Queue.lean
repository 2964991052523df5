import Reflection.Context
/-!
# Queues

Work for a context waits in the context's queue, first in, first out. A context gets a queue with
the first work or the first loop. Loops and quit handles hold on to the queue they were made with;
when the last loop ends and nothing waits, the context gives its queue up.

A queue is a list, to which one thread at a time puts something at the end or takes something from the
front. So it is assumed of the channel that carries the work between threads that it loses nothing,
doubles nothing and keeps the order in which things were put in.

`waiting` is the view of what waits for each context: `waiting_post` says that posting appends to it,
`waiting_pop` that a loop takes the first of it, and `waiting_release` that giving a queue up loses
nothing.
-/

namespace Reflection

/-- What waits in a queue. -/
inductive QueueItem (α : Type) where
  | work (value : α)
  /-- A request that the loop stop. -/
  | quit
deriving DecidableEq, Repr

/-- A queue. -/
structure Queue (α : Type) where
  /-- What waits, the first first. -/
  items : List (QueueItem α) := []
  /-- The number of loops and quit handles that hold the queue. -/
  users : Nat := 0
deriving DecidableEq, Repr

instance {α : Type} : Inhabited (Queue α) :=
  ⟨{}⟩

/-- The number of a queue. -/
abbrev QueueId := Nat

/-- All queues. No two contexts have the same one. -/
structure Queues (α : Type) where
  /-- The contexts that have a queue, in the order in which they got it. -/
  owners : List (Context × QueueId)
  /-- The queues that there are or were, by number. -/
  all : List (Queue α)
  lt_of_mem_owners : ∀ p ∈ owners, p.2 < all.length
  eq_of_mem_owners : ∀ c c' q, (c, q) ∈ owners → (c', q) ∈ owners → c = c'
deriving Repr

namespace Queues

variable {α : Type}

/-- No queues. -/
def empty : Queues α where
  owners := []
  all := []
  lt_of_mem_owners _ h := nomatch h
  eq_of_mem_owners _ _ _ h := nomatch h

instance : Inhabited (Queues α) :=
  ⟨empty⟩

/-! ## Views -/

/-- The queue with a number. -/
def queue (qs : Queues α) (q : QueueId) : Queue α :=
  qs.all[q]?.getD {}

/-- The number of the queue that a context has. -/
def of? (qs : Queues α) (c : Context) : Option QueueId :=
  qs.owners.lookup c

/-- What waits for a context, the first first. -/
def waiting (qs : Queues α) (c : Context) : List (QueueItem α) :=
  ((qs.of? c).map fun q => (qs.queue q).items).getD []

/-- How much waits for a context, quit requests included. -/
def pending (qs : Queues α) (c : Context) : Nat :=
  (qs.waiting c).length

/-- The work in all queues, in the order in which the contexts got them. -/
def allWork (qs : Queues α) : List α :=
  qs.owners.flatMap fun (_, q) => (qs.queue q).items.filterMap fun
    | .work a => some a
    | .quit => none

/-! ## Changes -/

/-- Changes one queue. -/
def modify (qs : Queues α) (q : QueueId) (f : Queue α → Queue α) : Queues α :=
  { qs with
    all := qs.all.modify q f
    lt_of_mem_owners := fun p hp => by
      rw [List.length_modify]
      exact qs.lt_of_mem_owners p hp }

/-- The queue of a context, made now if it has none. -/
def obtain (qs : Queues α) (c : Context) : QueueId × Queues α :=
  match qs.of? c with
  | some q => (q, qs)
  | none =>
    (qs.all.length,
      { owners := qs.owners ++ [(c, qs.all.length)]
        all := qs.all ++ [{}]
        lt_of_mem_owners := fun p hp => by
          rw [List.length_append]
          rcases List.mem_append.1 hp with hp | hp
          · exact Nat.lt_add_right _ (qs.lt_of_mem_owners p hp)
          · rw [List.mem_singleton.1 hp]
            exact Nat.lt_succ_self _
        eq_of_mem_owners := fun d d' q h h' => by
          simp only [List.mem_append, List.mem_singleton, Prod.mk.injEq] at h h'
          rcases h with h | ⟨rfl, rfl⟩ <;> rcases h' with h' | ⟨rfl, hq⟩
          · exact qs.eq_of_mem_owners d d' q h h'
          · exact absurd (qs.lt_of_mem_owners _ h) (hq ▸ Nat.lt_irrefl _)
          · exact absurd (qs.lt_of_mem_owners _ h') (Nat.lt_irrefl _)
          · rfl })

/-- Appends to a queue. -/
def push (qs : Queues α) (q : QueueId) (item : QueueItem α) : Queues α :=
  qs.modify q fun x => { x with items := x.items ++ [item] }

/-- Appends to the queue of a context. -/
def post (qs : Queues α) (c : Context) (item : QueueItem α) : Queues α :=
  (qs.obtain c).2.push (qs.obtain c).1 item

/-- Takes the first of a queue. -/
def pop? (qs : Queues α) (q : QueueId) : Option (QueueItem α × Queues α) :=
  match (qs.queue q).items with
  | [] => none
  | item :: rest => some (item, qs.modify q fun x => { x with items := rest })

/-- A further loop or handle holds a queue. -/
def hold (qs : Queues α) (q : QueueId) : Queues α :=
  qs.modify q fun x => { x with users := x.users + 1 }

/-- A loop or handle lets go of a queue. -/
def letGo (qs : Queues α) (q : QueueId) : Queues α :=
  qs.modify q fun x => { x with users := x.users - 1 }

/-- A context gives up its queue. -/
def giveUp (qs : Queues α) (c : Context) : Queues α :=
  { qs with
    owners := qs.owners.filter fun (owner, _) => owner ≠ c
    lt_of_mem_owners := fun p hp => qs.lt_of_mem_owners p (List.mem_filter.1 hp).1
    eq_of_mem_owners := fun d d' q h h' =>
      qs.eq_of_mem_owners d d' q (List.mem_filter.1 h).1 (List.mem_filter.1 h').1 }

/-- The loop of a context ends. The context gives the queue up if it is still its own, no one else
holds it and nothing waits in it. -/
def release (qs : Queues α) (c : Context) (q : QueueId) : Queues α :=
  let x := qs.queue q
  let qs := qs.letGo q
  if qs.of? c = some q ∧ x.users = 1 ∧ x.items.length = 0 then qs.giveUp c else qs

/-! ## What the changes do to the view -/

theorem mem_owners_of_of? {qs : Queues α} {c : Context} {q : QueueId} (h : qs.of? c = some q) :
    (c, q) ∈ qs.owners := by
  obtain ⟨before, after, h, _⟩ := List.lookup_eq_some_iff.1 h
  simp [h]

theorem lt_of_of? {qs : Queues α} {c : Context} {q : QueueId} (h : qs.of? c = some q) :
    q < qs.all.length :=
  qs.lt_of_mem_owners _ (mem_owners_of_of? h)

@[simp] theorem of?_modify (qs : Queues α) (q : QueueId) (f : Queue α → Queue α) (c : Context) :
    (qs.modify q f).of? c = qs.of? c := rfl

/-- A queue belongs to one context at most. -/
theorem of?_inj {qs : Queues α} {c c' : Context} {q : QueueId} (h : qs.of? c = some q)
    (h' : qs.of? c' = some q) : c = c' :=
  qs.eq_of_mem_owners c c' q (mem_owners_of_of? h) (mem_owners_of_of? h')

theorem waiting_of_of? {qs : Queues α} {c : Context} {q : QueueId} (h : qs.of? c = some q) :
    qs.waiting c = (qs.queue q).items := by
  simp [waiting, h]

theorem waiting_of_of?_none {qs : Queues α} {c : Context} (h : qs.of? c = none) :
    qs.waiting c = [] := by
  simp [waiting, h]

theorem queue_modify_self {qs : Queues α} {q : QueueId} (h : q < qs.all.length)
    (f : Queue α → Queue α) : (qs.modify q f).queue q = f (qs.queue q) := by
  simp only [queue, modify, List.getElem?_modify_eq, List.getElem?_eq_getElem h]
  rfl

theorem queue_modify_of_ne (qs : Queues α) {q q' : QueueId} (h : q ≠ q') (f : Queue α → Queue α) :
    (qs.modify q f).queue q' = qs.queue q' := by
  simp only [queue, modify, List.getElem?_modify_ne _ _ h]

/-- Changing the queue of one context leaves what waits for the others. -/
theorem waiting_modify_of_ne {qs : Queues α} {c c' : Context} {q : QueueId}
    (h : qs.of? c = some q) (ne : c' ≠ c) (f : Queue α → Queue α) :
    (qs.modify q f).waiting c' = qs.waiting c' := by
  cases h' : qs.of? c' with
  | none => rw [waiting_of_of?_none h', waiting_of_of?_none ((of?_modify qs q f _).trans h')]
  | some q' =>
    have : q ≠ q' := fun e => ne (of?_inj h' (e ▸ h))
    rw [waiting_of_of? h', waiting_of_of? ((of?_modify qs q f _).trans h'), queue_modify_of_ne qs this]

/-- A change that keeps what waits in a queue is not seen. -/
theorem waiting_modify_of_items {qs : Queues α} {q : QueueId} {f : Queue α → Queue α}
    (h : ∀ x, (f x).items = x.items) (c : Context) : (qs.modify q f).waiting c = qs.waiting c := by
  cases h' : qs.of? c with
  | none => rw [waiting_of_of?_none h', waiting_of_of?_none ((of?_modify qs q f _).trans h')]
  | some q' =>
    rw [waiting_of_of? h', waiting_of_of? ((of?_modify qs q f _).trans h')]
    by_cases e : q = q'
    · subst e
      rw [queue_modify_self (lt_of_of? h'), h]
    · rw [queue_modify_of_ne qs e]

@[simp] theorem waiting_empty (c : Context) : (empty : Queues α).waiting c = [] := rfl

@[simp] theorem waiting_hold (qs : Queues α) (q : QueueId) (c : Context) :
    (qs.hold q).waiting c = qs.waiting c :=
  waiting_modify_of_items (f := fun x => { x with users := x.users + 1 }) (fun _ => rfl) c

@[simp] theorem waiting_letGo (qs : Queues α) (q : QueueId) (c : Context) :
    (qs.letGo q).waiting c = qs.waiting c :=
  waiting_modify_of_items (f := fun x => { x with users := x.users - 1 }) (fun _ => rfl) c

/-- A context has its queue once it was asked for. -/
theorem of?_obtain (qs : Queues α) (c : Context) : (qs.obtain c).2.of? c = some (qs.obtain c).1 := by
  unfold obtain
  split
  · assumption
  · rename_i h
    simp [of?, List.lookup_append, show qs.owners.lookup c = none from h]

@[simp] theorem waiting_obtain (qs : Queues α) (c c' : Context) :
    (qs.obtain c).2.waiting c' = qs.waiting c' := by
  unfold obtain
  split
  · rfl
  · rename_i h
    cases h' : qs.of? c' with
    | some q =>
      have lt := lt_of_of? h'
      simp only [waiting, of?, queue] at h' ⊢
      simp [List.lookup_append, h', List.getElem?_append_left lt]
    | none =>
      rw [waiting_of_of?_none h']
      simp only [waiting, of?, queue] at h' ⊢
      simp only [List.lookup_append, h', Option.none_or, List.lookup_cons, List.lookup_nil]
      split
      · simp
      · rfl

/-- What is posted to a context waits there after all that waits already, and nowhere else. -/
theorem waiting_post (qs : Queues α) (c : Context) (item : QueueItem α) (c' : Context) :
    (qs.post c item).waiting c' = if c' = c then qs.waiting c ++ [item] else qs.waiting c' := by
  have h := of?_obtain qs c
  unfold post push
  split
  · rename_i e
    subst e
    rw [← waiting_obtain qs c' c', waiting_of_of? h, waiting_of_of? ((of?_modify _ _ _ _).trans h),
      queue_modify_self (lt_of_of? h)]
  · rename_i ne
    rw [waiting_modify_of_ne h ne, waiting_obtain]

/-- What a loop takes from the queue of a context is the first that waits there, and nothing else
changes. -/
theorem waiting_pop {qs qs' : Queues α} {c : Context} {q : QueueId} {item : QueueItem α}
    (h : qs.of? c = some q) (hp : qs.pop? q = some (item, qs')) :
    qs.waiting c = item :: qs'.waiting c ∧ ∀ c' ≠ c, qs'.waiting c' = qs.waiting c' := by
  unfold pop? at hp
  split at hp
  · cases hp
  · rename_i first rest hq
    cases hp
    refine ⟨?_, fun c' ne => waiting_modify_of_ne h ne _⟩
    rw [waiting_of_of? h, waiting_of_of? ((of?_modify _ _ _ _).trans h), queue_modify_self (lt_of_of? h), hq]

/-- Nothing can be taken only if nothing waits. -/
theorem pop?_eq_none_iff {qs : Queues α} {c : Context} {q : QueueId} (h : qs.of? c = some q) :
    qs.pop? q = none ↔ qs.waiting c = [] := by
  rw [waiting_of_of? h]
  unfold pop?
  split
  · simp_all
  · simp_all

/-- Only the context that gives its queue up has no queue then. -/
theorem of?_giveUp (qs : Queues α) (c c' : Context) :
    (qs.giveUp c).of? c' = if c' = c then none else qs.of? c' := by
  show (qs.owners.filter _).lookup c' = if c' = c then none else qs.owners.lookup c'
  induction qs.owners with
  | nil => simp
  | cons p owners ih =>
    obtain ⟨owner, q⟩ := p
    by_cases ho : owner = c
    · rw [List.filter_cons_of_neg (by simp [ho]), ih, ho]
      split
      · rfl
      · rename_i ne
        rw [List.lookup_cons, beq_false_of_ne ne]
    · rw [List.filter_cons_of_pos (by simp [ho]), List.lookup_cons, List.lookup_cons, ih]
      split
      · rename_i e
        rw [if_neg (fun h => ho (by rw [← h, eq_of_beq e]))]
      · rfl

/-- Whether or not a context gives its queue up when a loop ends, nothing is lost. -/
@[simp] theorem waiting_release (qs : Queues α) (c : Context) (q : QueueId) (c' : Context) :
    (qs.release c q).waiting c' = qs.waiting c' := by
  dsimp only [release]
  split
  · rename_i h
    by_cases e : c' = c
    · subst e
      rw [waiting_of_of? (show qs.of? c' = some q from h.1), List.eq_nil_of_length_eq_zero h.2.2]
      exact waiting_of_of?_none (by rw [of?_giveUp, if_pos rfl])
    · rw [← waiting_letGo qs q c']
      unfold waiting
      rw [of?_giveUp, if_neg e]
      rfl
  · exact waiting_letGo qs q c'

end Queues
end Reflection

import Mathlib.Data.Multiset.Bind
import Reflection.Proofs.Machine.Moves
/-!
# What every run keeps

A run begins with no threads and no dispatchers. The frames of all threads together form a multiset,
of which a step replaces a few. So a property of that multiset and of what threads share is kept by
every run if it is kept by each turn, whatever the other frames are, when a call is given up and when a
connection is made (`Kept.run`).
-/

namespace Reflection

namespace Frame

/-- The handles that some frames hold. -/
def allHandles (fs : Multiset Frame) : Multiset DispatcherId :=
  fs.bind fun f => (f.handles : Multiset DispatcherId)

/-- The destructions of a dispatcher's objects among some frames. -/
def severingsOf (d : DispatcherId) (f : Frame) : List (ObjectId × List ConnectionId) :=
  f.severings.filterMap fun (d', o, ids) => if d' = d then some (o, ids) else none

/-- The destructions of a dispatcher's objects that are under way. -/
def allSeverings (d : DispatcherId) (fs : Multiset Frame) : Multiset (ObjectId × List ConnectionId) :=
  fs.bind fun f => (f.severingsOf d : Multiset (ObjectId × List ConnectionId))

theorem allHandles_add (old : List Frame) (others : Multiset Frame) :
    allHandles (old + others) = (old.flatMap (·.handles) : List DispatcherId) + allHandles others := by
  rw [allHandles, Multiset.add_bind, Multiset.coe_bind]
  rfl

theorem allSeverings_add (d : DispatcherId) (old : List Frame) (others : Multiset Frame) :
    allSeverings d (old + others) =
      ((old.flatMap (·.severings)).filterMap fun (d', o, ids) =>
        if d' = d then some (o, ids) else none : List (ObjectId × List ConnectionId)) +
      allSeverings d others := by
  rw [allSeverings, Multiset.add_bind, Multiset.coe_bind, List.filterMap_flatMap]
  rfl

end Frame

theorem Turn.sound {a b : Scope} (h : Turn a b) (sound : ∀ f ∈ a.2, f.Sound) : ∀ f ∈ b.2, f.Sound := by
  cases h with
  | work _ carries => exact carries.sound sound
  | host | share | register | cut => exact sound
  | disown => exact List.forall_mem_cons.2 ⟨nofun, sound⟩
  | hold _ opens => exact opens.sound sound
  | release | close =>
    obtain ⟨unskipped, sound⟩ := List.forall_mem_cons.1 sound
    exact List.forall_mem_cons.2 ⟨unskipped, sound⟩
  | destroy _ holds =>
    obtain ⟨unskipped, sound⟩ := List.forall_mem_cons.1 sound
    exact List.forall_mem_cons.2 ⟨⟨holds, unskipped⟩, sound⟩
  | sever =>
    obtain ⟨holds, sound⟩ := List.forall_mem_cons.1 sound
    exact List.forall_mem_cons.2 ⟨holds, sound⟩
  | severed =>
    obtain ⟨⟨-, unskipped⟩, sound⟩ := List.forall_mem_cons.1 sound
    exact List.forall_mem_cons.2 ⟨unskipped, sound⟩

/-- Every turn keeps a property of what threads share and of the frames of all threads, whatever the
frames are that the turn leaves alone. -/
def KeptByTurns (P : Shared → Multiset Frame → Prop) : Prop :=
  ∀ s s' (old new : List Frame) (others : Multiset Frame), Turn (s, old) (s', new) →
    (∀ f ∈ old, f.Sound) → (∀ f ∈ others, f.Sound) → P s (old + others) → P s' (new + others)

/-- Every step keeps a property of what threads share and of the frames of all threads. -/
structure Kept (P : Shared → Multiset Frame → Prop) : Prop where
  turn : KeptByTurns P
  skip : ∀ s s' (old new : List Frame) (others : Multiset Frame), Skips (s, old) (s', new) →
    P s (old + others) → P s' (new + others)
  connect : ∀ s s' fs, Connects s s' → P s fs → P s' fs

theorem KeptByTurns.turns {P : Shared → Multiset Frame → Prop} (h : KeptByTurns P)
    {others : Multiset Frame} (sound' : ∀ f ∈ others, f.Sound) {a b : Scope} (turns : Turns a b)
    (sound : ∀ f ∈ a.2, f.Sound) (holds : P a.1 (a.2 + others)) :
    (∀ f ∈ b.2, f.Sound) ∧ P b.1 (b.2 + others) := by
  induction turns with
  | refl => exact ⟨sound, holds⟩
  | tail _ turn ih =>
    obtain ⟨sound, holds⟩ := ih
    exact ⟨turn.sound sound, h _ _ _ _ _ turn sound sound' holds⟩

namespace Machine

/-- The machine before anything has happened. -/
def start (r : Registry) : Machine where
  shared := { registry := r }

/-- The frames of all threads. -/
def frames (m : Machine) : Multiset Frame :=
  (m.threads.flatMap (·.frames) : List Frame)

/-- One thread takes a step. -/
inductive StepOn (m : Machine) (t : Nat) : Machine → Prop
  | intro {th th' : Thread} {s : Shared} (found : m.threads[t]? = some th)
      (moves : Thread.Moves m.shared th s th') : StepOn m t ⟨s, m.threads.set t th'⟩

theorem stepOn_onThread {m : Machine} {t : Nat} {f : Shared → Thread → Shared × Thread} {s : Shared}
    (h : ∀ th, m.threads[t]? = some th → Thread.Moves m.shared th (f s th).1 (f s th).2) :
    m.threads[t]? = none ∨ m.StepOn t ({ m with shared := s }.onThread t f) := by
  cases ht : m.threads[t]? with
  | none => exact .inl rfl
  | some th =>
    refine .inr ?_
    simp only [onThread, ht]
    exact .intro ht (h th ht)

theorem onThread_of_none {m : Machine} {t : Nat} (none : m.threads[t]? = none)
    (f : Shared → Thread → Shared × Thread) : m.onThread t f = m := by
  simp only [onThread, none]

/-- The thread on which something happens. -/
def Move.thread? : Move → Option Nat
  | .spawn | .reorder _ => none
  | .act t _ | .finish t _ | .advance t | .expire t => some t

/-- A move does nothing, starts a thread, takes hash maps in another order or lets one thread take a
step. -/
theorem move_cases (m : Machine) (a : Move) :
    m.move a = m ∨ m.move a = m.spawn ∨ (∃ order, m.move a = m.reorder order) ∨
      ∃ t, a.thread? = some t ∧ m.StepOn t (m.move a) := by
  cases a with
  | spawn => exact .inr (.inl rfl)
  | reorder order => exact .inr (.inr (.inl ⟨order, rfl⟩))
  | act t a =>
    let f (s : Shared) (th : Thread) := th.act s a
    rcases stepOn_onThread (m := m) (s := m.shared) (f := f) fun th _ => .act a with h | h
    · exact .inl (onThread_of_none h f)
    · exact .inr (.inr (.inr ⟨t, rfl, h⟩))
  | finish t y =>
    let f (s : Shared) (th : Thread) := th.finish s y
    rcases stepOn_onThread (m := m) (s := m.shared) (f := f) fun th _ => .finish y with h | h
    · exact .inl (onThread_of_none h f)
    · exact .inr (.inr (.inr ⟨t, rfl, h⟩))
  | advance t =>
    simp only [move, advance?]
    cases ht : m.threads[t]? with
    | none => exact .inl rfl
    | some th =>
      cases h : th.advance m.shared with
      | none =>
        simp only [h, Option.map_none, Option.getD_none]
        exact .inl trivial
      | some p =>
        simp only [h, Option.map_some, Option.getD_some]
        exact .inr (.inr (.inr ⟨t, rfl, .intro ht (.advance h)⟩))
  | expire t =>
    simp only [move, expire]
    cases hd : m.deadline? t with
    | none => exact .inl rfl
    | some deadline =>
      have waits : ∀ th, m.threads[t]? = some th → th.deadline?.isSome := by
        intro th ht
        rw [deadline?, ht, Option.bind_some] at hd
        rw [hd]
        rfl
      let f (s : Shared) (th : Thread) := th.expire s
      rcases stepOn_onThread (s := { m.shared with now := max m.shared.now deadline }) (f := f)
        fun th ht => .expire _ (waits th ht) with h | h
      · rw [deadline?, h] at hd
        cases hd
      · exact .inr (.inr (.inr ⟨t, rfl, h⟩))

/-- What one thread has is among what all threads have. -/
theorem flatMap_set {β : Type} {m : Machine} {t : Nat} {th : Thread} (ht : m.threads[t]? = some th)
    (f : Thread → List β) :
    ∃ others : Multiset β, (m.threads.flatMap f : List β) = (f th + others : Multiset β) ∧
      ∀ th', ((m.threads.set t th').flatMap f : List β) = (f th' + others : Multiset β) := by
  obtain ⟨lt, rfl⟩ := List.getElem?_eq_some_iff.1 ht
  have parts : ∀ th' : Thread, (m.threads.take t ++ th' :: m.threads.drop (t + 1)).flatMap f =
      (m.threads.take t).flatMap f ++ (f th' ++ (m.threads.drop (t + 1)).flatMap f) := by
    intro th'
    rw [List.flatMap_append, List.flatMap_cons]
  refine ⟨((m.threads.take t).flatMap f : List β) + ((m.threads.drop (t + 1)).flatMap f : List β),
    ?_, fun th' => ?_⟩
  · have whole : m.threads = m.threads.take t ++ m.threads[t] :: m.threads.drop (t + 1) := by
      rw [List.getElem_cons_drop, List.take_append_drop]
    conv_lhs => rw [whole]
    rw [parts, ← Multiset.coe_add, ← Multiset.coe_add, add_left_comm]
  · rw [List.set_eq_take_append_cons_drop, if_pos lt, parts, ← Multiset.coe_add,
      ← Multiset.coe_add, add_left_comm]

/-- The frames of a thread are among the frames of all threads. -/
theorem frames_set {m : Machine} {t : Nat} {th : Thread} (ht : m.threads[t]? = some th) :
    ∃ others : Multiset Frame, m.frames = th.frames + others ∧
      ∀ s th', (⟨s, m.threads.set t th'⟩ : Machine).frames = th'.frames + others := by
  obtain ⟨others, before, after⟩ := flatMap_set ht (·.frames)
  exact ⟨others, before, fun _ => after⟩

/-- What a move amounts to. -/
inductive Effect (m m' : Machine) : Prop
  /-- What turns keep is kept. -/
  | turns (keeps : ∀ P, KeptByTurns P → P m.shared m.frames → P m'.shared m'.frames)
  | skip {old new : List Frame} {others : Multiset Frame}
      (skips : Skips (m.shared, old) (m'.shared, new)) (before : m.frames = old + others)
      (after : m'.frames = new + others)
  | connect (connects : Connects m.shared m'.shared) (same : m'.frames = m.frames)

theorem effect_spawn {m : Machine} (sound : ∀ f ∈ m.frames, f.Sound) : m.Effect m.spawn := by
  have frames : m.spawn.frames = ([.body .program] : List Frame) + m.frames := by
    simp only [spawn, Machine.frames, List.flatMap_append, List.flatMap_singleton]
    rw [← Multiset.coe_add, add_comm]
  have turn : Turn (m.shared, []) (m.shared, [.body .program]) :=
    .frames ⟨⟨rfl, rfl, fun _ => List.forall_mem_singleton.2 trivial⟩, rfl, fun _ h => h⟩
  refine .turns fun P kept holds => ?_
  rw [frames]
  refine kept _ _ _ _ _ turn (List.forall_mem_nil _) sound ?_
  rw [Multiset.coe_nil, zero_add]
  exact holds

theorem effect_reorder {m : Machine} (sound : ∀ f ∈ m.frames, f.Sound) (order : List Nat) :
    m.Effect (m.reorder order) := by
  have turn : Turn (m.shared, []) ((m.reorder order).shared, []) :=
    .quiet (Shared.quiet_reorder order) (.refl _)
  refine .turns fun P kept holds => ?_
  have kept := kept _ _ _ _ m.frames turn (List.forall_mem_nil _) sound
  rw [Multiset.coe_nil, zero_add] at kept
  exact kept holds

theorem effect_step {m m' : Machine} {t : Nat} (sound : ∀ f ∈ m.frames, f.Sound)
    (step : m.StepOn t m') : m.Effect m' := by
  cases step with
  | @intro th th' s found moves =>
    -- The frames of other threads and those below are left alone, so what turns keep is kept.
    obtain ⟨others, before, after⟩ := frames_set found
    have inside : ∀ f ∈ th.frames, f.Sound := fun f hf =>
      sound f (before ▸ Multiset.mem_add.2 (.inl (Multiset.mem_coe.2 hf)))
    have outside : ∀ f ∈ others, f.Sound := fun f hf =>
      sound f (before ▸ Multiset.mem_add.2 (.inr hf))
    have after := after s th'
    rcases moves.turns inside with ⟨old, new, rest, ho, hn, h⟩ | ⟨connects, same⟩
    · rw [ho] at inside before
      rw [← Multiset.coe_add, add_assoc] at before
      rw [hn, ← Multiset.coe_add, add_assoc] at after
      rcases h with turns | skips
      · refine .turns fun P kept holds => ?_
        rw [before] at holds
        rw [after]
        refine (kept.turns (fun f hf => ?_) turns (fun f hf => inside f (List.mem_append_left _ hf))
          holds).2
        rcases Multiset.mem_add.1 hf with hf | hf
        · exact inside f (List.mem_append_right _ (Multiset.mem_coe.1 hf))
        · exact outside f hf
      · exact .skip skips before after
    · rw [same, ← before] at after
      exact .connect connects after

/-- A move does turns, gives up a call or makes a connection. -/
theorem effect_move {m : Machine} (sound : ∀ f ∈ m.frames, f.Sound) (a : Move) :
    m.Effect (m.move a) := by
  rcases m.move_cases a with e | e | ⟨order, e⟩ | ⟨t, -, step⟩
  · rw [e]
    exact .turns fun _ _ holds => holds
  · rw [e]
    exact effect_spawn sound
  · rw [e]
    exact effect_reorder sound order
  · exact effect_step sound step

end Machine

theorem Kept.effect {P : Shared → Multiset Frame → Prop} (h : Kept P) {m m' : Machine}
    (effect : m.Effect m') (holds : P m.shared m.frames) : P m'.shared m'.frames := by
  cases effect with
  | turns keeps => exact keeps P h.turn holds
  | skip skips before after =>
    rw [before] at holds
    rw [after]
    exact h.skip _ _ _ _ _ skips holds
  | connect connects same =>
    rw [same]
    exact h.connect _ _ _ connects holds

theorem kept_sound : Kept fun _ fs => ∀ f ∈ fs, f.Sound where
  turn s s' old new others turn sound sound' _ f hf := by
    rcases Multiset.mem_add.1 hf with hf | hf
    · exact turn.sound sound f (Multiset.mem_coe.1 hf)
    · exact sound' f hf
  skip s s' old new others skips sound f hf := by
    rcases Multiset.mem_add.1 hf with hf | hf
    · have inside : ∀ f ∈ old, f.Sound := fun f hf =>
        sound f (Multiset.mem_add.2 (.inl (Multiset.mem_coe.2 hf)))
      exact skips.carries.sound inside f (Multiset.mem_coe.1 hf)
    · exact sound f (Multiset.mem_add.2 (.inr hf))
  connect s s' fs _ sound := sound

namespace Machine

theorem run_nil (m : Machine) : m.run [] = m :=
  rfl

theorem run_concat (m : Machine) (moves : List Move) (a : Move) :
    m.run (moves ++ [a]) = (m.run moves).move a :=
  List.foldl_concat ..

theorem run_append (m : Machine) (moves later : List Move) :
    m.run (moves ++ later) = (m.run moves).run later :=
  List.foldl_append

theorem sound_move {m : Machine} (sound : ∀ f ∈ m.frames, f.Sound) (a : Move) :
    ∀ f ∈ (m.move a).frames, f.Sound :=
  kept_sound.effect (effect_move sound a) sound

theorem sound_start (r : Registry) : ∀ f ∈ (start r).frames, f.Sound :=
  fun f hf => absurd hf (Multiset.notMem_zero f)

theorem sound_run {m : Machine} (sound : ∀ f ∈ m.frames, f.Sound) (moves : List Move) :
    ∀ f ∈ (m.run moves).frames, f.Sound := by
  induction moves using List.reverseRecOn with
  | nil => exact sound
  | append_singleton moves a ih =>
    rw [run_concat]
    exact sound_move ih a

end Machine

/-- What is kept holds after every run that begins with it. -/
theorem Kept.run {P : Shared → Multiset Frame → Prop} (h : Kept P) {m : Machine}
    (sound : ∀ f ∈ m.frames, f.Sound) (holds : P m.shared m.frames) (moves : List Machine.Move) :
    P (m.run moves).shared (m.run moves).frames := by
  induction moves using List.reverseRecOn with
  | nil => exact holds
  | append_singleton moves a ih =>
    rw [Machine.run_concat]
    exact h.effect (Machine.effect_move (Machine.sound_run sound moves) a) ih

end Reflection

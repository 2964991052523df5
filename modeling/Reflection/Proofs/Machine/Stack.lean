import Reflection.Proofs.Dispatcher.Order
import Reflection.Proofs.Machine.Runs
/-!
# What lies below the innermost frame

A step looks at the innermost frame, and if that one is over at the one below it too; what lies further
down is left alone. So a frame that calls, waits or gives back what was held stays where it is, with
the same reply to come, while whatever it runs comes and goes above it (`Moves.above`).
-/

namespace Reflection

namespace Frame

/-- A frame that calls, waits or gives back what was held. -/
def Simple : Frame → Prop
  | .calling _ | .waiting _ _ | .releasing _ _ => True
  | _ => False

theorem Simple.outside {g : Frame} (hg : g.Simple) (entry : Entry) : g ≠ .body entry := by
  rintro rfl
  exact hg.elim

/-- How such a frame goes on as long as it is not over. -/
inductive Becomes : Frame → Frame → Prop
  | same (f : Frame) : Becomes f f
  | returned (held : List Held) (y : Yield) :
      Becomes (.calling held) (.releasing held (.called y.result))
  | released (held held' : List Held) (reply : Reply) :
      Becomes (.releasing held reply) (.releasing held' reply)

/-- The connections that a frame has still to cut. -/
def cuts? : Frame → Option (DispatcherId × List ConnectionId)
  | .severing d _ ids _ _ | .disconnecting d ids _ _ => some (d, ids)
  | _ => none

end Frame

namespace Thread

variable {s s' : Shared} {th th' : Thread} {f g : Frame} {below top : List Frame} {r : Reply}

/-- A step leaves alone what lies below the innermost frame, or hands a reply to it. -/
theorem Moves.on_cons (sound : ∀ f ∈ th.frames, f.Sound) (h : Moves s th s' th')
    (hf : th.frames = f :: below) :
    (∃ new, th'.frames = new ++ below) ∨ ∃ now th₁ r, th₁.frames = below ∧
      r ≠ .called .skipped ∧ (s', th') = resume { s with now } th₁ r := by
  obtain ⟨now, ⟨f', below', hf', steps⟩ | ⟨same, -⟩⟩ := h.steps sound
  · obtain ⟨rfl, rfl⟩ := List.cons.inj (hf.symm.trans hf')
    cases steps with
    | within goes =>
      obtain ⟨new, hn, -⟩ | ⟨new, hn, -⟩ := goes
      · exact .inl ⟨new, hn⟩
      · exact .inl ⟨new, hn⟩
    | pops pop left resumed => exact .inr ⟨now, _, _, left, pop.unskipped, resumed⟩
  · exact .inl ⟨[f], same.trans hf⟩

theorem resume_simple (hg : g.Simple) (hf : th.frames = g :: below) :
    ∃ g', (resume s th r).2.frames = g' :: below ∧ g.Becomes g' := by
  unfold resume
  rw [hf]
  cases g with
  | calling held =>
    cases r with
    | yielded y => exact ⟨_, rfl, .returned held y⟩
    | _ => exact ⟨_, hf, .same _⟩
  | waiting k deadline => exact ⟨_, hf, .same _⟩
  | releasing held reply => exact ⟨_, hf, .same _⟩
  | _ => exact hg.elim

/-- Client code may run for what is given back; the reply to come stays the same. -/
theorem release_frames (s : Shared) (th : Thread) (h : Held) (held : List Held) (reply : Reply)
    (below : List Frame) :
    ∃ top held', (release s th h held reply below).2.frames =
      top ++ .releasing held' reply :: below := by
  unfold release
  dsimp only
  split
  · exact ⟨[], held, rfl⟩
  · cases h with
    | completion k => exact ⟨[], held, rfl⟩
    | callback c => exact ⟨[_], held, rfl⟩
    | object i => exact ⟨[_, _], held, rfl⟩
    | dispatcher d => exact ⟨[], _, rfl⟩

/-- What can be the next step of such a frame when it is the innermost one. -/
theorem advance_simple (sound : ∀ f ∈ th.frames, f.Sound) (hg : g.Simple)
    (hf : th.frames = g :: below) (h : advance s th = some (s', th')) :
    (∃ top g', th'.frames = top ++ g' :: below ∧ g.Becomes g') ∨
      ∃ r, Pops s g r ∧ (s', th') = resume s (th.withFrames below) r := by
  unfold advance at h
  rw [hf] at h
  cases g with
  | calling held => cases h
  | waiting k deadline =>
    dsimp only at h
    split at h
    · cases h
    · rename_i c hc
      have e := Option.some.inj h
      exact .inr ⟨_, .told (Option.join_eq_some_iff.1 hc) deadline, e.symm⟩
  | releasing held reply =>
    cases held with
    | nil =>
      have unskipped : reply ≠ .called .skipped :=
        sound (.releasing [] reply) (hf ▸ List.mem_cons_self)
      have e := Option.some.inj h
      exact .inr ⟨_, .released reply unskipped, e.symm⟩
    | cons first held =>
      have e := Option.some.inj h
      obtain ⟨top, held', frames⟩ := release_frames s th first held reply below
      rw [show release s th first held reply below = (s', th') from e] at frames
      exact .inl ⟨top, _, frames, .released _ held' reply⟩
  | _ => exact hg.elim

/-- Actions need client code at the top of a stack. -/
theorem act_of_outside (hf : th.frames = g :: below) (outside : ∀ entry, g ≠ .body entry) (a : Action) :
    act s th a = (s, th) := by
  unfold act
  rw [hf]
  cases g <;> first | rfl | exact absurd rfl (outside _)

/-- So does the end of client code. -/
theorem finish_of_outside (hf : th.frames = g :: below) (outside : ∀ entry, g ≠ .body entry)
    (y : Yield) : finish s th y = (s, th) := by
  unfold finish
  rw [hf]
  cases g <;> first | rfl | exact absurd rfl (outside _)

/-- What can happen when such a frame is the innermost one. -/
theorem Moves.simple (sound : ∀ f ∈ th.frames, f.Sound) (h : Moves s th s' th') (hg : g.Simple)
    (hf : th.frames = g :: below) :
    (∃ top g', th'.frames = top ++ g' :: below ∧ g.Becomes g') ∨
      ∃ now r, Pops s g r ∧ (s', th') = resume { s with now } (th.withFrames below) r := by
  cases h with
  | act a =>
    rw [act_of_outside hf hg.outside]
    exact .inl ⟨[], g, hf, .same g⟩
  | finish y =>
    rw [finish_of_outside hf hg.outside]
    exact .inl ⟨[], g, hf, .same g⟩
  | advance h =>
    exact (advance_simple sound hg hf h).imp_right fun ⟨r, pop, resumed⟩ => ⟨s.now, r, pop, resumed⟩
  | expire now waits =>
    unfold Thread.expire
    split
    · rename_i next h
      exact (advance_simple sound hg hf h).imp_right fun ⟨r, pop, resumed⟩ =>
        ⟨now, r, pop.of_completions rfl, resumed⟩
    · rename_i k deadline rest _ hf'
      obtain ⟨rfl, rfl⟩ := List.cons.inj (hf.symm.trans hf')
      exact .inr ⟨now, _, .untold k deadline, rfl⟩
    · rename_i v rest _ hf'
      obtain ⟨rfl, rfl⟩ := List.cons.inj (hf.symm.trans hf')
      exact hg.elim
    · exact .inl ⟨[], g, hf, .same g⟩

/-- What happens above a frame leaves it alone or hands a reply to it. -/
theorem Moves.over (sound : ∀ f ∈ th.frames, f.Sound) (h : Moves s th s' th')
    (hf : th.frames = f :: (top ++ g :: below)) :
    (∃ new, th'.frames = new ++ g :: below) ∨
      ∃ now th₁ r, th₁.frames = g :: below ∧ (s', th') = resume { s with now } th₁ r := by
  rcases h.on_cons sound hf with ⟨new, hn⟩ | ⟨now, th₁, r, left, unskipped, resumed⟩
  · exact .inl ⟨new ++ top, hn.trans (List.append_assoc new top _).symm⟩
  · cases top with
    | nil => exact .inr ⟨now, th₁, r, left, resumed⟩
    | cons f' top =>
      have frames : th'.frames = (resume { s with now } th₁ r).2.frames := by rw [← resumed]
      obtain ⟨new, hn, -⟩ := goes_resume (s := { s with now }) left unskipped
      rw [frames]
      exact .inl ⟨new ++ top, hn.trans (List.append_assoc new top _).symm⟩

/-- While a frame that calls, waits or gives back what was held has frames above it, it stays, and it
is over only when it is the innermost one. -/
theorem Moves.above (sound : ∀ f ∈ th.frames, f.Sound) (h : Moves s th s' th') (hg : g.Simple)
    (hf : th.frames = top ++ g :: below) :
    (∃ top' g', th'.frames = top' ++ g' :: below ∧ g.Becomes g') ∨
      top = [] ∧ ∃ now r, Pops s g r ∧ (s', th') = resume { s with now } (th.withFrames below) r := by
  cases top with
  | nil => exact (h.simple sound hg hf).imp_right fun pops => ⟨rfl, pops⟩
  | cons f top =>
    refine .inl ?_
    rcases h.over sound hf with ⟨new, hn⟩ | ⟨now, th₁, r, left, resumed⟩
    · exact ⟨new, g, hn, .same g⟩
    · have frames : th'.frames = (resume { s with now } th₁ r).2.frames := by rw [← resumed]
      obtain ⟨g', hg', becomes⟩ := resume_simple (s := { s with now }) (r := r) hg left
      exact ⟨[], g', frames.trans hg', becomes⟩

/-! ## Client code -/

/-- The end of an action changes no frame. -/
theorem resume_body {entry : Entry} (hf : th.frames = .body entry :: below) :
    (resume s th r).2.frames = .body entry :: below := by
  unfold resume
  rw [hf]
  cases r with
  | answer a => rfl
  | _ => exact hf

theorem advance_body {entry : Entry} (hf : th.frames = .body entry :: below) : advance s th = none := by
  unfold advance
  rw [hf]

theorem deadline?_body {entry : Entry} (hf : th.frames = .body entry :: below) : th.deadline? = none := by
  unfold deadline?
  rw [hf]

/-- What client code asks for goes on top of it. -/
theorem act_body {entry : Entry} (hf : th.frames = .body entry :: below) (a : Action) :
    ∃ top, (act s th a).2.frames = top ++ .body entry :: below := by
  have hf' : ({ th with answer := none } : Thread).frames = .body entry :: below := hf
  unfold act
  split
  · split
    · rename_i permitted
      rcases mounts_perform a permitted hf' with ⟨top, frames, -⟩ | ⟨-, same⟩
      · exact ⟨top, frames⟩
      · exact ⟨[], same.trans hf⟩
    · exact ⟨[], hf⟩
  · exact ⟨[], hf⟩

/-- Client code that waits for something above it to end does not end itself. -/
theorem Moves.body (sound : ∀ f ∈ th.frames, f.Sound) (h : Moves s th s' th') {entry : Entry}
    (hf : th.frames = f :: (top ++ .body entry :: below)) :
    ∃ top', th'.frames = top' ++ .body entry :: below := by
  rcases h.over sound hf with above | ⟨now, th₁, r, left, resumed⟩
  · exact above
  · have frames : th'.frames = (resume { s with now } th₁ r).2.frames := by rw [← resumed]
    exact ⟨[], frames.trans (resume_body left)⟩

/-! ## Connections that are cut -/

variable {p : DispatcherId × List ConnectionId} {d : DispatcherId} {ids : List ConnectionId}

/-- No reply is for a frame that cuts connections. -/
theorem resume_of_cuts (cuts : g.cuts? = some p) (hf : th.frames = g :: below) : resume s th r = (s, th) := by
  unfold resume
  rw [hf]
  cases g <;> first | rfl | cases cuts

/-- A frame that cuts connections stays as it is until it is the innermost one and takes its next step. -/
theorem Moves.of_cuts (sound : ∀ f ∈ th.frames, f.Sound) (h : Moves s th s' th')
    (hf : th.frames = top ++ g :: below) (cuts : g.cuts? = some p) :
    (∃ top', th'.frames = top' ++ g :: below) ∨
      th.frames = g :: below ∧ ∃ now, Thread.advance { s with now } th = some (s', th') := by
  have outside : ∀ entry, g ≠ .body entry := by
    rintro entry rfl
    cases cuts
  cases top with
  | nil =>
    cases h with
    | act a =>
      rw [act_of_outside hf outside]
      exact .inl ⟨[], hf⟩
    | finish y =>
      rw [finish_of_outside hf outside]
      exact .inl ⟨[], hf⟩
    | advance h => exact .inr ⟨hf, s.now, h⟩
    | expire now =>
      unfold Thread.expire
      split
      · rename_i next h
        exact .inr ⟨hf, now, h⟩
      · rename_i hf'
        obtain ⟨rfl, -⟩ := List.cons.inj (hf.symm.trans hf')
        cases cuts
      · rename_i hf'
        obtain ⟨rfl, -⟩ := List.cons.inj (hf.symm.trans hf')
        cases cuts
      · exact .inl ⟨[], hf⟩
  | cons f top =>
    refine .inl ?_
    rcases h.over sound hf with above | ⟨now, th₁, r, left, resumed⟩
    · exact above
    · rw [resume_of_cuts cuts left] at resumed
      cases resumed
      exact ⟨[], left⟩

/-- A destruction under way goes on until its object is taken away. -/
theorem Moves.severing (sound : ∀ f ∈ th.frames, f.Sound) (h : Moves s th s' th') {o : ObjectId}
    {held : List Held} {reply : Reply} (hf : th.frames = top ++ .severing d o ids held reply :: below) :
    (∃ top' ids', th'.frames = top' ++ .severing d o ids' held reply :: below) ∨
      ∃ now, s' = ({ s with now } : Shared).setDispatcher d ((s.dispatcher d).endDestroy o) := by
  rcases h.of_cuts sound hf rfl with ⟨top', frames⟩ | ⟨here, now, advances⟩
  · exact .inl ⟨top', ids, frames⟩
  · unfold Thread.advance at advances
    rw [here] at advances
    cases ids with
    | nil =>
      cases advances
      exact .inr ⟨now, rfl⟩
    | cons next ids =>
      cases advances
      exact .inl ⟨_, ids, afterCut_append _ [] (_ :: below)⟩

/-- Connections that are to be cut are cut one after the other. -/
theorem Moves.cutting (sound : ∀ f ∈ th.frames, f.Sound) (h : Moves s th s' th')
    (hf : th.frames = top ++ g :: below) (cuts : g.cuts? = some (d, ids)) :
    ids = [] ∨ (∃ top', th'.frames = top' ++ g :: below) ∨
      ∃ now next ids' x top' g', ids = next :: ids' ∧ s' = ({ s with now } : Shared).setDispatcher d x ∧
        x.connections = (s.dispatcher d).connections.erase next ∧
        th'.frames = top' ++ g' :: below ∧ g'.cuts? = some (d, ids') ∧ g'.handles = g.handles := by
  rcases h.of_cuts sound hf cuts with above | ⟨here, now, advances⟩
  · exact .inr (.inl above)
  · unfold Thread.advance at advances
    rw [here] at advances
    cases ids with
    | nil => exact .inl rfl
    | cons next ids =>
      refine .inr (.inr ⟨now, next, ids, ?_⟩)
      cases g with
      | severing d' o ids' held reply =>
        cases cuts
        cases advances
        exact ⟨_, _, _, rfl, rfl, Dispatcher.connections_sever _ o next, afterCut_append _ [] (_ :: below), rfl, rfl⟩
      | disconnecting d' ids' count held =>
        cases cuts
        cases advances
        exact ⟨_, _, _, rfl, rfl, Dispatcher.connections_disconnect _ next, afterCut_append _ [] (_ :: below), rfl,
          rfl⟩
      | _ => cases cuts

end Thread
end Reflection

import Reflection.Proofs.Machine.Runs
/-!
# Handles are counted

A dispatcher has as many handles as client code and the operations under way hold. So it is gone only
when no operation on it is under way, and once it is gone it stays so.
-/

namespace Reflection

open Reflection.Frame (allHandles allHandles_add)

/-- Every handle is client code's or held by a frame. -/
def Counted (s : Shared) (fs : Multiset Frame) : Prop :=
  ∀ d, s.handles d = s.owned d + (allHandles fs).count d

theorem Dispatcher.filterMap_dispatcher?_held (x : Dispatcher) :
    x.held.filterMap (·.dispatcher?) = [] := by
  refine List.filterMap_eq_nil_iff.2 fun h hh => ?_
  rcases List.mem_append.1 hh with hh | hh
  · obtain ⟨p, -, hp⟩ := List.mem_filterMap.1 hh
    obtain ⟨c, -, rfl⟩ := Option.map_eq_some_iff.1 hp
    rfl
  · obtain ⟨i, -, hi⟩ := List.mem_flatMap.1 hh
    exact List.filterMap_eq_nil_iff.1 i.filterMap_dispatcher?_held h hi

theorem Counted.congr {s s' : Shared} {fs fs' : Multiset Frame} (h : Counted s fs)
    (handles : ∀ d, s'.handles d = s.handles d) (owned : ∀ d, s'.owned d = s.owned d)
    (held : allHandles fs' = allHandles fs) : Counted s' fs' := by
  intro d
  rw [handles, owned, held, h d]

theorem Counted.alike {s s' : Shared} {old new : List Frame} {others : Multiset Frame}
    (h : Counted s (old + others)) (alike : s.Alike s') (carries : Carries old new) :
    Counted s' (new + others) := by
  refine h.congr alike.handles alike.owned ?_
  rw [allHandles_add, allHandles_add, carries.handles]

/-- The handles of one dispatcher when a frame holds one more. -/
theorem count_allHandles_cons {fs : List Frame} {d : DispatcherId} {ds : List DispatcherId}
    (h : fs.flatMap (·.handles) = d :: ds) (others : Multiset Frame) (d' : DispatcherId) :
    (allHandles (fs + others)).count d' =
      ds.count d' + (allHandles others).count d' + if d = d' then 1 else 0 := by
  rw [allHandles_add, h, Multiset.count_add, Multiset.coe_count, List.count_cons]
  simp only [beq_iff_eq]
  omega

theorem count_allHandles {fs : List Frame} {ds : List DispatcherId}
    (h : fs.flatMap (·.handles) = ds) (others : Multiset Frame) (d' : DispatcherId) :
    (allHandles (fs + others)).count d' = ds.count d' + (allHandles others).count d' := by
  rw [allHandles_add, h, Multiset.count_add, Multiset.coe_count]

theorem counted_turn {s s' : Shared} {old new : List Frame} {others : Multiset Frame}
    (turn : Turn (s, old) (s', new)) (h : Counted s (old + others)) : Counted s' (new + others) := by
  cases turn with
  | work alike carries => exact h.alike alike carries
  | host timeout =>
    intro d
    have := h d
    rcases s.addDispatcher_views timeout d with ⟨e, e', -⟩ | ⟨-, e, e', -, e₁, e₁', -⟩
    · rw [e, e', this]
    · rw [e₁, e₁']
      omega
  | share opened =>
    intro d'
    rw [Shared.handles_share opened, Shared.owned_share opened, h d']
    omega
  | @disown _ d _ owned =>
    intro d'
    have before := h d'
    rw [count_allHandles rfl] at before
    have own := Shared.owned_disown owned d'
    have opens : (Frame.releasing [.dispatcher d] (.answer .done) :: old).flatMap (·.handles) =
        d :: old.flatMap (·.handles) := rfl
    rw [Shared.handles_disown, count_allHandles_cons opens]
    omega
  | @hold _ d _ _ opened opens =>
    intro d'
    have before := h d'
    rw [count_allHandles rfl] at before
    rw [Shared.handles_retain opened, Shared.owned_retain, count_allHandles_cons opens.handles]
    omega
  | @release _ d held reply fs unique =>
    have opens : (Frame.releasing (.dispatcher d :: held) reply :: fs).flatMap (·.handles) =
        d :: (Frame.releasing held reply :: fs).flatMap (·.handles) := rfl
    have before := fun d' => (h d').trans (congrArg _ (count_allHandles_cons opens others d'))
    have opened : 0 < s.handles d := by
      have := before d
      simp only [if_true] at this
      omega
    intro d'
    have after := Shared.handles_letGo opened d'
    rw [Shared.owned_letGo, count_allHandles rfl]
    have := before d'
    omega
  | @close _ d held reply fs last =>
    have opens : (Frame.releasing (.dispatcher d :: held) reply :: fs).flatMap (·.handles) =
        d :: (Frame.releasing held reply :: fs).flatMap (·.handles) := rfl
    have before := fun d' => (h d').trans (congrArg _ (count_allHandles_cons opens others d'))
    -- What the dispatcher held is given back next, and no dispatcher holds a handle.
    have held' : ((Frame.releasing ((s.dispatcher d).held ++ held) reply) :: fs).flatMap (·.handles) =
        ((Frame.releasing held reply) :: fs).flatMap (·.handles) := by
      simp only [List.flatMap_cons, Frame.handles, Frame.held, List.filterMap_append,
        Dispatcher.filterMap_dispatcher?_held, List.nil_append]
    intro d'
    have opened : 0 < s.handles d := last ▸ Nat.one_pos
    have after := Shared.handles_letGo opened d'
    rw [Shared.handles_setDispatcher, Shared.owned_setDispatcher, Shared.owned_letGo,
      count_allHandles held']
    have := before d'
    omega
  | register opened registered =>
    obtain ⟨metaClass, instances, rfl⟩ := Shared.register_eq_ok registered
    exact h.congr (fun _ => Shared.handles_setDispatcher _) (fun _ => Shared.owned_setDispatcher _) rfl
  | cut =>
    exact h.congr (fun _ => Shared.handles_setDispatcher _) (fun _ => Shared.owned_setDispatcher _) rfl
  | destroy begun holds =>
    refine h.congr (fun _ => Shared.handles_setDispatcher _) (fun _ => Shared.owned_setDispatcher _) ?_
    rw [allHandles_add, allHandles_add]
    rfl
  | sever =>
    refine h.congr (fun _ => Shared.handles_setDispatcher _) (fun _ => Shared.owned_setDispatcher _) ?_
    rw [allHandles_add, allHandles_add]
    rfl
  | severed =>
    refine h.congr (fun _ => Shared.handles_setDispatcher _) (fun _ => Shared.owned_setDispatcher _) ?_
    rw [allHandles_add, allHandles_add]
    rfl

end Reflection

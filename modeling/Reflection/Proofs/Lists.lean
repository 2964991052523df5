import Mathlib.Data.List.Forall2
import Mathlib.Data.List.Perm.Basic
import Mathlib.Data.List.ReduceOption
/-!
# Lists in step, slots and look-ups

Two lists are often in step: each item of one has a partner in the other, at the same place. A list of
slots holds the items that are there between places that were given back.
-/

namespace Reflection

variable {α β : Type}

/-! ## Lists in step -/

section InStep

variable {R : α → β → Prop} {as : List α} {bs : List β}

theorem exists_left_of_mem (h : List.Forall₂ R as bs) : ∀ b ∈ bs, ∃ a ∈ as, R a b := by
  induction h with
  | nil => exact List.forall_mem_nil _
  | cons first _ ih =>
    refine List.forall_mem_cons.2 ⟨⟨_, List.mem_cons_self, first⟩, fun b hb => ?_⟩
    obtain ⟨a, ha, related⟩ := ih b hb
    exact ⟨a, List.mem_cons_of_mem _ ha, related⟩

theorem exists_right_of_mem (h : List.Forall₂ R as bs) : ∀ a ∈ as, ∃ b ∈ bs, R a b :=
  exists_left_of_mem h.flip

theorem exists_getElem?_of_forall₂ (h : List.Forall₂ R as bs) {n : Nat} {b : β} (there : bs[n]? = some b) :
    ∃ a, as[n]? = some a ∧ R a b := by
  obtain ⟨lt, rfl⟩ := List.getElem?_eq_some_iff.1 there
  have lt' : n < as.length := h.length_eq ▸ lt
  exact ⟨as[n], List.getElem?_eq_getElem _, h.get lt' lt⟩

/-- What stands around an item of one list corresponds to what stands around its partner. -/
theorem exists_split_right {front back : List α} {a : α} (h : List.Forall₂ R (front ++ a :: back) bs) :
    ∃ front' b back', bs = front' ++ b :: back' ∧ R a b ∧ List.Forall₂ R front front' := by
  induction front generalizing bs with
  | nil =>
    obtain ⟨b, back', related, -, rfl⟩ := List.forall₂_cons_left_iff.1 h
    exact ⟨[], b, back', rfl, related, .nil⟩
  | cons c front ih =>
    obtain ⟨b, bs, first, rest, rfl⟩ := List.forall₂_cons_left_iff.1 h
    obtain ⟨front', b', back', rfl, related, before⟩ := ih rest
    exact ⟨b :: front', b', back', rfl, related, .cons first before⟩

theorem findIdx?_eq_of_forall₂ {p : α → Bool} {q : β → Bool}
    (h : List.Forall₂ (fun a b => p a = q b) as bs) : as.findIdx? p = bs.findIdx? q := by
  induction h with
  | nil => rfl
  | cons first _ ih => rw [List.findIdx?_cons, List.findIdx?_cons, first, ih]

/-- What holds of pairs of one list holds of what is related to them. -/
theorem pairwise_of_forall₂ {S : α → α → Prop} (h : List.Forall₂ R as bs) (sorted : as.Pairwise S) :
    bs.Pairwise fun b b' => ∃ a a', a ∈ as ∧ a' ∈ as ∧ R a b ∧ R a' b' ∧ S a a' := by
  induction h with
  | nil => exact .nil
  | @cons a b as bs first rest ih =>
    obtain ⟨head, tail⟩ := List.pairwise_cons.1 sorted
    refine List.pairwise_cons.2 ⟨fun b' hb' => ?_, (ih tail).imp ?_⟩
    · obtain ⟨a', ha', related⟩ := exists_left_of_mem rest b' hb'
      exact ⟨a, a', List.mem_cons_self, List.mem_cons_of_mem _ ha', first, related, head a' ha'⟩
    · rintro c c' ⟨a₁, a₂, h₁, h₂, related⟩
      exact ⟨a₁, a₂, List.mem_cons_of_mem _ h₁, List.mem_cons_of_mem _ h₂, related⟩

end InStep

theorem length_le_of_mem_flatMap {f : α → List β} {as : List α} {a : α} (h : a ∈ as) :
    (f a).length ≤ (as.flatMap f).length := by
  rw [List.flatMap_def]
  exact (List.sublist_flatten_of_mem (List.mem_map_of_mem h)).length_le

/-! ## Slots -/

/-- What is in a list of slots is one of them and the others. -/
theorem perm_reduceOption_set {l : List (Option β)} {i : Nat} {b : β} (h : l[i]? = some (some b)) :
    l.reduceOption.Perm (b :: (l.set i none).reduceOption) := by
  induction l generalizing i with
  | nil => cases h
  | cons x l ih =>
    cases i with
    | zero =>
      cases h
      rw [List.set_cons_zero, List.reduceOption_cons_of_some, List.reduceOption_cons_of_none]
    | succ i =>
      rw [List.set_cons_succ]
      have rest := ih (List.getElem?_cons_succ.symm.trans h)
      cases x with
      | none =>
        rw [List.reduceOption_cons_of_none, List.reduceOption_cons_of_none]
        exact rest
      | some x =>
        rw [List.reduceOption_cons_of_some, List.reduceOption_cons_of_some]
        exact (rest.cons x).trans (.swap b x _)

theorem reduceOption_concat_some (l : List (Option β)) (b : β) :
    (l ++ [some b]).reduceOption.Perm (b :: l.reduceOption) := by
  rw [List.reduceOption_append]
  exact List.perm_append_singleton b _

/-! ## Look-ups -/

theorem lookup_filter_of_ne {κ : Type} [BEq κ] [LawfulBEq κ] [DecidableEq κ] {key other : κ} (ne : key ≠ other)
    (entries : List (κ × β)) : (entries.filter (·.1 ≠ other)).lookup key = entries.lookup key := by
  induction entries with
  | nil => rfl
  | cons entry entries ih =>
    by_cases here : entry.1 = other
    · have skipped : (key == entry.1) = false := by simpa [here] using ne
      rw [List.filter_cons_of_neg (by simpa using here), ih, List.lookup_cons, skipped]
    · rw [List.filter_cons_of_pos (by simpa using here), List.lookup_cons, List.lookup_cons, ih]

/-- The last of some numbers for which something is found. -/
theorem findSome?_range_reverse {f : Nat → Option β} {n : Nat} {b : β} :
    (List.range (n + 1)).reverse.findSome? f = some b ↔
      ∃ k ≤ n, f k = some b ∧ ∀ j, k < j → j ≤ n → f j = none := by
  induction n with
  | zero =>
    constructor
    · intro found
      exact ⟨0, Nat.le_refl 0, by simpa using found, fun j lt le => absurd lt (Nat.not_lt.2 le)⟩
    · rintro ⟨k, le, found, -⟩
      obtain rfl := Nat.le_zero.1 le
      simpa using found
  | succ n ih =>
    rw [List.range_succ, List.reverse_append, List.reverse_singleton, List.singleton_append, List.findSome?_cons]
    cases innermost : f (n + 1) with
    | some b' =>
      constructor
      · rintro ⟨⟩
        exact ⟨n + 1, Nat.le_refl _, innermost, fun j lt le => absurd lt (Nat.not_lt.2 le)⟩
      · rintro ⟨k, le, found, none⟩
        rcases Nat.lt_or_eq_of_le le with lt | rfl
        · rw [none _ lt (Nat.le_refl _)] at innermost
          cases innermost
        · exact innermost.symm.trans found
    | none =>
      refine ih.trans ⟨?_, ?_⟩
      · rintro ⟨k, le, found, none⟩
        refine ⟨k, Nat.le_succ_of_le le, found, fun j lt le => ?_⟩
        rcases Nat.lt_or_eq_of_le le with lt' | rfl
        · exact none j lt (Nat.le_of_lt_succ lt')
        · exact innermost
      · rintro ⟨k, le, found, none⟩
        rcases Nat.lt_or_eq_of_le le with lt | rfl
        · exact ⟨k, Nat.le_of_lt_succ lt, found, fun j lt le => none j lt (Nat.le_succ_of_le le)⟩
        · rw [innermost] at found
          cases found

end Reflection

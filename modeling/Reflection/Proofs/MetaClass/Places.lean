import Mathlib.Algebra.Ring.Nat
import Mathlib.Data.List.Nodup
import Reflection.Json.Standard
import Reflection.Proofs.Registry.Consistency
/-!
# Absolute indices

The members of a class, those of the classes above it included, stand in one row: the root class comes
first, and each class has its own members in the order of its table (`places`). An absolute index is a
place in this row (`memberAt?_eq`). The row of a class above is the beginning of the row
(`places_prefix`), so an index means the same member in both, and a look-up by text finds the last
member of that text in the nearest class that has one (`indexOf?_eq_some_iff`).
`members_have_absolute_indices` says so of the methods, properties and enumerations of every registered
class.
-/

namespace Reflection

namespace MetaClass

variable {α : Type} (members : ClassTable → List α)

/-! ## The row of members -/

/-- The places of the own members of a class: the class and each local index. -/
def ownPlaces (c : MetaClass) : List (MetaClass × Nat) :=
  (List.range (members c.table).length).map (c, ·)

/-- The places of all members of a class, those of the root class first. -/
def places (c : MetaClass) : List (MetaClass × Nat) :=
  c.lineage.reverse.flatMap (ownPlaces members)

theorem places_eq (c : MetaClass) :
    c.places members = (c.parent?.map (places members)).getD [] ++ c.ownPlaces members := by
  rw [places, lineage_eq, List.reverse_cons, List.flatMap_append, List.flatMap_singleton]
  cases c.parent? <;> rfl

theorem offset_eq (c : MetaClass) :
    c.offset members = (c.parent?.map (count members)).getD 0 := by
  obtain ⟨t, ts⟩ := c
  cases ts with
  | nil => rfl
  | cons u us =>
    show (members u).length + _ = _ + (members u).length
    rw [Nat.add_comm]
    rfl

theorem getElem?_ownPlaces (c : MetaClass) (k : Nat) :
    (c.ownPlaces members)[k]? = (members c.table)[k]?.map fun _ => (c, k) := by
  rw [ownPlaces, List.getElem?_map]
  by_cases h : k < (members c.table).length
  · rw [List.getElem?_range h, List.getElem?_eq_getElem h]
    rfl
  · rw [List.getElem?_eq_none (by simpa using h), List.getElem?_eq_none (by simpa using h)]
    rfl

/-- There are as many places as members. -/
theorem length_places (c : MetaClass) : (c.places members).length = c.count members := by
  induction c using parent_induction with
  | step c ih =>
    rw [places_eq, List.length_append, count, offset_eq]
    congr 1
    · cases hp : c.parent? with
      | none => rfl
      | some p => exact ih p hp
    · rw [ownPlaces, List.length_map, List.length_range]

theorem length_parent_places (c : MetaClass) :
    ((c.parent?.map (places members)).getD []).length = c.offset members := by
  rw [offset_eq]
  cases c.parent? with
  | none => rfl
  | some p => exact length_places members p

/-- The row of a class begins with the row of each class above it. -/
theorem places_prefix {a c : MetaClass} (h : a ∈ c.lineage) : a.places members <+: c.places members := by
  induction c using parent_induction with
  | step c ih =>
    rw [lineage_eq] at h
    rcases List.mem_cons.1 h with rfl | h
    · exact List.prefix_rfl
    · cases hp : c.parent? with
      | none => simp [hp] at h
      | some p =>
        rw [hp] at h
        rw [places_eq members c, hp]
        exact (ih p hp h).trans (List.prefix_append _ _)

theorem mem_places {c a : MetaClass} {k : Nat} :
    (a, k) ∈ c.places members ↔ a ∈ c.lineage ∧ k < (members a.table).length := by
  simp only [places, ownPlaces, List.mem_flatMap, List.mem_reverse, List.mem_map, List.mem_range,
    Prod.mk.injEq]
  constructor
  · rintro ⟨b, hb, j, hj, rfl, rfl⟩
    exact ⟨hb, hj⟩
  · rintro ⟨ha, hk⟩
    exact ⟨a, ha, k, hk, rfl, rfl⟩

/-- A class is above others only. -/
theorem nodup_lineage (c : MetaClass) : c.lineage.Nodup := by
  have shorter : ∀ c : MetaClass, ∀ a ∈ c.lineage, a.ancestors.length ≤ c.ancestors.length := by
    intro c
    induction c using parent_induction with
    | step c ih =>
      intro a ha
      rw [lineage_eq] at ha
      rcases List.mem_cons.1 ha with rfl | ha
      · exact Nat.le_refl _
      · cases hp : c.parent? with
        | none => simp [hp] at ha
        | some p =>
          rw [hp] at ha
          have := ih p hp a ha
          rw [length_ancestors_of_parent? hp]
          omega
  induction c using parent_induction with
  | step c ih =>
    rw [lineage_eq]
    cases hp : c.parent? with
    | none => exact List.nodup_singleton _
    | some p =>
      refine List.nodup_cons.2 ⟨fun again => ?_, ih p hp⟩
      have := shorter p c again
      rw [length_ancestors_of_parent? hp] at this
      omega

theorem nodup_places (c : MetaClass) : (c.places members).Nodup := by
  refine List.nodup_flatMap.2 ⟨fun a _ => ?_, ?_⟩
  · exact List.nodup_range.map fun _ _ e => (Prod.mk.inj e).2
  · refine List.Pairwise.imp ?_ (List.nodup_reverse.2 c.nodup_lineage)
    intro a b ne p ha hb
    obtain ⟨_, _, rfl⟩ := List.mem_map.1 ha
    obtain ⟨_, _, e⟩ := List.mem_map.1 hb
    exact ne (Prod.mk.inj e).1.symm

/-! ## Members by index -/

/-- An absolute index leads to the member at that place of the row. -/
theorem memberAt?_eq (c : MetaClass) (i : Nat) :
    c.memberAt? members i =
      (c.places members)[i]?.bind fun (a, k) => (members a.table)[k]?.map (⟨a, ·, i⟩) := by
  induction c using parent_induction with
  | step c ih =>
    rw [places_eq]
    by_cases own : c.offset members ≤ i
    · obtain ⟨k, rfl⟩ := Nat.exists_eq_add_of_le own
      rw [memberAt?_own, List.getElem?_append_right (by rw [length_parent_places]; exact own),
        length_parent_places, Nat.add_sub_cancel_left, getElem?_ownPlaces]
      cases h : (members c.table)[k]? with
      | none => rfl
      | some e =>
        simp only [Option.map_some, Option.bind_some, h]
    · rw [List.getElem?_append_left (by rw [length_parent_places]; omega)]
      cases hp : c.parent? with
      | none =>
        rw [offset_eq, hp] at own
        exact absurd (Nat.zero_le i) own
      | some p =>
        have above : c.memberAt? members i = p.memberAt? members i := by
          rw [memberAt?, memberAt?, lineage_eq c, hp,
            List.find?_cons_of_neg (by simpa using own)]
          rfl
        rw [above]
        exact ih p hp

/-- What stands at an absolute index. -/
theorem memberAt?_eq_some_iff {c : MetaClass} {i : Nat} {m : Member α} :
    c.memberAt? members i = some m ↔
      m.index = i ∧ ∃ k, (c.places members)[i]? = some (m.owner, k) ∧
        (members m.owner.table)[k]? = some m.entry := by
  rw [memberAt?_eq]
  constructor
  · intro h
    obtain ⟨⟨a, k⟩, hp, hm⟩ := Option.bind_eq_some_iff.1 h
    obtain ⟨e, he, rfl⟩ := Option.map_eq_some_iff.1 hm
    exact ⟨rfl, k, hp, he⟩
  · rintro ⟨rfl, k, hp, he⟩
    rw [hp]
    exact Option.map_eq_some_iff.2 ⟨m.entry, he, rfl⟩

/-- The index of a member of a class above is where its class begins and its place there. -/
theorem getElem?_places {a c : MetaClass} (ha : a ∈ c.lineage) {k : Nat}
    (hk : k < (members a.table).length) :
    (c.places members)[a.offset members + k]? = some (a, k) := by
  obtain ⟨later, e⟩ := places_prefix members ha
  have own : (a.places members)[a.offset members + k]? = some (a, k) := by
    rw [places_eq, List.getElem?_append_right (by rw [length_parent_places]; omega),
      length_parent_places, Nat.add_sub_cancel_left, getElem?_ownPlaces,
      List.getElem?_eq_getElem hk]
    rfl
  have inside : a.offset members + k < (a.places members).length := by
    rw [length_places, count]
    omega
  rw [← e, List.getElem?_append_left inside, own]

/-- At a place of the row stands the index that leads there. -/
theorem index_of_getElem?_places {a c : MetaClass} {i k : Nat}
    (h : (c.places members)[i]? = some (a, k)) :
    a ∈ c.lineage ∧ k < (members a.table).length ∧ i = a.offset members + k := by
  obtain ⟨ha, hk⟩ := (mem_places members).1 (List.mem_of_getElem? h)
  refine ⟨ha, hk, ?_⟩
  obtain ⟨hi, e⟩ := List.getElem?_eq_some_iff.1 h
  obtain ⟨hj, e'⟩ := List.getElem?_eq_some_iff.1 (getElem?_places members ha hk)
  exact (nodup_places members c).getElem_inj_iff.1 (e.trans e'.symm)

/-- There is a member at each index up to the count, and at no other. -/
theorem isSome_memberAt?_iff {c : MetaClass} {i : Nat} :
    (c.memberAt? members i).isSome ↔ i < c.count members := by
  rw [← length_places]
  constructor
  · intro h
    obtain ⟨m, hm⟩ := Option.isSome_iff_exists.1 h
    obtain ⟨-, k, hp, -⟩ := (memberAt?_eq_some_iff members).1 hm
    exact (List.getElem?_eq_some_iff.1 hp).1
  · intro h
    obtain ⟨⟨a, k⟩, hp⟩ : ∃ p, (c.places members)[i]? = some p := ⟨_, List.getElem?_eq_getElem h⟩
    obtain ⟨-, hk, -⟩ := index_of_getElem?_places members hp
    refine Option.isSome_iff_exists.2 ⟨⟨a, (members a.table)[k], i⟩, ?_⟩
    exact (memberAt?_eq_some_iff members).2 ⟨rfl, k, hp, List.getElem?_eq_getElem hk⟩

/-- An index means the same member in a class and in all classes below it. -/
theorem memberAt?_of_mem_lineage {a c : MetaClass} (ha : a ∈ c.lineage) {i : Nat}
    (hi : i < a.count members) : c.memberAt? members i = a.memberAt? members i := by
  obtain ⟨later, e⟩ := places_prefix members ha
  rw [memberAt?_eq, memberAt?_eq, ← e, List.getElem?_append_left (by rwa [length_places])]

/-! ## Indices by text -/

theorem lastIndex?_eq_none_iff {p : α → Bool} {xs : List α} :
    lastIndex? p xs = none ↔ ∀ x ∈ xs, ¬ p x := by
  induction xs with
  | nil => simp [lastIndex?]
  | cons x xs ih =>
    rw [lastIndex?, List.forall_mem_cons, ← ih]
    cases lastIndex? p xs <;> cases h : p x <;> simp

/-- The last item for which `p` holds: it holds there, and nowhere after it. -/
theorem lastIndex?_eq_some {p : α → Bool} {xs : List α} {k : Nat} (h : lastIndex? p xs = some k) :
    (∃ x, xs[k]? = some x ∧ p x) ∧ ∀ j x, k < j → xs[j]? = some x → ¬ p x := by
  induction xs generalizing k with
  | nil => cases h
  | cons x xs ih =>
    rw [lastIndex?] at h
    split at h
    · rename_i i found
      cases h
      obtain ⟨⟨y, hy, py⟩, last⟩ := ih found
      refine ⟨⟨y, hy, py⟩, fun j z hj hz => ?_⟩
      obtain ⟨j, rfl⟩ := Nat.exists_eq_succ_of_ne_zero (Nat.ne_zero_of_lt hj)
      exact last j z (Nat.lt_of_succ_lt_succ hj) hz
    · rename_i none
      split at h
      · rename_i px
        cases h
        refine ⟨⟨x, rfl, px⟩, fun j z hj hz => ?_⟩
        obtain ⟨j, rfl⟩ := Nat.exists_eq_succ_of_ne_zero (Nat.ne_zero_of_lt hj)
        exact lastIndex?_eq_none_iff.1 none z (List.mem_of_getElem? hz)
      · cases h

theorem lastIndex?_eq_some_iff {p : α → Bool} {xs : List α} {k : Nat} :
    lastIndex? p xs = some k ↔
      (∃ x, xs[k]? = some x ∧ p x) ∧ ∀ j x, k < j → xs[j]? = some x → ¬ p x := by
  refine ⟨lastIndex?_eq_some, fun ⟨⟨x, hx, px⟩, last⟩ => ?_⟩
  cases h : lastIndex? p xs with
  | none => exact absurd px (lastIndex?_eq_none_iff.1 h x (List.mem_of_getElem? hx))
  | some i =>
    obtain ⟨⟨y, hy, py⟩, last'⟩ := lastIndex?_eq_some h
    rcases Nat.lt_trichotomy i k with lt | rfl | gt
    · exact absurd px (last' k x lt hx)
    · rfl
    · exact absurd py (last i y gt hy)

variable (textOf : ClassTable → α → String)

/-- A class has an own member of the given text. -/
def HasOwn (text : String) (c : MetaClass) : Prop :=
  ∃ e ∈ members c.table, textOf c.table e = text

/-- The member at an index is the last one of its text in the class `a`. -/
def IsLastOwn (text : String) (a : MetaClass) (k : Nat) : Prop :=
  (∃ e, (members a.table)[k]? = some e ∧ textOf a.table e = text) ∧
    ∀ j e, k < j → (members a.table)[j]? = some e → textOf a.table e ≠ text

theorem lastOwn_eq_none_iff {text : String} {c : MetaClass} :
    (lastIndex? (fun e => textOf c.table e = text) (members c.table)).map (c.offset members + ·) =
      none ↔ ¬ c.HasOwn members textOf text := by
  rw [Option.map_eq_none_iff, lastIndex?_eq_none_iff, HasOwn]
  simp

/-- A look-up by text finds nothing just if no class of the lineage has a member of this text. -/
theorem indexOf?_eq_none_iff {c : MetaClass} {text : String} :
    c.indexOf? members textOf text = none ↔ ∀ a ∈ c.lineage, ¬ a.HasOwn members textOf text := by
  rw [indexOf?, List.findSome?_eq_none_iff]
  exact forall₂_congr fun a _ => lastOwn_eq_none_iff members textOf

/-- A look-up by text finds the last member of this text in the nearest class that has one. -/
theorem indexOf?_eq_some_iff {c : MetaClass} {text : String} {i : Nat} :
    c.indexOf? members textOf text = some i ↔
      ∃ below a above k, c.lineage = below ++ a :: above ∧
        (∀ b ∈ below, ¬ b.HasOwn members textOf text) ∧
        IsLastOwn members textOf text a k ∧ i = a.offset members + k := by
  rw [indexOf?, List.findSome?_eq_some_iff]
  constructor
  · rintro ⟨below, a, above, split, found, none⟩
    obtain ⟨k, hk, rfl⟩ := Option.map_eq_some_iff.1 found
    obtain ⟨⟨e, he, text⟩, last⟩ := lastIndex?_eq_some hk
    refine ⟨below, a, above, k, split, fun b hb => ?_, ⟨⟨e, he, by simpa using text⟩, ?_⟩, rfl⟩
    · exact (lastOwn_eq_none_iff members textOf).1 (none b hb)
    · intro j e hj he same
      exact last j e hj he (by simpa using same)
  · rintro ⟨below, a, above, k, split, none, ⟨⟨e, he, text⟩, last⟩, rfl⟩
    refine ⟨below, a, above, split, Option.map_eq_some_iff.2 ⟨k, ?_, rfl⟩, fun b hb => ?_⟩
    · refine lastIndex?_eq_some_iff.2 ⟨⟨e, he, by simpa using text⟩, fun j e hj he same => ?_⟩
      exact last j e hj he (by simpa using same)
    · exact (lastOwn_eq_none_iff members textOf).2 (none b hb)

/-! ## Numbers -/

/-- The place of a member: the class that declares it and the index there. -/
def Member.place (m : Member α) : MetaClass × Nat :=
  (m.owner, m.index - m.owner.offset members)

theorem sum_lineage (c : MetaClass) :
    (c.lineage.map fun a => (members a.table).length).sum = c.count members := by
  rw [← length_places, places, List.length_flatMap, List.map_reverse, List.sum_reverse]
  exact congrArg List.sum (List.map_congr_left fun a _ => by simp [ownPlaces])

/-- How `count`, `at?` and `indexOf?` number the members of a class. -/
structure Numbered (count : MetaClass → Nat) (at? : MetaClass → Nat → Option (Member α))
    (indexOf? : MetaClass → String → Option Nat) (c : MetaClass) : Prop where
  /-- Each class of the lineage counts with its own members. -/
  count_eq : count c = (c.lineage.map fun a => (members a.table).length).sum
  isSome_iff (i : Nat) : (at? c i).isSome ↔ i < count c
  /-- The indices go along the row: the root class first, each class in the order of its table. -/
  row : (List.range (count c)).map (fun i => (at? c i).map (Member.place members)) =
    (c.places members).map some
  /-- Each member of each class of the lineage has a place in the row. -/
  mem_row (a : MetaClass) (k : Nat) :
    (a, k) ∈ c.places members ↔ a ∈ c.lineage ∧ k < (members a.table).length
  /-- No member comes twice. -/
  nodup_row : (c.places members).Nodup
  /-- What is found is the entry in the table of the class that declares it. -/
  entry (i : Nat) (m : Member α) : at? c i = some m →
    m.index = i ∧ ∃ k, i = m.owner.offset members + k ∧
      (members m.owner.table)[k]? = some m.entry
  /-- An index means the same member in a class above. -/
  inherited : ∀ a ∈ c.lineage, ∀ i < count a, at? c i = at? a i
  /-- A text leads to the last member of this text in the nearest class that has one. -/
  found_iff (text : String) (i : Nat) : indexOf? c text = some i ↔
    ∃ below a above k, c.lineage = below ++ a :: above ∧
      (∀ b ∈ below, ¬ b.HasOwn members textOf text) ∧
      IsLastOwn members textOf text a k ∧ i = a.offset members + k
  not_found_iff (text : String) : indexOf? c text = none ↔
    ∀ a ∈ c.lineage, ¬ a.HasOwn members textOf text

theorem numbered (c : MetaClass) :
    Numbered members textOf (count members) (memberAt? members) (indexOf? members textOf) c where
  count_eq := (sum_lineage members c).symm
  isSome_iff _ := isSome_memberAt?_iff members
  row := by
    refine List.ext_getElem? fun i => ?_
    rw [List.getElem?_map, List.getElem?_map]
    by_cases inside : i < c.count members
    · rw [List.getElem?_range inside, Option.map_some]
      obtain ⟨m, hm⟩ := Option.isSome_iff_exists.1 ((isSome_memberAt?_iff members).2 inside)
      obtain ⟨index, k, hp, -⟩ := (memberAt?_eq_some_iff members).1 hm
      obtain ⟨-, -, e⟩ := index_of_getElem?_places members hp
      rw [hm, hp, Option.map_some, Option.map_some, Member.place, index, e, Nat.add_sub_cancel_left]
    · have outside : (c.places members)[i]? = none :=
        List.getElem?_eq_none (by rw [length_places]; omega)
      rw [outside, List.getElem?_eq_none (by rw [List.length_range]; omega)]
      rfl
  mem_row _ _ := mem_places members
  nodup_row := nodup_places members c
  entry i m hm := by
    obtain ⟨index, k, hp, he⟩ := (memberAt?_eq_some_iff members).1 hm
    obtain ⟨-, -, e⟩ := index_of_getElem?_places members hp
    exact ⟨index, k, e, he⟩
  inherited _ ha _ hi := memberAt?_of_mem_lineage members ha hi
  found_iff _ _ := indexOf?_eq_some_iff members textOf
  not_found_iff _ := indexOf?_eq_none_iff members textOf

end MetaClass

namespace Registry

/-! ## Main theorem -/

/-- The methods, properties and enumerations of every class that is registered after any run of
registrations are numbered through its lineage, whose classes are all registered. -/
theorem members_have_absolute_indices [Json.Library] (calls : List Call) (c : MetaClass)
    (known : c ∈ (({} : Registry).run calls).classes) :
    (∀ a ∈ c.lineage, (({} : Registry).run calls).get? a.name = some a) ∧
    c.Numbered ClassTable.methods ClassTable.signature
      MetaClass.methodCount MetaClass.method? MetaClass.indexOfCanonical? ∧
    c.Numbered ClassTable.properties (fun t p => t.string p.name)
      MetaClass.propertyCount MetaClass.property? MetaClass.indexOfProperty? ∧
    c.Numbered ClassTable.enums (fun t e => t.string e.name)
      MetaClass.enumCount MetaClass.enum? MetaClass.indexOfEnum? := by
  have consistent := consistent_run calls
  refine ⟨fun a ha => consistent.get?_name (consistent.of_mem_lineage known ha).1, ?_, ?_, ?_⟩
  · exact MetaClass.numbered _ _ c
  · exact MetaClass.numbered _ _ c
  · exact MetaClass.numbered _ _ c

/-! ### A lineage -/

/-- A table of methods without parameters, which are named by the strings from `first` on. -/
def plainTable (strings : List String) (superClass : Option StringIndex)
    (methods : List (StringIndex × MethodKind)) : ClassTable where
  className := 0
  superClass
  strings
  classInfo := []
  methods := methods.map fun (signature, kind) =>
    { name := signature, signature, digest := 0, returnType := 0, parameterTypes := []
      declaredTypes := [], parameterNames := [], kind, access := .isPublic, cloned := false }
  properties := []
  enums := []

/-- A class with a signal and a slot. -/
def gate : ClassTable :=
  plainTable ["Gate", "opened()", "shut()"] none [(1, .signal), (2, .slot)]

/-- A class below the gate that adds nothing. -/
def passage : ClassTable :=
  plainTable ["Passage", "Gate"] (some 1) []

/-- A class below the passage with a slot of its own that the gate has too. -/
def door : ClassTable :=
  plainTable ["Door", "Passage", "shut()"] (some 1) [(2, .slot)]

/-- The door inherits the slot of the gate at its index there and finds its own after it. -/
theorem door_keeps_indices_of_gate :
    let c : MetaClass := ⟨door, [passage, gate]⟩
    c ∈ (({} : Registry).run [.table gate, .table passage, .table door]).classes ∧
      c.method? 1 = (⟨gate, []⟩ : MetaClass).method? 1 ∧ (c.method? 2).isSome ∧
      c.indexOfCanonical? "shut()" = some 2 := by
  intro c
  have known : c ∈ (({} : Registry).run [.table gate, .table passage, .table door]).classes := by
    decide
  obtain ⟨-, methods, -, -⟩ := members_have_absolute_indices _ c known
  refine ⟨known, methods.inherited ⟨gate, []⟩ (by decide) 1 (by decide),
    (methods.isSome_iff 2).2 (by decide), (methods.found_iff "shut()" 2).2 ?_⟩
  refine ⟨[], c, [⟨passage, [gate]⟩, ⟨gate, []⟩], 0, rfl, nofun, ⟨⟨_, rfl, by decide⟩, ?_⟩, by decide⟩
  intro j e after none
  obtain ⟨j, rfl⟩ := Nat.exists_eq_succ_of_ne_zero (Nat.ne_zero_of_lt after)
  cases none

end Registry
end Reflection

import Reflection.MetaClass
/-!
# Lineages

The lineage of a class is the class itself followed by the lineage of the class that it is linked to.
-/

namespace Reflection.MetaClass

/-! ## The classes above -/

/-- The lineage, one class at a time. -/
theorem lineage_eq (c : MetaClass) :
    c.lineage = c :: (c.parent?.map lineage).getD [] := by
  obtain ⟨t, ts⟩ := c
  cases ts with
  | nil => rfl
  | cons u us => rfl

@[simp] theorem parent?_linked (t : ClassTable) (p : Option MetaClass) :
    (linked t p).parent? = p := by
  cases p with
  | none => rfl
  | some p => rfl

@[simp] theorem table_linked (t : ClassTable) (p : Option MetaClass) : (linked t p).table = t := by
  cases p with
  | none => rfl
  | some p => rfl

@[simp] theorem name_linked (t : ClassTable) (p : Option MetaClass) :
    (linked t p).name = t.name := by
  rw [name, table_linked]

@[simp] theorem superName?_linked (t : ClassTable) (p : Option MetaClass) :
    (linked t p).superName? = t.superName? := by
  rw [superName?, table_linked]

theorem length_ancestors_of_parent? {c p : MetaClass} (h : c.parent? = some p) :
    c.ancestors.length = p.ancestors.length + 1 := by
  obtain ⟨t, ts⟩ := c
  cases ts with
  | nil => cases h
  | cons u us => cases h; rfl

/-- A class with no class above it is its own lineage; above any other stands the lineage of its
parent. So what holds of a class when it holds of its parent holds of every class. -/
theorem parent_induction {motive : MetaClass → Prop}
    (step : ∀ c, (∀ p, c.parent? = some p → motive p) → motive c) (c : MetaClass) : motive c := by
  induction h : c.ancestors.length using Nat.strongRecOn generalizing c with
  | ind n ih =>
    refine step c fun p hp => ih _ ?_ p rfl
    rw [← h, length_ancestors_of_parent? hp]
    exact Nat.lt_succ_self _

/-! ## Own members -/

/-- The index of an own member leads to it. -/
theorem memberAt?_own {α : Type} (members : ClassTable → List α) (c : MetaClass) (i : Nat) :
    c.memberAt? members (c.offset members + i) =
      (members c.table)[i]?.map (⟨c, ·, c.offset members + i⟩) := by
  have found : (c.lineage.find? fun m => decide (m.offset members ≤ c.offset members + i)) = some c := by
    rw [lineage_eq, List.find?_cons_of_pos (by simp)]
  rw [memberAt?, found]
  simp only [Nat.add_sub_cancel_left]

/-- What an index leads to is a member of a class of the lineage. -/
theorem mem_of_memberAt? {α : Type} {members : ClassTable → List α} {c : MetaClass} {i : Nat}
    {m : Member α} (h : c.memberAt? members i = some m) :
    m.owner ∈ c.lineage ∧ m.entry ∈ members m.owner.table := by
  rw [memberAt?] at h
  split at h
  · cases h
  · rename_i owner found
    obtain ⟨e, he, rfl⟩ := Option.map_eq_some_iff.1 h
    exact ⟨List.mem_of_find?_eq_some found, List.mem_of_getElem? he⟩

end Reflection.MetaClass

import Mathlib.Data.List.Nodup
import Reflection.Proofs.Registry.Growth
/-!
# Consistent registries

What holds of the registered classes after every run (`consistent_run`): names are unique, a class is
linked to the class that it declares as its base, no class derives from itself, and all tables are
valid. `registered_classes_stay_sound` spells out what follows for the classes and their members.
-/

namespace Reflection.Registry

open Relation (ReflTransGen TransGen)

/-- A registered class declares another registered class as its base. -/
def Derives (r : Registry) (a b : String) : Prop :=
  r.Declares [] a b ∧ r.contains b = true

/-- What holds of all registered classes. -/
structure Consistent (r : Registry) : Prop where
  names_nodup : (r.classes.map (·.name)).Nodup
  /-- The class above is the one that is registered under the declared name. -/
  parent : ∀ c ∈ r.classes, ∀ p, c.parent? = some p →
    ∃ base, c.superName? = some base ∧ r.get? base = some p
  acyclic : ∀ name, ¬ TransGen (r.Declares []) name name
  valid : ∀ c ∈ r.classes, c.table.validate = .ok ()

variable {r : Registry}

theorem mem_of_get? {name : String} {c : MetaClass} (h : r.get? name = some c) :
    c ∈ r.classes ∧ c.name = name :=
  ⟨List.mem_of_find?_eq_some h, by simpa using List.find?_some h⟩

theorem get?_of_nodup (nodup : (r.classes.map (·.name)).Nodup) {c : MetaClass} (hc : c ∈ r.classes) :
    r.get? c.name = some c := by
  obtain ⟨c', hc'⟩ : ∃ c', r.get? c.name = some c' := by
    cases found : r.get? c.name with
    | some c' => exact ⟨c', rfl⟩
    | none => exact absurd (decide_eq_true rfl) (List.find?_eq_none.1 found c hc)
  obtain ⟨hm, hn⟩ := mem_of_get? hc'
  rw [hc', List.inj_on_of_nodup_map nodup hm hc hn]

theorem Consistent.get?_name (h : r.Consistent) {c : MetaClass} (hc : c ∈ r.classes) :
    r.get? c.name = some c :=
  get?_of_nodup h.names_nodup hc

/-! ## Adding a class keeps the registry consistent -/

theorem declares_add {t : ClassTable} (free : r.get? t.name = none) {a b : String} :
    (r.add t).2.Declares [] a b ↔ if a = t.name then t.superName? = some b else r.Declares [] a b := by
  rw [Declares, declaredBase?_nil, get?_add free]
  split
  · show (some (MetaClass.linked t _)).bind _ = _ ↔ _
    rw [Option.bind_some, MetaClass.superName?_linked]
  · exact Iff.rfl

/-- The way to the new class does not lead through it. -/
theorem reaches_of_reaches_add {t : ClassTable} (free : r.get? t.name = none) {a : String}
    (chain : ReflTransGen ((r.add t).2.Declares []) a t.name) :
    ReflTransGen (r.Declares []) a t.name := by
  induction chain using ReflTransGen.head_induction_on with
  | refl => exact .refl
  | head step _ ih =>
    rw [declares_add free] at step
    split at step
    · rename_i e
      rw [e]
    · exact .head step ih

/-- A chain in the grown registry either was there before or leads through the new class. -/
theorem transGen_add {t : ClassTable} (free : r.get? t.name = none) {a b : String}
    (chain : TransGen ((r.add t).2.Declares []) a b) :
    TransGen (r.Declares []) a b ∨
      ReflTransGen ((r.add t).2.Declares []) a t.name ∧
        ∃ y, t.superName? = some y ∧ ReflTransGen ((r.add t).2.Declares []) y b := by
  induction chain with
  | @single b step =>
    rw [declares_add free] at step
    split at step
    · rename_i e
      exact .inr ⟨e ▸ .refl, b, step, .refl⟩
    · exact .inl (.single step)
  | @tail x b before step ih =>
    rcases ih with old | ⟨back, y, hy, rest⟩
    · have step' := step
      rw [declares_add free] at step
      split at step
      · rename_i e
        exact .inr ⟨e ▸ before.to_reflTransGen, b, step, .refl⟩
      · exact .inl (.tail old step)
    · exact .inr ⟨back, y, hy, rest.tail step⟩

theorem Consistent.add (h : r.Consistent) {t : ClassTable} (ht : r.Admissible t) :
    (r.add t).2.Consistent where
  names_nodup := by
    show ((r.classes ++ [_]).map _).Nodup
    rw [List.map_append, List.map_singleton, MetaClass.name_linked]
    refine List.nodup_append.2 ⟨h.names_nodup, List.nodup_singleton _, ?_⟩
    intro a ha b hb e
    obtain ⟨c, hc, rfl⟩ := List.mem_map.1 ha
    rw [List.mem_singleton] at hb
    have := h.get?_name hc
    rw [e, hb, ht.free] at this
    cases this
  parent := by
    have keeps : ∀ base p, r.get? base = some p → (r.add t).2.get? base = some p :=
      fun base p hp => get?_of_grown (.single (.add ht)) hp
    intro c hc p hp
    rcases List.mem_append.1 hc with hc | hc
    · obtain ⟨base, hb, hp⟩ := h.parent c hc p hp
      exact ⟨base, hb, keeps base p hp⟩
    · rw [List.mem_singleton.1 hc, MetaClass.parent?_linked] at hp
      obtain ⟨base, hb, hp⟩ := Option.bind_eq_some_iff.1 hp
      refine ⟨base, ?_, keeps base p hp⟩
      rw [List.mem_singleton.1 hc, MetaClass.superName?_linked, hb]
  acyclic := by
    intro name cycle
    -- A new cycle goes through the new class, whose check followed the rest of it.
    rcases transGen_add ht.free cycle with old | ⟨back, y, hy, rest⟩
    · exact h.acyclic name old
    · exact ht.clear y hy (reaches_of_reaches_add ht.free (rest.trans back))
  valid := by
    intro c hc
    rcases List.mem_append.1 hc with hc | hc
    · exact h.valid c hc
    · rw [List.mem_singleton.1 hc, MetaClass.table_linked]
      exact ht.valid

theorem consistent_empty : ({} : Registry).Consistent where
  names_nodup := .nil
  parent _ h := nomatch h
  acyclic name cycle := by
    obtain ⟨_, step, _⟩ := TransGen.head'_iff.1 cycle
    cases step
  valid _ h := nomatch h

theorem Consistent.of_grown {r' : Registry} (h : r.Consistent) (grown : r.Grown r') : r'.Consistent := by
  induction grown with
  | refl => exact h
  | tail _ step ih =>
    cases step with
    | guard g => exact ⟨ih.names_nodup, ih.parent, ih.acyclic, ih.valid⟩
    | add admissible => exact ih.add admissible

/-- The registry is consistent after every run. -/
theorem consistent_run [Json.Library] (calls : List Call) : (({} : Registry).run calls).Consistent :=
  consistent_empty.of_grown (grown_run calls)

/-! ## Lineages of registered classes -/

/-- All classes above a registered class are registered, under names that chains of declared bases
lead to. -/
theorem Consistent.of_mem_lineage (h : r.Consistent) {c m : MetaClass} (hc : c ∈ r.classes)
    (hm : m ∈ c.lineage) :
    m ∈ r.classes ∧ ReflTransGen (r.Declares []) c.name m.name := by
  induction c using MetaClass.parent_induction with
  | step c ih =>
    rw [MetaClass.lineage_eq] at hm
    rcases List.mem_cons.1 hm with rfl | hm
    · exact ⟨hc, .refl⟩
    · cases hp : c.parent? with
      | none => simp [hp] at hm
      | some p =>
        obtain ⟨base, hb, found⟩ := h.parent c hc p hp
        obtain ⟨hpm, hpn⟩ := mem_of_get? found
        rw [hp] at hm
        obtain ⟨hmm, chain⟩ := ih p hp hpm hm
        refine ⟨hmm, .head ?_ chain⟩
        rw [Declares, declaredBase?_nil, h.get?_name hc, hpn]
        exact hb

/-- No name comes twice in the lineage of a registered class. -/
theorem Consistent.nodup_lineage (h : r.Consistent) {c : MetaClass} (hc : c ∈ r.classes) :
    (c.lineage.map (·.name)).Nodup := by
  induction c using MetaClass.parent_induction with
  | step c ih =>
    rw [MetaClass.lineage_eq]
    cases hp : c.parent? with
    | none => exact List.nodup_singleton _
    | some p =>
      obtain ⟨base, hb, found⟩ := h.parent c hc p hp
      obtain ⟨hpm, hpn⟩ := mem_of_get? found
      refine List.nodup_cons.2 ⟨?_, ih p hp hpm⟩
      intro again
      obtain ⟨m, hm, e⟩ := List.mem_map.1 again
      obtain ⟨-, chain⟩ := h.of_mem_lineage hpm hm
      refine h.acyclic c.name (.head' ?_ (e ▸ chain))
      rw [Declares, declaredBase?_nil, h.get?_name hc, hpn]
      exact hb

/-- A lineage is not longer than there are classes. -/
theorem Consistent.length_lineage_le (h : r.Consistent) {c : MetaClass} (hc : c ∈ r.classes) :
    c.lineage.length ≤ r.classes.length := by
  have known : c.lineage ⊆ r.classes := fun m hm => (h.of_mem_lineage hc hm).1
  exact ((List.Nodup.of_map _ (h.nodup_lineage hc)).subperm known).length_le

/-- The signal that tells of changes to a property is a signal of the class that declares it. -/
theorem Consistent.notifySignal (h : r.Consistent) {c : MetaClass} (hc : c ∈ r.classes) {i : Nat}
    {p : MetaClass.Property} (hp : c.property? i = some p) {k : UInt32} (hk : p.entry.notify = some k) :
    ∃ m, p.notifySignal? = some m ∧ m.owner = p.owner ∧ p.owner.table.methods[k.toNat]? = some m.entry ∧
      m.entry.kind = .signal := by
  obtain ⟨owner, entry⟩ := MetaClass.mem_of_memberAt? hp
  obtain ⟨m, hm, kind⟩ :=
    ClassTable.signal_of_notify (h.valid _ (h.of_mem_lineage hc owner).1) entry hk
  refine ⟨⟨p.owner, m, p.owner.methodOffset + k.toNat⟩, ?_, rfl, hm, kind⟩
  rw [MetaClass.Property.notifySignal?, hk, Option.bind_some, MetaClass.method?]
  show p.owner.memberAt? _ (p.owner.offset _ + _) = _
  rw [MetaClass.memberAt?_own, hm]
  rfl

/-! ## Main theorem -/

/-- After every run of registrations, whether they succeed or fail:

* a class once registered is the same after whatever is registered later, with its table, the class
  above it and thereby all its offsets;
* the class above a class is the registered class that it declares as its base;
* no class derives from itself, and a lineage is a walk through distinct registered classes;
* all tables are valid, so no string that they refer to is missing, and the signal that tells of
  changes to a property is a signal of the class that declares the property. -/
theorem registered_classes_stay_sound [Json.Library] (calls more : List Call) :
    let r := ({} : Registry).run calls
    (∀ name c, r.get? name = some c → (r.run more).get? name = some c) ∧
    (∀ c ∈ r.classes, r.get? c.name = some c ∧
      ∀ p, c.parent? = some p → ∃ base, c.superName? = some base ∧ r.get? base = some p) ∧
    (∀ name, ¬ TransGen r.Derives name name) ∧
    (∀ c ∈ r.classes, (c.lineage.map (·.name)).Nodup ∧ c.lineage.length ≤ r.classes.length ∧
      ∀ m ∈ c.lineage, m ∈ r.classes) ∧
    (∀ c ∈ r.classes, c.table.validate = .ok () ∧
      (∀ i ∈ c.table.references, c.table.strings[i.toNat]? = some (c.table.string i)) ∧
      ∀ i p k, c.property? i = some p → p.entry.notify = some k →
        ∃ m, p.notifySignal? = some m ∧ m.owner = p.owner ∧
          p.owner.table.methods[k.toNat]? = some m.entry ∧ m.entry.kind = .signal) := by
  intro r
  have h : r.Consistent := consistent_run calls
  refine ⟨fun name c known => get?_of_grown (grown_run more) known, ?_, ?_, ?_, ?_⟩
  · exact fun c hc => ⟨h.get?_name hc, h.parent c hc⟩
  · have le : r.Derives ≤ r.Declares [] := fun _ _ step => step.1
    exact fun name cycle => h.acyclic name (TransGen.mono le name name cycle)
  · exact fun c hc => ⟨h.nodup_lineage hc, h.length_lineage_le hc,
      fun m hm => (h.of_mem_lineage hc hm).1⟩
  · exact fun c hc => ⟨h.valid c hc, fun i hi => ClassTable.string_of_mem_references (h.valid c hc) hi,
      fun i p k hp hk => h.notifySignal hc hp hk⟩

end Reflection.Registry

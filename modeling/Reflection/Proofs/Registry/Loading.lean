import Reflection.Proofs.Registry.Atomicity
/-!
# Tables that load

Tables load together if their names differ, each is valid, and their declared bases do not run in a
circle (`Loadable`). Registering an artifact whose tables load together with the known ones adds a class
for each, one after the other (`registerArtifact_of_loadable`), and so does registering a list of
artifacts (`run_of_loadable`), of which only the first one of each guard counts. Each class is linked to
its declared base if that was there before it (`linked_addAll`).
-/

namespace Reflection.Registry

open Relation (ReflTransGen TransGen)

/-- A table of that name declares the base. -/
def DeclaredIn (ts : List ClassTable) (a b : String) : Prop :=
  ∃ t ∈ ts, t.name = a ∧ t.superName? = some b

/-- Tables that can be registered together. -/
structure Loadable (ts : List ClassTable) : Prop where
  names_nodup : (ts.map (·.name)).Nodup
  valid : ∀ t ∈ ts, t.validate = .ok ()
  acyclic : ∀ name, ¬ TransGen (DeclaredIn ts) name name

/-- The tables of the registered classes, in the order of registration. -/
def tables (r : Registry) : List ClassTable :=
  r.classes.map (·.table)

/-- Adds a class for each table. -/
def addAll (r : Registry) (ts : List ClassTable) : Registry :=
  ts.foldl (fun r t => (r.add t).2) r

variable {r : Registry} {ts : List ClassTable} {t : ClassTable}

/-! ## Names -/

theorem get?_eq_none_iff {name : String} : r.get? name = none ↔ name ∉ r.tables.map (·.name) := by
  simp only [get?, tables, List.find?_eq_none, List.map_map, List.mem_map, Function.comp_apply,
    decide_eq_true_eq, not_exists, not_and]
  exact Iff.rfl

/-- A table whose name differs from those of the known ones is new. -/
theorem get?_eq_none_of_nodup (h : ((r.tables ++ t :: ts).map (·.name)).Nodup) : r.get? t.name = none := by
  rw [get?_eq_none_iff]
  intro known
  rw [List.map_append] at h
  exact (List.nodup_append.1 h).2.2 _ known _ (by simp) rfl

theorem DeclaredIn.mono {more : List ClassTable} (sub : ts ⊆ more) : DeclaredIn ts ≤ DeclaredIn more := by
  rintro a b ⟨t, ht, name, base⟩
  exact ⟨t, sub ht, name, base⟩

/-- What is registered under a name has a table of that name. -/
theorem declaredIn_of_get? {c : MetaClass} {a b : String} (h : r.get? a = some c)
    (base : c.superName? = some b) : DeclaredIn r.tables a b := by
  obtain ⟨mem, name⟩ := mem_of_get? h
  exact ⟨c.table, List.mem_map_of_mem mem, name, base⟩

theorem declares_le_declaredIn : r.Declares [] ≤ DeclaredIn r.tables := by
  intro a b step
  obtain ⟨c, known, base⟩ := Option.bind_eq_some_iff.1 step
  exact declaredIn_of_get? known base

/-- What is pending for an artifact is declared by its tables. -/
theorem declares_pendingOf_le_declaredIn (a : Artifact) :
    r.Declares (pendingOf a) ≤ DeclaredIn (r.tables ++ a.classes) := by
  intro name b step
  rw [Declares, declaredBase?] at step
  split at step
  · rename_i base found
    obtain ⟨front, back, split, -⟩ := List.lookup_eq_some_iff.1 found
    have pending : (name, base) ∈ pendingOf a := List.mem_reverse.1 (by rw [split]; simp)
    obtain ⟨t, ht, e⟩ := List.mem_map.1 pending
    cases e
    exact ⟨t, List.mem_append_right _ ht, rfl, step⟩
  · obtain ⟨c, known, base⟩ := Option.bind_eq_some_iff.1 step
    exact DeclaredIn.mono (List.subset_append_left _ _) _ _ (declaredIn_of_get? known base)

/-- The declared base of a table does not lead back to it. -/
theorem Loadable.clear {R : String → String → Prop} (h : Loadable ts) (le : R ≤ DeclaredIn ts)
    (ht : t ∈ ts) {b : String} (base : t.superName? = some b) : ¬ ReflTransGen R b t.name := by
  intro chain
  have back : ReflTransGen (DeclaredIn ts) b t.name := ReflTransGen.mono le _ _ chain
  exact h.acyclic t.name (.head' ⟨t, ht, rfl, base⟩ back)

/-! ## Adding classes -/

@[simp] theorem addAll_nil : r.addAll [] = r :=
  rfl

@[simp] theorem addAll_cons : r.addAll (t :: ts) = (r.add t).2.addAll ts :=
  rfl

theorem addAll_append (more : List ClassTable) : r.addAll (ts ++ more) = (r.addAll ts).addAll more :=
  List.foldl_append

theorem tables_add : (r.add t).2.tables = r.tables ++ [t] := by
  simp [add, tables]

theorem tables_addAll : (r.addAll ts).tables = r.tables ++ ts := by
  induction ts generalizing r with
  | nil => simp
  | cons t ts ih => rw [addAll_cons, ih, tables_add, List.append_assoc, List.singleton_append]

/-- Guards have no part in adding classes. -/
theorem addAll_guards (guards : List String) :
    ({ r with guards := guards } : Registry).addAll ts = { r.addAll ts with guards := guards } := by
  induction ts generalizing r with
  | nil => rfl
  | cons t ts ih => exact ih (r := (r.add t).2)

theorem get?_add_of_some {name : String} {c : MetaClass} (known : r.get? name = some c) :
    (r.add t).2.get? name = some c := by
  show (r.classes ++ [_]).find? _ = _
  rw [List.find?_append]
  show (r.get? name).or _ = _
  rw [known, Option.some_or]

theorem get?_addAll_of_some {name : String} {c : MetaClass} (known : r.get? name = some c) :
    (r.addAll ts).get? name = some c := by
  induction ts generalizing r with
  | nil => exact known
  | cons t ts ih => exact ih (get?_add_of_some known)

/-- The class of a name that one of the tables has. -/
theorem exists_get?_of_mem {u : ClassTable} (hu : u ∈ r.tables) : ∃ c, r.get? u.name = some c := by
  cases found : r.get? u.name with
  | some c => exact ⟨c, rfl⟩
  | none => exact absurd (List.mem_map_of_mem hu) (get?_eq_none_iff.1 found)

/-- The class of a table is linked to its declared base if that is the name of a table in front of
it. -/
theorem linked_addAll {front back : List ClassTable}
    (nodup : ((r.tables ++ (front ++ t :: back)).map (·.name)).Nodup) :
    let r' := r.addAll (front ++ t :: back)
    ∃ c, r'.get? t.name = some c ∧ c.table = t ∧
      ∀ p, c.parent? = some p ↔
        ∃ u ∈ r.tables ++ front, t.superName? = some u.name ∧ r'.get? u.name = some p := by
  intro r'
  have split : r' = ((r.addAll front).add t).2.addAll back := by
    simp only [r', addAll_append, addAll_cons]
  have later : (((r.addAll front).tables ++ t :: back).map (·.name)).Nodup := by
    rwa [tables_addAll, List.append_assoc]
  have free : (r.addAll front).get? t.name = none := get?_eq_none_of_nodup later
  refine ⟨((r.addAll front).add t).1, ?_, MetaClass.table_linked _ _, fun p => ?_⟩
  · rw [split]
    apply get?_addAll_of_some
    rw [get?_add free, if_pos rfl]
  -- What is known when the class is added stays known, so the base can be looked up later too.
  have stays : ∀ name c, (r.addAll front).get? name = some c → r'.get? name = some c := by
    intro name c known
    rw [split]
    exact get?_addAll_of_some (get?_add_of_some known)
  show (MetaClass.linked t _).parent? = _ ↔ _
  rw [MetaClass.parent?_linked, Option.bind_eq_some_iff, ← tables_addAll]
  constructor
  · rintro ⟨b, base, known⟩
    obtain ⟨mem, name⟩ := mem_of_get? known
    have same : p.table.name = b := name
    exact ⟨p.table, List.mem_map_of_mem mem, by rw [same]; exact base, by rw [same]; exact stays b p known⟩
  · rintro ⟨u, hu, base, later⟩
    obtain ⟨c, known⟩ := exists_get?_of_mem hu
    have same := stays _ _ known
    rw [later] at same
    cases same
    exact ⟨u.name, base, known⟩

/-! ## Registration -/

theorem registerNew_of_loadable (h : Loadable (r.tables ++ ts)) :
    r.registerNew ts = (.ok ts.length, r.addAll ts) := by
  induction ts generalizing r with
  | nil => rfl
  | cons t ts ih =>
    have free : r.get? t.name = none := get?_eq_none_of_nodup h.names_nodup
    have mem : t ∈ r.tables ++ t :: ts := by simp
    have admissible : r.Admissible t := by
      refine ⟨free, h.valid t mem, fun b base => h.clear (fun a c step => ?_) mem base⟩
      exact DeclaredIn.mono (List.subset_append_left _ _) _ _ (declares_le_declaredIn _ _ step)
    have taken : r.registerTable t = .ok (r.add t) :=
      registerTable_eq_ok_iff.2 (.inr ⟨admissible, rfl⟩)
    have unknown : ¬ r.contains t.name = true := by simp [contains, free]
    have later : (r.add t).2.registerNew ts = (.ok ts.length, (r.add t).2.addAll ts) := by
      apply ih
      rwa [tables_add, List.append_assoc]
    rw [registerNew, if_neg unknown, taken]
    simp only [later]
    rfl

theorem checkArtifact_of_loadable {a : Artifact} (version : a.version = formatVersion)
    (h : Loadable (r.tables ++ a.classes)) : r.checkArtifact a = .ok () := by
  rw [checkArtifact_eq_ok_iff]
  refine ⟨version, fun t ht => ?_⟩
  have mem : t ∈ r.tables ++ a.classes := List.mem_append_right _ ht
  exact ⟨h.valid t mem, fun b base => h.clear (declares_pendingOf_le_declaredIn a) mem base⟩

/-- An artifact whose tables load together with the known ones is registered as a whole. -/
theorem registerArtifact_of_loadable {a : Artifact} (version : a.version = formatVersion)
    (fresh : a.guard ∉ r.guards) (h : Loadable (r.tables ++ a.classes)) :
    r.registerArtifact a =
      (.ok a.classes.length, { r.addAll a.classes with guards := a.guard :: r.guards }) := by
  rw [registerArtifact_of_not_mem (checkArtifact_of_loadable version h) fresh, ← addAll_guards]
  exact registerNew_of_loadable h

theorem Loadable.of_sublist {more : List ClassTable} (h : Loadable more) (sub : ts.Sublist more) :
    Loadable ts where
  names_nodup := h.names_nodup.sublist (sub.map _)
  valid t ht := h.valid t (sub.subset ht)
  acyclic name cycle := h.acyclic name (TransGen.mono (DeclaredIn.mono sub.subset) name name cycle)

/-- The artifacts of which none before has the guard, nor is it among `known`. -/
def firstOf (known : List String) : List Artifact → List Artifact
  | [] => []
  | a :: as => if a.guard ∈ known then firstOf known as else a :: firstOf (a.guard :: known) as

theorem firstOf_eq_self {known : List String} {as : List Artifact}
    (h : (known ++ as.map (·.guard)).Nodup) : firstOf known as = as := by
  induction as generalizing known with
  | nil => rfl
  | cons a as ih =>
    have fresh : a.guard ∉ known := by
      intro there
      exact (List.nodup_append.1 h).2.2 _ there _ (by simp) rfl
    rw [firstOf, if_neg fresh, ih]
    rw [List.map_cons] at h
    exact (List.Perm.nodup_iff List.perm_middle).1 h

/-- Artifacts whose tables load together are registered one by one. One with the guard of an earlier
one adds nothing. -/
theorem run_of_loadable [Json.Library] {as : List Artifact} (version : ∀ a ∈ as, a.version = formatVersion)
    (h : Loadable (r.tables ++ as.flatMap (·.classes))) :
    (r.run (as.map .artifact)).classes = (r.addAll ((firstOf r.guards as).flatMap (·.classes))).classes ∧
      ∀ (before : List Artifact) (a : Artifact) (after : List Artifact), as = before ++ a :: after →
        ((r.run (before.map .artifact)).registerArtifact a).1 =
          .ok (if a.guard ∈ r.guards ++ before.map (·.guard) then 0 else a.classes.length) := by
  induction as generalizing r with
  | nil =>
    refine ⟨rfl, fun before a after split => ?_⟩
    simp at split
  | cons first as ih =>
    obtain ⟨version, versions⟩ := List.forall_mem_cons.1 version
    rw [List.flatMap_cons] at h
    have own : Loadable (r.tables ++ first.classes) :=
      h.of_sublist (List.Sublist.append (List.Sublist.refl _) (List.sublist_append_left _ _))
    by_cases known : first.guard ∈ r.guards
    · have same := registerArtifact_of_mem (checkArtifact_of_loadable version own) known
      have next : r.call (.artifact first) = r := by rw [call, same]
      obtain ⟨classes, each⟩ := ih (r := r) versions
        (h.of_sublist (List.Sublist.append (List.Sublist.refl _) (List.sublist_append_right _ _)))
      constructor
      · rw [firstOf, if_pos known, ← classes]
        show ((r.call (.artifact first)).run (as.map .artifact)).classes = _
        rw [next]
      · intro before a after split
        cases before with
        | nil =>
          cases split
          rw [List.map_nil, run, List.foldl_nil, same]
          simp [known]
        | cons b before =>
          cases split
          show (((r.call (.artifact first)).run (before.map .artifact)).registerArtifact a).1 = _
          rw [next, each before a after rfl]
          have guards : a.guard ∈ r.guards ++ before.map (·.guard) ↔
              a.guard ∈ r.guards ++ (first :: before).map (·.guard) := by
            simp only [List.mem_append, List.map_cons, List.mem_cons]
            constructor
            · exact Or.imp_right .inr
            · rintro (there | same | there)
              · exact .inl there
              · exact .inl (same ▸ known)
              · exact .inr there
          simp only [guards]
    · have registered := registerArtifact_of_loadable version known own
      -- The registry in which the remaining artifacts are registered.
      have next : r.call (.artifact first) =
          { r.addAll first.classes with guards := first.guard :: r.guards } := by
        rw [call, registered]
      obtain ⟨classes, each⟩ := ih (r := r.call (.artifact first)) versions
        (by
          rw [next]
          show Loadable ((r.addAll first.classes).tables ++ _)
          rwa [tables_addAll, List.append_assoc])
      rw [next] at classes each
      constructor
      · show ((r.call (.artifact first)).run (as.map .artifact)).classes = _
        rw [next, classes, addAll_guards, firstOf, if_neg known, List.flatMap_cons, addAll_append]
      · intro before a after split
        cases before with
        | nil =>
          cases split
          rw [List.map_nil, run, List.foldl_nil, registered]
          simp [known]
        | cons b before =>
          cases split
          show (((r.call (.artifact first)).run (before.map .artifact)).registerArtifact a).1 = _
          rw [next, each before a after rfl]
          simp only [List.mem_append, List.map_cons, List.mem_cons, or_assoc, or_left_comm]

end Reflection.Registry

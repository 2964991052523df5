import Reflection.Proofs.Batch.Compiling
import Reflection.Proofs.MetaClass.Places
import Reflection.Proofs.Registry.Loading
/-!
# Loading what a batch compiles to

That a batch has an order says that its classes do not derive from each other in a circle. The registry
knows bases by their declared names only. These lead from class to class just as the bases of the batch
do, as long as names differ, since a base that stands for no class of the batch is no name of one. So
the tables of a batch load together (`loadable_artifacts`), and
`compiled_batch_loads` says what the registry then holds.
-/

namespace Reflection

open Relation (TransGen)

/-! ## Members by signature -/

/-- An own method is found by its signature if no other own method has it. -/
theorem MetaClass.indexOfCanonical?_own {c : MetaClass}
    (nodup : (c.table.methods.map c.table.signature).Nodup) {j : Nat} {m : MethodEntry}
    (there : c.table.methods[j]? = some m) :
    c.indexOfCanonical? (c.table.signature m) = some (c.methodOffset + j) := by
  rw [indexOfCanonical?, indexOf?_eq_some_iff]
  refine ⟨[], c, (c.parent?.map lineage).getD [], j, lineage_eq c, List.forall_mem_nil _,
    ⟨⟨m, there, rfl⟩, fun k e later other same => ?_⟩, rfl⟩
  have lt : j < (c.table.methods.map c.table.signature).length := by
    rw [List.length_map]
    exact (List.getElem?_eq_some_iff.1 there).1
  have equal : j = k := by
    apply (List.getElem?_inj lt nodup).1
    rw [List.getElem?_map, List.getElem?_map, there, other, Option.map_some, Option.map_some, same]
  omega

namespace Batch

open Registry (Loadable DeclaredIn)

variable {x : ClassIndex} {order : List Nat} {compiled : List CompiledFile} {t : ClassTable}

/-! ## Tables of a batch -/

/-- Declared bases lead from class to class as the bases of the batch do. -/
theorem transGen_basesOf (names : x.DistinctNames) (plain : x.PlainBases) {ts : List ClassTable}
    (compiles : ∀ t ∈ ts, ∃ i, x.Compiles i t) {a b : String} (chain : TransGen (DeclaredIn ts) a b) :
    ∀ i j, i < x.size → j < x.size → x.nameOf i = a → x.nameOf j = b →
      TransGen (fun i j => j ∈ x.basesOf i) i j := by
  have step : ∀ a b, DeclaredIn ts a b → ∀ i j, i < x.size → j < x.size → x.nameOf i = a →
      x.nameOf j = b → j ∈ x.basesOf i := by
    rintro _ b ⟨t, ht, rfl, base⟩ i j hi hj name rfl
    obtain ⟨k, compiled⟩ := compiles t ht
    obtain rfl : i = k := names.inj hi compiled.lt (name.trans compiled.name)
    obtain ⟨e, he, ok⟩ := compiled
    rw [ClassIndex.superName?_tableOf ok, ClassIndex.superName?_eq_nameOf_iff names
      (plain e (List.mem_of_getElem? he)) hj] at base
    exact ClassIndex.mem_basesOf_of_firstBase? he base
  induction chain with
  | single h => exact fun i j hi hj ha hb => .single (step _ _ h i j hi hj ha hb)
  | @tail b c _ h ih =>
    intro i j hi hj ha hc
    -- The class in the middle declares a base, so it is one of the batch.
    obtain ⟨t, ht, name, base⟩ := h
    obtain ⟨k, compiled⟩ := compiles t ht
    have hk := compiled.name.symm.trans name
    exact .tail (ih i k hi compiled.lt ha hk)
      (step b c ⟨t, ht, name, base⟩ k j compiled.lt hj hk hc)

theorem map_name_of_compiles {is : List Nat} {ts : List ClassTable} (h : List.Forall₂ x.Compiles is ts) :
    ts.map (·.name) = is.map x.nameOf := by
  induction h with
  | nil => rfl
  | cons first _ ih => rw [List.map_cons, List.map_cons, ih, first.name]

/-- The tables of the files that compiled load together. -/
theorem loadable_artifacts (ok : x.order = .ok order) (tabulates : Tabulates x order 0 compiled)
    (names : x.DistinctNames) (plain : x.PlainBases)
    (fits : ∀ a ∈ artifactsOf compiled, ∀ t ∈ a.classes, t.strings.length < 2 ^ 32) :
    Loadable ((artifactsOf compiled).flatMap (·.classes)) := by
  obtain ⟨placed, perm⟩ := ClassIndex.placed_order ok
  have tables := compiles_loadOrder tabulates
  have compiles : ∀ t ∈ (artifactsOf compiled).flatMap (·.classes), ∃ i, x.Compiles i t := by
    intro t ht
    obtain ⟨i, -, compiled⟩ := exists_left_of_mem tables t ht
    exact ⟨i, compiled⟩
  refine ⟨?_, fun t ht => ?_, fun name cycle => ?_⟩
  · have same : ((artifactsOf compiled).flatMap (·.classes)).map (·.name) =
        (loadOrder x order 0 compiled).map x.nameOf := map_name_of_compiles tables
    rw [same]
    apply (nodup_loadOrder placed compiled).map_on
    intro i hi j hj
    have inside : ∀ k ∈ loadOrder x order 0 compiled, k < x.size := fun k hk =>
      List.mem_range.1 (perm.mem_iff.1 (mem_loadOrder_iff.1 hk).1)
    exact names.inj (inside i hi) (inside j hj)
  · obtain ⟨i, e, -, made⟩ := compiles t ht
    obtain ⟨a, ha, mem⟩ := List.mem_flatMap.1 ht
    have few := Nat.le_of_lt (fits a ha t mem)
    exact ClassIndex.validate_tableOf made few (Nat.le_trans (ClassIndex.length_methods_le made few) few)
  · obtain ⟨b, ⟨t, ht, first, -⟩, -⟩ := TransGen.head'_iff.1 cycle
    obtain ⟨i, compiled⟩ := compiles t ht
    have hi : x.nameOf i = name := compiled.name.symm.trans first
    have circle := transGen_basesOf names plain compiles cycle i i compiled.lt compiled.lt hi hi
    exact placed.acyclic (perm.mem_iff.2 (List.mem_range.2 compiled.lt)) circle

/-! ## Registered classes -/

/-- The registry after the artifacts of a batch. -/
def load [Json.Library] (compiled : List CompiledFile) : Registry :=
  ({} : Registry).run ((artifactsOf compiled).map .artifact)

/-- A class of the batch as it is registered: its table, the class above it, which is the one that its
first base stands for if that comes from the same or an earlier file, and its own methods by signature. -/
structure Loaded [Json.Library] (x : ClassIndex) (compiled : List CompiledFile) (e : IndexedClass) (t : ClassTable)
    (c : MetaClass) : Prop where
  known : (load compiled).get? e.declaration.name = some c
  table : c.table = t
  parent : ∀ p, c.parent? = some p ↔ ∃ j b, x.firstBase? e.declaration = some j ∧
    x.entries[j]? = some b ∧ b.file ≤ e.file ∧ Compiled compiled b.file ∧
    (load compiled).get? b.declaration.name = some p
  indices : ∀ j m, t.methods[j]? = some m →
    c.indexOfCanonical? (t.signature m) = some (c.methodOffset + j)

/-- The declared base of a class names a class in front of it just if the first base stands for one in
the same or an earlier file that compiled. -/
theorem base_in_front_iff (ordered : x.order = .ok order) (names : x.DistinctNames)
    (plain : x.PlainBases) {front back : List Nat} {i : Nat} {e : IndexedClass}
    {fronts : List ClassTable} (split : loadOrder x order 0 compiled = front ++ i :: back)
    (hi : x.entries[i]? = some e) (before : List.Forall₂ x.Compiles front fronts) (name : String) :
    (∃ u ∈ fronts, x.superName? e.declaration = some u.name ∧ u.name = name) ↔
      ∃ j b, x.firstBase? e.declaration = some j ∧ x.entries[j]? = some b ∧ b.file ≤ e.file ∧
        Compiled compiled b.file ∧ b.declaration.name = name := by
  have plain_e := plain e (List.mem_of_getElem? hi)
  constructor
  · rintro ⟨u, hu, base, rfl⟩
    obtain ⟨j, hj, made⟩ := exists_left_of_mem before u hu
    rw [made.name, ClassIndex.superName?_eq_nameOf_iff names plain_e made.lt] at base
    obtain ⟨b, hb, table⟩ := made
    have derives := ClassIndex.mem_basesOf_of_firstBase? hi base
    obtain ⟨le, compiles⟩ := (mem_front_iff ordered split hi hb derives).1 hj
    exact ⟨j, b, base, hb, le, compiles, (ClassIndex.name_tableOf table).symm⟩
  · rintro ⟨j, b, base, hb, le, compiles, rfl⟩
    have derives := ClassIndex.mem_basesOf_of_firstBase? hi base
    have hj := (mem_front_iff ordered split hi hb derives).2 ⟨le, compiles⟩
    obtain ⟨u, hu, made⟩ := exists_right_of_mem before j hj
    refine ⟨u, hu, ?_, made.name.trans (ClassIndex.nameOf_eq hb)⟩
    rw [made.name, ClassIndex.superName?_eq_nameOf_iff names plain_e made.lt]
    exact base

theorem version_of_mem (tabulates : Tabulates x order 0 compiled) :
    ∀ a ∈ artifactsOf compiled, a.version = formatVersion := by
  intro a ha
  obtain ⟨f, hf, result⟩ := mem_artifactsOf_iff.1 ha
  obtain ⟨k, there⟩ := List.getElem?_of_mem hf
  exact (tabulates k f a there result).1

theorem load_of_loadable [Json.Library] (tabulates : Tabulates x order 0 compiled)
    (guards : ((artifactsOf compiled).map (·.guard)).Nodup)
    (loadable : Loadable ((artifactsOf compiled).flatMap (·.classes))) :
    (load compiled).classes =
        (({} : Registry).addAll ((artifactsOf compiled).flatMap (·.classes))).classes ∧
      ∀ (before : List Artifact) (a : Artifact) (after : List Artifact),
        artifactsOf compiled = before ++ a :: after →
        ((({} : Registry).run (before.map .artifact)).registerArtifact a).1 = .ok a.classes.length := by
  obtain ⟨classes, each⟩ := Registry.run_of_loadable (r := {}) (version_of_mem tabulates) loadable
  rw [Registry.firstOf_eq_self guards] at classes
  refine ⟨classes, fun before a after split => ?_⟩
  rw [each before a after split, if_neg]
  -- The guards of different artifacts differ.
  rw [split, List.map_append] at guards
  intro there
  exact (List.nodup_append.1 guards).2.2 _ there _ (by simp) rfl

/-- A class whose file compiled is registered with its table. -/
theorem exists_loaded [Json.Library] (ordered : x.order = .ok order) (tabulates : Tabulates x order 0 compiled)
    (names : x.DistinctNames) (plain : x.PlainBases)
    (guards : ((artifactsOf compiled).map (·.guard)).Nodup)
    (fits : ∀ a ∈ artifactsOf compiled, ∀ t ∈ a.classes, t.strings.length < 2 ^ 32)
    {e : IndexedClass} (he : e ∈ x.entries) {f : CompiledFile} {a : Artifact}
    (there : compiled[e.file]? = some f) (result : f.result = .ok a) :
    ∃ t ∈ a.classes, x.tableOf e.declaration = .ok t ∧ ∃ c, Loaded x compiled e t c := by
  have loadable := loadable_artifacts ordered tabulates names plain fits
  have get : ∀ name, (load compiled).get? name =
      (({} : Registry).addAll ((artifactsOf compiled).flatMap (·.classes))).get? name := by
    intro name
    rw [Registry.get?, Registry.get?, (load_of_loadable tabulates guards loadable).1]
  -- The class has a place in the order of loading, and its table the same place among the tables.
  obtain ⟨i, hi⟩ := List.getElem?_of_mem he
  have file : x.fileOf? i = some e.file := by
    rw [ClassIndex.fileOf?, hi]
    rfl
  have inOrder : i ∈ order := by
    rw [(ClassIndex.placed_order ordered).2.mem_iff, List.mem_range]
    exact (List.getElem?_eq_some_iff.1 hi).1
  have loaded : i ∈ loadOrder x order 0 compiled :=
    mem_loadOrder_iff.2 ⟨inOrder, e.file, by rw [file, Nat.zero_add], f, a, there, result⟩
  obtain ⟨front, back, split⟩ := List.append_of_mem loaded
  have tables := compiles_loadOrder tabulates
  rw [split] at tables
  obtain ⟨fronts, t, backs, split', ⟨e', he', made⟩, before⟩ := exists_split_right tables
  obtain rfl : e = e' := Option.some.inj (hi.symm.trans he')
  have mem : t ∈ a.classes := by
    have own := (tabulates e.file f a there result).2
    rw [Nat.zero_add] at own
    have number : i ∈ x.numbersOf order e.file :=
      List.mem_filter.2 ⟨inOrder, by simpa using file⟩
    obtain ⟨u, hu, e', he', made'⟩ := exists_right_of_mem own i number
    obtain rfl : e = e' := Option.some.inj (hi.symm.trans he')
    rw [made] at made'
    exact Except.ok.inj made' ▸ hu
  have nodup := loadable.names_nodup
  rw [split'] at nodup
  obtain ⟨c, known, table, parent⟩ := Registry.linked_addAll (r := {}) nodup
  rw [← split'] at known parent
  refine ⟨t, mem, made, c, ?_, table, fun p => ?_, fun j m hm => ?_⟩
  · rw [get, ← ClassIndex.name_tableOf made]
    exact known
  · rw [parent p, ClassIndex.superName?_tableOf made]
    have bases := base_in_front_iff ordered names plain split hi before
    constructor
    · rintro ⟨u, hu, base, above⟩
      obtain ⟨j, b, first, hb, le, compiles, name⟩ := (bases u.name).1 ⟨u, hu, base, rfl⟩
      exact ⟨j, b, first, hb, le, compiles, by rw [name, get]; exact above⟩
    · rintro ⟨j, b, first, hb, le, compiles, above⟩
      obtain ⟨u, hu, base, name⟩ := (bases _).2 ⟨j, b, first, hb, le, compiles, rfl⟩
      exact ⟨u, hu, base, by rw [name, ← get]; exact above⟩
  · have known := mem_artifactsOf_iff.2 ⟨f, List.mem_of_getElem? there, result⟩
    obtain ⟨ms, describes, -, lists⟩ := ClassIndex.described made (Nat.le_of_lt (fits a known t mem))
    subst table
    apply MetaClass.indexOfCanonical?_own _ hm
    rw [ClassIndex.map_signature describes]
    exact lists.nodup

/-! ## Main statement -/

theorem compileAs_eq_ok {o : Options} {count : Nat} {files : List SourceFile}
    (h : compileAs o count files = .ok compiled) :
    ∃ order, (indexOf files).order = .ok order ∧ Tabulates (indexOf files) order 0 compiled := by
  rw [compileAs_eq] at h
  cases ordered : (indexOf files).order with
  | error c =>
    simp only [ordered] at h
    cases h
  | ok order =>
    simp only [ordered] at h
    cases h
    exact ⟨order, rfl, tabulates_compileFrom 0 files⟩

/-- The classes of a batch have different names, so have its artifacts, no base is written with more
than one double colon in front, and no table has more strings than can be numbered. Then the artifacts
of the files that compiled are registered one after the other, and each call returns the number of its
classes. The registry holds their tables and no others. Each class of a file that compiled is
registered with its table. The class above it is the one that its first base stands for if the file of
that one compiled and is not a later one; otherwise it is a root class. Each own method is found by its
signature at its place. -/
theorem compiled_batch_loads [Json.Library] (o : Options) (files : List SourceFile) (compiled : List CompiledFile)
    (ok : compile o files = .ok compiled)
    (names : ((indexOf files).entries.map (·.declaration.name)).Nodup)
    (guards : ((artifactsOf compiled).map (·.guard)).Nodup)
    (plain : ∀ e ∈ (indexOf files).entries, ∀ base ∈ e.declaration.bases,
      ¬ "::::".toList <+: base.toList)
    (fits : ∀ a ∈ artifactsOf compiled, ∀ t ∈ a.classes, t.strings.length < 2 ^ 32) :
    (∀ before a after, artifactsOf compiled = before ++ a :: after →
      ((({} : Registry).run (before.map .artifact)).registerArtifact a).1 = .ok a.classes.length) ∧
    (load compiled).tables = (artifactsOf compiled).flatMap (·.classes) ∧
    ∀ e ∈ (indexOf files).entries, ∀ f a, compiled[e.file]? = some f → f.result = .ok a →
      ∃ t ∈ a.classes, (indexOf files).tableOf e.declaration = .ok t ∧
        ∃ c, Loaded (indexOf files) compiled e t c := by
  obtain ⟨order, ordered, tabulates⟩ := compileAs_eq_ok ok
  have loadable := loadable_artifacts ordered tabulates names plain fits
  obtain ⟨classes, each⟩ := load_of_loadable tabulates guards loadable
  refine ⟨each, ?_, fun e he f a there result =>
    exists_loaded ordered tabulates names plain guards fits he there result⟩
  rw [Registry.tables, classes]
  exact Registry.tables_addAll

/-- Three files. The second one asks for an enumeration that is not there, so it does not compile. -/
def tower : List SourceFile :=
  [⟨"tower.h", "class Tower { H_OBJECT signals: void struck(); };"⟩,
   ⟨"clock.h", "class Clock : Tower { H_OBJECT H_ENUM(Hour) };"⟩,
   ⟨"bells.h", "class Chime : Clock { H_OBJECT }; class Bell : ::Tower, Rope { H_OBJECT };"⟩]

/-- `Bell` is linked to `Tower`, which comes from an earlier file. `Chime` is a root class, since the
file of `Clock` does not compile. -/
theorem tower_loads :
    ∃ compiled, compile {} tower = .ok compiled ∧
      (load compiled).tables.map (·.name) = ["Tower", "Chime", "Bell"] ∧
      ∃ above bell chime, (load compiled).get? "Tower" = some above ∧
        (load compiled).get? "Bell" = some bell ∧ bell.parent? = some above ∧
        (load compiled).get? "Chime" = some chime ∧ chime.parent? = none := by
  have made : (compile {} tower).map (fun compiled => compiled.map fun f => f.result.toOption.map
      fun a => (a.guard, a.classes.map (·.name), a.classes.map (·.strings.length))) =
        .ok [some ("TOWER", ["Tower"], [4]), none, some ("BELLS", ["Chime", "Bell"], [2, 2])] := by
    decide +kernel
  have index : (indexOf tower).entries.map (fun e => (e.file, e.declaration.name, e.declaration.bases,
      (indexOf tower).firstBase? e.declaration)) =
        [(0, "Tower", [], none), (1, "Clock", ["Tower"], some 0), (2, "Chime", ["Clock"], some 1),
          (2, "Bell", ["::Tower", "Rope"], some 0)] := by
    decide +kernel
  generalize hx : indexOf tower = x at index
  obtain ⟨e₀, _, entries, v₀, index⟩ := List.map_eq_cons_iff.1 index
  obtain ⟨e₁, _, rfl, v₁, index⟩ := List.map_eq_cons_iff.1 index
  obtain ⟨e₂, _, rfl, v₂, index⟩ := List.map_eq_cons_iff.1 index
  obtain ⟨e₃, _, rfl, v₃, index⟩ := List.map_eq_cons_iff.1 index
  obtain rfl := List.map_eq_nil_iff.1 index
  simp only [Prod.mk.injEq] at v₀ v₁ v₂ v₃
  cases ok : compile {} tower with
  | error c =>
    rw [ok] at made
    cases made
  | ok compiled =>
    rw [ok] at made
    obtain ⟨f₀, _, rfl, m₀, made⟩ := List.map_eq_cons_iff.1 (Except.ok.inj made)
    obtain ⟨f₁, _, rfl, m₁, made⟩ := List.map_eq_cons_iff.1 made
    obtain ⟨f₂, _, rfl, m₂, made⟩ := List.map_eq_cons_iff.1 made
    obtain rfl := List.map_eq_nil_iff.1 made
    obtain ⟨a₀, r₀, w₀⟩ := Option.map_eq_some_iff.1 m₀
    obtain ⟨a₂, r₂, w₂⟩ := Option.map_eq_some_iff.1 m₂
    have r₁ := Option.map_eq_none_iff.1 m₁
    have artifacts : artifactsOf [f₀, f₁, f₂] = [a₀, a₂] := by simp [artifactsOf, r₀, r₁, r₂]
    simp only [Prod.mk.injEq] at w₀ w₂
    have few : ∀ {ts : List ClassTable} {ns : List Nat}, ts.map (·.strings.length) = ns →
        (∀ n ∈ ns, n < 2 ^ 32) → ∀ t ∈ ts, t.strings.length < 2 ^ 32 := by
      rintro ts _ rfl small t ht
      exact small _ (List.mem_map_of_mem ht)
    obtain ⟨-, tables, loaded⟩ := compiled_batch_loads {} tower [f₀, f₁, f₂] ok
      (by simp [hx, entries, v₀, v₁, v₂, v₃])
      (by simp [artifacts, w₀, w₂])
      (by
        rw [hx, entries]
        simp only [List.forall_mem_cons, v₀, v₁, v₂, v₃]
        decide)
      (by
        rw [artifacts]
        exact List.forall_mem_cons.2
          ⟨few w₀.2.2 (by decide), List.forall_mem_singleton.2 (few w₂.2.2 (by decide))⟩)
    rw [hx] at loaded
    refine ⟨_, rfl, by simp [tables, artifacts, w₀, w₂], ?_⟩
    have at₀ : x.entries[0]? = some e₀ := by rw [entries]; rfl
    have at₁ : x.entries[1]? = some e₁ := by rw [entries]; rfl
    have result₀ := toOption_eq_some_iff.1 r₀
    have result₂ := toOption_eq_some_iff.1 r₂
    obtain ⟨t₀, -, -, above, l₀⟩ := loaded e₀ (by simp [entries]) f₀ a₀ (by simp [v₀]) result₀
    obtain ⟨t₂, -, -, chime, l₂⟩ := loaded e₂ (by simp [entries]) f₂ a₂ (by simp [v₂]) result₂
    obtain ⟨t₃, -, -, bell, l₃⟩ := loaded e₃ (by simp [entries]) f₂ a₂ (by simp [v₃]) result₂
    have known₀ := l₀.known
    have known₂ := l₂.known
    have known₃ := l₃.known
    rw [v₀.2.1] at known₀
    rw [v₂.2.1] at known₂
    rw [v₃.2.1] at known₃
    refine ⟨above, bell, chime, known₀, known₃, ?_, known₂, ?_⟩
    · refine (l₃.parent above).2 ⟨0, e₀, v₃.2.2.2, at₀, by simp [v₀, v₃], ⟨f₀, a₀, ?_, result₀⟩, l₀.known⟩
      rw [v₀.1]
      rfl
    · cases root : chime.parent? with
      | none => rfl
      | some p =>
        obtain ⟨j, b, first, hb, -, ⟨f, a, there, result⟩, -⟩ := (l₂.parent p).1 root
        rw [v₂.2.2.2] at first
        cases first
        rw [at₁] at hb
        cases hb
        rw [v₁.1] at there
        cases there
        rw [result] at r₁
        cases r₁

end Batch
end Reflection

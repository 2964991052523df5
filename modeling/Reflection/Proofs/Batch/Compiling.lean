import Reflection.Proofs.Batch.Building
import Reflection.Proofs.ClassIndex.Order
import Reflection.Proofs.ClassIndex.Tables
/-!
# What a batch compiles to

The table of a class has the name of the class, and as its base the name of the class that the first
base stands for (`name_tableOf`, `superName?_tableOf`). The tables of all files that compile are the
tables of the classes in these files, one file after the other and within a file in the order of the
batch (`numbersOf`, `compiles_tablesOfFile`). So a class that another one derives from comes before it
just if its file compiles and is not a later one (`mem_front_iff`).
-/

namespace Reflection

open Relation (TransGen)

/-! ## Names of tables -/

namespace TableBuilder

/-- The table has a name and a declared base. -/
structure Heads (name : String) (base : Option String) (b : TableBuilder) : Prop where
  name : Spells b.table.strings b.table.className name
  base : b.table.superClass.map (fun i => b.table.strings[i.toNat]?) = base.map some

variable {name : String} {base : Option String} {b b' : TableBuilder}

/-- What is added leaves them as they are. -/
theorem Heads.mono (h : Heads name base b) (strings : b.table.strings <+: b'.table.strings)
    (className : b'.table.className = b.table.className)
    (superClass : b'.table.superClass = b.table.superClass) : Heads name base b' := by
  constructor
  · rw [className]
    exact h.name.mono strings
  · have found := h.base
    rw [superClass]
    cases super : b.table.superClass with
    | none =>
      rw [super] at found
      exact found
    | some i =>
      rw [super] at found
      cases base with
      | none => cases found
      | some text =>
        have spelled : Spells b.table.strings i text := Option.some.inj found
        exact congrArg some (spelled.mono strings)

theorem Heads.eq (h : Heads name base b) : b.table.name = name ∧ b.table.superName? = base := by
  refine ⟨h.name.string, ?_⟩
  have found := h.base
  rw [ClassTable.superName?]
  cases super : b.table.superClass with
  | none =>
    rw [super] at found
    cases base with
    | none => rfl
    | some text => cases found
  | some i =>
    rw [super] at found
    cases base with
    | none => cases found
    | some text =>
      have spelled : Spells b.table.strings i text := Option.some.inj found
      rw [Option.map_some, spelled.string]

theorem heads_start (name : String) (base : Option String) : Heads name base (start name base) := by
  obtain ⟨place, superClass, strings, table, -, first, second⟩ := start_table name base
  constructor
  · rw [table]
    exact first
  · rw [table]
    cases second with
    | none => rfl
    | some spells => exact congrArg some spells

theorem Heads.addClassInfo (h : Heads name base b) (key value : String) :
    Heads name base (b.addClassInfo key value) := by
  obtain ⟨i, j, strings, table, grows, -⟩ := b.addClassInfo_table key value
  apply h.mono <;> rw [table]
  exact grows

theorem Heads.addMethod (h : Heads name base b) (m : MethodSpec) : Heads name base (b.addMethod m) := by
  obtain ⟨e, strings, table, grows, -⟩ := b.addMethod_table m
  apply h.mono <;> rw [table]
  exact grows

theorem Heads.addProperty (h : Heads name base b) (text type : String) (flags : PropertyFlags)
    (notify : Option Nat) : Heads name base (b.addProperty text type flags notify) := by
  obtain ⟨i, j, strings, table, grows, -⟩ := b.addProperty_table text type flags notify
  apply h.mono <;> rw [table]
  exact grows

theorem Heads.addEnum (h : Heads name base b) (text : String) (isFlag isScoped : Bool)
    (keys : List (String × Int64)) : Heads name base (b.addEnum text isFlag isScoped keys) := by
  obtain ⟨i, is, strings, table, grows, -⟩ := b.addEnum_table text isFlag isScoped keys
  apply h.mono <;> rw [table]
  exact grows

end TableBuilder

namespace ClassIndex

variable {x : ClassIndex} {d : ClassDeclaration} {t : ClassTable} {order : List Nat} {i j : Nat}

open TableBuilder (Heads)

theorem heads_tableOf (h : x.tableOf d = .ok t) : ∃ b, Heads d.name (x.superName? d) b ∧ b.table = t := by
  have notes : Heads d.name (x.superName? d) (x.notesOf d) := by
    unfold notesOf
    refine List.foldlRecOn _ _ (TableBuilder.heads_start _ _) fun b hb note _ => ?_
    exact hb.addClassInfo note.1 note.2
  unfold tableOf at h
  obtain ⟨ms, -, h⟩ := bind_eq_ok_iff.1 h
  obtain ⟨b₁, properties, h⟩ := bind_eq_ok_iff.1 h
  obtain ⟨b₂, enums, h⟩ := bind_eq_ok_iff.1 h
  have methods : Heads d.name (x.superName? d) (ms.foldl TableBuilder.addMethod (x.notesOf d)) :=
    List.foldlRecOn _ _ notes fun b hb m _ => hb.addMethod m
  have properties : Heads d.name (x.superName? d) b₁ := by
    refine foldlM_keeps (P := Heads d.name (x.superName? d)) (fun hb ok => ?_) methods properties
    obtain ⟨notify, -, eq⟩ := bind_eq_ok_iff.1 ok
    cases eq
    exact hb.addProperty ..
  have enums : Heads d.name (x.superName? d) b₂ := by
    refine foldlM_keeps (P := Heads d.name (x.superName? d)) (fun hb ok => ?_) properties enums
    unfold addEnum at ok
    split at ok
    · cases ok
      exact hb.addEnum ..
    · cases ok
  exact ⟨b₂, enums, Except.ok.inj h⟩

theorem name_tableOf (h : x.tableOf d = .ok t) : t.name = d.name := by
  obtain ⟨b, heads, rfl⟩ := heads_tableOf h
  exact heads.eq.1

theorem superName?_tableOf (h : x.tableOf d = .ok t) : t.superName? = x.superName? d := by
  obtain ⟨b, heads, rfl⟩ := heads_tableOf h
  exact heads.eq.2

/-- A table has no more methods than strings, as their signatures differ. -/
theorem length_methods_le (h : x.tableOf d = .ok t) (fits : t.strings.length ≤ UInt32.size) :
    t.methods.length ≤ t.strings.length := by
  obtain ⟨ms, describes, -, lists⟩ := described h fits
  have nodup : (t.methods.map t.signature).Nodup := by
    rw [map_signature describes]
    exact lists.nodup
  have kept : t.methods.map t.signature ⊆ t.strings := by
    intro text there
    obtain ⟨e, he, rfl⟩ := List.mem_map.1 there
    obtain ⟨m, -, describes⟩ := exists_right_of_mem describes e he
    have spelled := describes.signature
    rw [ClassTable.signature, spelled.string]
    exact List.mem_of_getElem? spelled
  have le := (nodup.subperm kept).length_le
  rwa [List.length_map] at le

/-! ## Names of bases -/

/-- No two classes of the batch have one name. -/
def DistinctNames (x : ClassIndex) : Prop :=
  (x.entries.map (·.declaration.name)).Nodup

/-- No base is written with more than one double colon in front. -/
def PlainBases (x : ClassIndex) : Prop :=
  ∀ e ∈ x.entries, ∀ base ∈ e.declaration.bases, ¬ "::::".toList <+: base.toList

theorem nameOf_eq {e : IndexedClass} (h : x.entries[i]? = some e) : x.nameOf i = e.declaration.name := by
  rw [nameOf, get?, h]
  rfl

theorem DistinctNames.inj (h : x.DistinctNames) (hi : i < x.size) (hj : j < x.size)
    (same : x.nameOf i = x.nameOf j) : i = j := by
  have name : ∀ k, k < x.size → (x.entries.map (·.declaration.name))[k]? = some (x.nameOf k) := by
    intro k hk
    have there : x.entries[k]? = some x.entries[k] := List.getElem?_eq_getElem hk
    rw [List.getElem?_map, there, Option.map_some, nameOf_eq there]
  apply (List.getElem?_inj (by rwa [List.length_map]) h).1
  rw [name i hi, name j hj, same]

/-- A class is found by its name. -/
theorem exists_find?_nameOf (hi : i < x.size) : ∃ k, x.find? (x.nameOf i) = some k := by
  rw [nameOf_eq (List.getElem?_eq_getElem hi)]
  cases found : x.find? x.entries[i].declaration.name with
  | some k => exact ⟨k, rfl⟩
  | none =>
    have none := List.findIdx?_eq_none_iff.1 found x.entries[i] (List.getElem_mem hi)
    simp at none

/-- The name that an unresolved base is left with is among those that were looked up. -/
theorem dropGlobal_mem_candidates (scope base : String) (plain : ¬ "::::".toList <+: base.toList) :
    String.ofList (dropGlobal base.toList) ∈ candidates scope base := by
  unfold candidates
  split
  · rename_i name spelled
    rw [spelled] at plain ⊢
    have once : dropGlobal name = name := by
      unfold dropGlobal
      split
      · rename_i rest
        exact absurd ⟨rest, rfl⟩ plain
      · rfl
    rw [dropGlobal, once]
    exact List.mem_singleton_self _
  · rename_i other
    have same : dropGlobal base.toList = base.toList := by
      unfold dropGlobal
      split
      · rename_i rest spelled
        exact absurd spelled (other rest)
      · rfl
    rw [same, String.ofList_toList]
    exact List.mem_append_right _ (List.mem_singleton_self _)

/-- The declared base of a class is the name of a class of the batch just if the first base stands
for that class. -/
theorem superName?_eq_nameOf_iff (names : x.DistinctNames)
    (plain : ∀ base ∈ d.bases, ¬ "::::".toList <+: base.toList) (hj : j < x.size) :
    x.superName? d = some (x.nameOf j) ↔ x.firstBase? d = some j := by
  unfold superName? firstBase?
  cases first : d.bases.head? with
  | none => simp
  | some base =>
    simp only [Option.map_some, Option.bind_some, Option.some.injEq]
    cases found : x.resolve? d base with
    | some k =>
      have hk : k < x.size := by
        obtain ⟨name, -, h⟩ := List.exists_of_findSome?_eq_some found
        exact lt_of_find? h
      constructor
      · intro same
        rw [names.inj hk hj same]
      · intro same
        rw [Option.some.inj same]
    | none =>
      constructor
      · intro same
        -- The name was looked up, so no class of the batch has it.
        have tried := dropGlobal_mem_candidates d.scope base (plain base (List.mem_of_mem_head? first))
        have unknown := List.findSome?_eq_none_iff.1 found _ tried
        obtain ⟨k, known⟩ := exists_find?_nameOf hj
        rw [← same] at known
        rw [known] at unknown
        cases unknown
      · intro none
        cases none

theorem mem_basesOf_of_firstBase? {e : IndexedClass} (he : x.entries[i]? = some e)
    (first : x.firstBase? e.declaration = some j) : j ∈ x.basesOf i := by
  obtain ⟨base, head, found⟩ := Option.bind_eq_some_iff.1 first
  rw [mem_basesOf_iff]
  exact ⟨e.declaration, by rw [get?, he]; rfl, base, List.mem_of_mem_head? head, found⟩

/-! ## The classes of a file -/

/-- The number of the file that declares a class. -/
def fileOf? (x : ClassIndex) (i : Nat) : Option Nat :=
  x.entries[i]?.map (·.file)

/-- The table is that of the class with a number. -/
def Compiles (x : ClassIndex) (i : Nat) (t : ClassTable) : Prop :=
  ∃ e, x.entries[i]? = some e ∧ x.tableOf e.declaration = .ok t

theorem Compiles.lt (h : x.Compiles i t) : i < x.size := by
  obtain ⟨e, he, -⟩ := h
  exact (List.getElem?_eq_some_iff.1 he).1

theorem Compiles.name (h : x.Compiles i t) : t.name = x.nameOf i := by
  obtain ⟨e, he, ok⟩ := h
  rw [name_tableOf ok, nameOf_eq he]

/-- The classes of a file, in the order of the batch. -/
def numbersOf (x : ClassIndex) (order : List Nat) (file : Nat) : List Nat :=
  order.filter (x.fileOf? · = some file)

/-- The tables of a file are those of its classes. -/
theorem compiles_tablesOfFile {file : Nat} {ts : List ClassTable}
    (h : x.tablesOfFile order file = .ok ts) :
    List.Forall₂ x.Compiles (x.numbersOf order file) ts := by
  rw [tablesOfFile, mapM_eq_ok_iff] at h
  unfold numbersOf fileOf?
  induction order generalizing ts with
  | nil =>
    cases h
    exact .nil
  | cons i order ih =>
    rw [List.filterMap_cons] at h
    cases he : x.entries[i]? with
    | none =>
      rw [he] at h
      rw [List.filter_cons_of_neg (by simp [he])]
      exact ih h
    | some e =>
      by_cases here : e.file = file
      · simp only [he, Option.filter_some, here, decide_true, if_true] at h
        rw [List.filter_cons_of_pos (by simp [he, here])]
        obtain ⟨t, ts', ok, rest, rfl⟩ := List.forall₂_cons_left_iff.1 h
        exact .cons ⟨e, he, ok⟩ (ih rest)
      · simp only [he, Option.filter_some, here, decide_false, Bool.false_eq_true, if_false] at h
        rw [List.filter_cons_of_neg (by simp [he, here])]
        exact ih h

end ClassIndex

/-! ## The files of a batch -/

namespace Batch

variable {x : ClassIndex} {order : List Nat} {o : Options} {count : Nat}

/-- The artifacts of the files that compiled, in their order. -/
def artifactsOf (compiled : List CompiledFile) : List Artifact :=
  compiled.filterMap fun f => f.result.toOption

/-- The file with a number compiled. -/
def Compiled (compiled : List CompiledFile) (file : Nat) : Prop :=
  ∃ f a, compiled[file]? = some f ∧ f.result = .ok a

/-- The classes of the files that compiled, file by file. The first file has number `first`. -/
def loadOrder (x : ClassIndex) (order : List Nat) (first : Nat) : List CompiledFile → List Nat
  | [] => []
  | f :: files =>
    (if f.result.isOk then x.numbersOf order first else []) ++ loadOrder x order (first + 1) files

theorem artifactsOf_cons (f : CompiledFile) (files : List CompiledFile) :
    artifactsOf (f :: files) = f.result.toOption.toList ++ artifactsOf files := by
  rw [artifactsOf, List.filterMap_cons]
  cases f.result <;> rfl

theorem mem_artifactsOf_iff {compiled : List CompiledFile} {a : Artifact} :
    a ∈ artifactsOf compiled ↔ ∃ f ∈ compiled, f.result = .ok a := by
  simp only [artifactsOf, List.mem_filterMap, toOption_eq_some_iff]

/-- The artifacts have the present version and hold the tables of the classes of their files. The
first file has number `first`. -/
def Tabulates (x : ClassIndex) (order : List Nat) (first : Nat) (compiled : List CompiledFile) : Prop :=
  ∀ k f a, compiled[k]? = some f → f.result = .ok a →
    a.version = formatVersion ∧ List.Forall₂ x.Compiles (x.numbersOf order (first + k)) a.classes

theorem Tabulates.tail {first : Nat} {f : CompiledFile} {files : List CompiledFile}
    (h : Tabulates x order first (f :: files)) : Tabulates x order (first + 1) files := by
  intro k g a there ok
  have found := h (k + 1) g a there ok
  rwa [← Nat.add_assoc, Nat.add_right_comm] at found

theorem tabulates_compileFrom (first : Nat) (files : List SourceFile) :
    Tabulates x order first (compileFrom o count x order first files) := by
  induction files generalizing first with
  | nil =>
    intro k f a there
    cases there
  | cons file files ih =>
    intro k f a there ok
    cases k with
    | zero =>
      cases there
      cases made : tablesOf x order first file with
      | error e =>
        rw [made] at ok
        cases ok
      | ok ts =>
        rw [made] at ok
        cases ok
        obtain ⟨classes, -, tables⟩ := bind_eq_ok_iff.1 made
        exact ⟨rfl, ClassIndex.compiles_tablesOfFile (mapError_eq_ok_iff.1 tables)⟩
    | succ k =>
      have found := ih (first + 1) k f a there ok
      rwa [Nat.add_right_comm] at found

/-! ## The order in which classes are loaded -/

variable {compiled : List CompiledFile} {first i j : Nat}

/-- The tables of all artifacts are those of the classes in the order of loading. -/
theorem compiles_loadOrder (h : Tabulates x order first compiled) :
    List.Forall₂ x.Compiles (loadOrder x order first compiled)
      ((artifactsOf compiled).flatMap (·.classes)) := by
  induction compiled generalizing first with
  | nil => exact .nil
  | cons f files ih =>
    rw [loadOrder, artifactsOf_cons, List.flatMap_append]
    apply List.rel_append _ (ih h.tail)
    cases result : f.result with
    | error e => exact .nil
    | ok a =>
      have tables := (h 0 f a rfl result).2
      simpa [Except.toOption, Except.isOk, Except.toBool] using tables

theorem mem_loadOrder_iff :
    i ∈ loadOrder x order first compiled ↔
      i ∈ order ∧ ∃ k, x.fileOf? i = some (first + k) ∧ Compiled compiled k := by
  induction compiled generalizing first with
  | nil => simp [loadOrder, Compiled]
  | cons f files ih =>
    rw [loadOrder, List.mem_append, ih]
    constructor
    · rintro (here | ⟨mem, k, file, g, a, there, ok⟩)
      · cases result : f.result with
        | error e => simp [result, Except.isOk, Except.toBool] at here
        | ok a =>
          simp only [result, Except.isOk, Except.toBool, if_true, ClassIndex.numbersOf, List.mem_filter,
            decide_eq_true_eq] at here
          exact ⟨here.1, 0, here.2, f, a, rfl, result⟩
      · exact ⟨mem, k + 1, by rw [file, Nat.add_assoc, Nat.add_comm 1], g, a, there, ok⟩
    · rintro ⟨mem, k, file, g, a, there, ok⟩
      cases k with
      | zero =>
        cases there
        left
        simpa [ok, Except.isOk, Except.toBool, ClassIndex.numbersOf] using ⟨mem, file⟩
      | succ k => exact .inr ⟨mem, k, by rw [file, Nat.add_assoc, Nat.add_comm 1], g, a, there, ok⟩

/-- What comes before a class is another one, in no later file, and if it is in the same file, it does
not derive from the class. -/
structure Precedes (x : ClassIndex) (i j : Nat) : Prop where
  ne : i ≠ j
  files : ∀ a b, x.fileOf? i = some a → x.fileOf? j = some b → a ≤ b
  apart : x.fileOf? i = x.fileOf? j → j ∉ x.basesOf i

theorem pairwise_precedes (placed : ClassIndex.Placed x.basesOf order) (first : Nat)
    (compiled : List CompiledFile) : (loadOrder x order first compiled).Pairwise (Precedes x) := by
  induction compiled generalizing first with
  | nil => exact .nil
  | cons f files ih =>
    have here : ∀ i ∈ x.numbersOf order first, x.fileOf? i = some first := by
      intro i hi
      simpa using (List.mem_filter.1 hi).2
    have own : (x.numbersOf order first).Pairwise (Precedes x) := by
      have ordered := (placed.nodup.and placed.sorted).filter (x.fileOf? · = some first)
      refine (List.Pairwise.and_mem.1 ordered).imp fun {i j} ⟨hi, hj, ne, apart⟩ => ?_
      refine ⟨ne, fun a b ha hb => ?_, fun _ => apart⟩
      rw [here i hi] at ha
      rw [here j hj] at hb
      cases ha
      cases hb
      exact Nat.le_refl first
    rw [loadOrder, List.pairwise_append]
    refine ⟨?_, ih (first + 1), fun i hi j hj => ?_⟩
    · split
      · exact own
      · exact .nil
    · have file : x.fileOf? i = some first := by
        split at hi
        · exact here i hi
        · cases hi
      obtain ⟨-, k, later, -⟩ := mem_loadOrder_iff.1 hj
      have differ : x.fileOf? i ≠ x.fileOf? j := by
        rw [file, later]
        intro same
        have := Option.some.inj same
        omega
      refine ⟨fun same => differ (same ▸ rfl), fun a b ha hb => ?_, fun same => absurd same differ⟩
      rw [file] at ha
      rw [later] at hb
      cases ha
      cases hb
      omega

theorem nodup_loadOrder (placed : ClassIndex.Placed x.basesOf order) (compiled : List CompiledFile) :
    (loadOrder x order 0 compiled).Nodup :=
  (pairwise_precedes placed 0 compiled).imp fun h => h.ne

/-- A class that another one derives from is loaded before it just if its file compiled and is not a
later one. -/
theorem mem_front_iff (ok : x.order = .ok order) {front back : List Nat}
    (split : loadOrder x order 0 compiled = front ++ i :: back) {e b : IndexedClass}
    (he : x.entries[i]? = some e) (hb : x.entries[j]? = some b) (base : j ∈ x.basesOf i) :
    j ∈ front ↔ b.file ≤ e.file ∧ Compiled compiled b.file := by
  obtain ⟨placed, perm⟩ := ClassIndex.placed_order ok
  have file_i : x.fileOf? i = some e.file := by rw [ClassIndex.fileOf?, he]; rfl
  have file_j : x.fileOf? j = some b.file := by rw [ClassIndex.fileOf?, hb]; rfl
  have sorted := pairwise_precedes placed 0 compiled
  rw [split, List.pairwise_append, List.pairwise_cons] at sorted
  have mem : ∀ k, k ∈ loadOrder x order 0 compiled ↔
      k ∈ order ∧ ∃ file, x.fileOf? k = some file ∧ Compiled compiled file := by
    intro k
    simp [mem_loadOrder_iff]
  constructor
  · intro before
    have loaded : j ∈ loadOrder x order 0 compiled := split ▸ List.mem_append_left _ before
    obtain ⟨-, file, there, compiles⟩ := (mem j).1 loaded
    rw [file_j] at there
    cases there
    exact ⟨(sorted.2.2 j before i List.mem_cons_self).files _ _ file_j file_i, compiles⟩
  · rintro ⟨le, compiles⟩
    have ordered : j ∈ order := by
      rw [perm.mem_iff, List.mem_range]
      exact x.lt_of_mem_basesOf i j base
    have loaded := (mem j).2 ⟨ordered, b.file, file_j, compiles⟩
    rw [split, List.mem_append, List.mem_cons] at loaded
    rcases loaded with before | rfl | after
    · exact before
    · exact absurd (.single base) (placed.acyclic ordered)
    · -- The class would come before its base, and so in an earlier file.
      have precedes := sorted.2.1.1 j after
      have same : e.file = b.file := Nat.le_antisymm (precedes.files _ _ file_i file_j) le
      exact absurd base (precedes.apart (by rw [file_i, file_j, same]))

end Batch
end Reflection

import Mathlib.Data.List.Perm.Basic
import Reflection.Proofs.Batch.Compiling
import Reflection.Proofs.ClassIndex.ByName
/-!
# The order of the files of a batch

The tables of a file are those of its classes, one each, in an order that depends on the batch
(`perm_classesOf`). Where the classes of a batch have different names, another order of its files leaves
each class its table. So the batch has an order of classes or none in both cases, and each file compiles
in both or in none, to the same tables but for their order
(`compiled_files_do_not_depend_on_their_order`).
-/

namespace Reflection

namespace ClassIndex

variable {x : ClassIndex} {order : List Nat} {file : Nat}

/-! ## The classes of a file -/

/-- The classes with the number of a file are those that it declares. -/
theorem filter_entriesOf (k : Nat) (files : List (List ClassDeclaration)) :
    ((entriesOf 0 files).filter (·.file = k)).map (·.declaration) = (files[k]?).getD [] := by
  induction files generalizing k with
  | nil => rfl
  | cons classes files ih =>
    rw [entriesOf, entriesOf_succ, List.filter_append, List.map_append]
    cases k with
    | zero => simp [List.filter_map, Function.comp_def]
    | succ k =>
      rw [List.getElem?_cons_succ, ← ih]
      simp [List.filter_map, Function.comp_def]

/-- Whatever the order, a file has all its classes. -/
theorem perm_classesOf (perm : order.Perm (List.range x.size)) :
    (x.classesOf order file).Perm ((x.entries.filter (·.file = file)).map (·.declaration)) := by
  have all : (List.range x.entries.length).map (x.entries[·]?) = x.entries.map some :=
    List.ext_getElem (by simp) fun i _ _ => by simp
  have inOrder : (List.range x.size).filterMap (fun i => (x.entries[i]?).filter (·.file = file)) =
      x.entries.filter (·.file = file) := by
    have composed : (fun i : Nat => (x.entries[i]?).filter (·.file = file)) =
        (fun e : Option IndexedClass => e.filter (·.file = file)) ∘ (x.entries[·]?) := rfl
    rw [size, composed, ← List.filterMap_map, all, List.filterMap_map, ← List.filterMap_eq_filter]
    rfl
  exact inOrder ▸ (perm.filterMap _).map _

end ClassIndex

/-! ## Results -/

/-- A file has compiled in both cases or in none, to the same but for the order of its tables. -/
structure CompiledFile.Matches (r r' : CompiledFile) : Prop where
  path : r'.path = r.path
  compiles : (∃ a, r.result = .ok a) ↔ ∃ a, r'.result = .ok a
  artifacts : ∀ a a', r.result = .ok a → r'.result = .ok a' →
    a'.guard = a.guard ∧ a'.source = a.source ∧ a'.version = a.version ∧ a'.generator = a.generator ∧
      a'.classes.Perm a.classes

namespace Batch

variable {o : Options} {count : Nat} {x y : ClassIndex} {order order' : List Nat} {files files' : List SourceFile}

theorem compile_eq_ok_iff {compiled : List CompiledFile} :
    compile o files = .ok compiled ↔ ∃ order, (indexOf files).order = .ok order ∧
      compileFrom o files.length (indexOf files) order 0 files = compiled := by
  rw [compile, compileAs_eq]
  exact map_eq_ok_iff

/-- A batch is refused just if its classes have no order. -/
theorem exists_cycle_iff :
    (∃ cycle, compile o files = .error cycle) ↔ ¬ ∃ order, (indexOf files).order = .ok order := by
  rw [compile, compileAs_eq]
  cases (indexOf files).order with
  | error cycle => exact iff_of_true ⟨cycle, rfl⟩ fun ⟨_, ordered⟩ => nomatch ordered
  | ok order => exact iff_of_false (fun ⟨_, refused⟩ => nomatch refused) (not_not.2 ⟨order, rfl⟩)

/-- The classes of a file of a batch are those that it declares. -/
theorem perm_classesOf_indexOf (ordered : (indexOf files).order = .ok order) {i : Nat} {f : SourceFile}
    (there : files[i]? = some f) : ((indexOf files).classesOf order i).Perm f.classesOrNone := by
  refine (ClassIndex.perm_classesOf (ClassIndex.placed_order ordered).2).trans (.of_eq ?_)
  have own := ClassIndex.filter_entriesOf i (files.map (·.classesOrNone))
  rw [List.getElem?_map, there] at own
  exact own

theorem tablesOf_eq_ok_iff {i : Nat} {f : SourceFile} {ts : List ClassTable} :
    tablesOf x order i f = .ok ts ↔
      f.classes = .ok f.classesOrNone ∧ (x.classesOf order i).mapM x.tableOf = .ok ts := by
  rw [tablesOf, bind_eq_ok_iff, ← x.tablesOfFile_eq]
  simp only [mapError_eq_ok_iff]
  unfold SourceFile.classesOrNone
  constructor
  · rintro ⟨classes, parsed, tables⟩
    rw [parsed]
    exact ⟨rfl, tables⟩
  · rintro ⟨parsed, tables⟩
    exact ⟨_, parsed, tables⟩

theorem exists_tablesOf (agrees : x.Agrees y) {i j : Nat}
    (perm : (y.classesOf order' j).Perm (x.classesOf order i)) {f : SourceFile} {ts : List ClassTable}
    (made : tablesOf x order i f = .ok ts) : ∃ ts', tablesOf y order' j f = .ok ts' ∧ ts'.Perm ts := by
  obtain ⟨parsed, tables⟩ := tablesOf_eq_ok_iff.1 made
  have same : x.tableOf = y.tableOf := funext agrees.tableOf
  rw [same] at tables
  obtain ⟨ts', tables', perm'⟩ := exists_perm_of_mapM perm tables
  exact ⟨ts', tablesOf_eq_ok_iff.2 ⟨parsed, tables'⟩, perm'⟩

theorem matches_resultOf (agrees : x.Agrees y) {i j : Nat}
    (perm : (y.classesOf order' j).Perm (x.classesOf order i)) (f : SourceFile) :
    (resultOf o count x order i f).Matches (resultOf o count y order' j f) := by
  have back : y.Agrees x := ⟨agrees.size.symm, fun name => (agrees.byName name).symm⟩
  refine ⟨rfl, ?_, ?_⟩
  · simp only [resultOf, map_eq_ok_iff]
    constructor
    · rintro ⟨_, ts, made, rfl⟩
      obtain ⟨ts', made', -⟩ := exists_tablesOf agrees perm made
      exact ⟨_, ts', made', rfl⟩
    · rintro ⟨_, ts', made', rfl⟩
      obtain ⟨ts, made, -⟩ := exists_tablesOf back perm.symm made'
      exact ⟨_, ts, made, rfl⟩
  · simp only [resultOf, map_eq_ok_iff]
    rintro _ _ ⟨ts, made, rfl⟩ ⟨ts', made', rfl⟩
    obtain ⟨ts'', made'', tables⟩ := exists_tablesOf agrees perm made
    cases made'.symm.trans made''
    exact ⟨rfl, rfl, rfl, rfl, tables⟩

/-- Another order of the files gives another order of the same classes. -/
theorem perm_declarations (perm : files.Perm files') :
    ((indexOf files).entries.map (·.declaration)).Perm ((indexOf files').entries.map (·.declaration)) := by
  have declarations : ∀ files, (indexOf files).entries.map (·.declaration) = files.flatMap (·.classesOrNone) :=
    fun files => ClassIndex.declarations_entriesOf 0 _
  rw [declarations, declarations]
  exact perm.flatMap_right _

/-- A batch whose classes have different names does not depend on the order of its files. In any other
order there is a circle of bases just if there is one in this order. Otherwise a file, wherever it
stands, compiles in both orders or in none, and has the same guard, the same recorded name and the same
tables but for the order in which they stand. -/
theorem compiled_files_do_not_depend_on_their_order (o : Options) {files files' : List SourceFile}
    (perm : files.Perm files') (names : ((indexOf files).entries.map (·.declaration.name)).Nodup) :
    ((∃ cycle, compile o files = .error cycle) ↔ ∃ cycle, compile o files' = .error cycle) ∧
    ∀ compiled compiled', compile o files = .ok compiled → compile o files' = .ok compiled' →
      ∀ (i j : Nat) (f : SourceFile), files[i]? = some f → files'[j]? = some f →
        ∃ r r' : CompiledFile, compiled[i]? = some r ∧ compiled'[j]? = some r' ∧ r.path = f.path ∧ r.Matches r' := by
  have agrees := ClassIndex.agrees_of_perm (perm_declarations perm) names
  refine ⟨?_, fun compiled compiled' made made' i j f here there => ?_⟩
  · rw [exists_cycle_iff, exists_cycle_iff, agrees.exists_order_iff]
  · obtain ⟨order, ordered, rfl⟩ := compile_eq_ok_iff.1 made
    obtain ⟨order', ordered', rfl⟩ := compile_eq_ok_iff.1 made'
    have classes := (perm_classesOf_indexOf ordered' there).trans (perm_classesOf_indexOf ordered here).symm
    refine ⟨_, _, by rw [getElem?_compileFrom, here, Nat.zero_add]; rfl,
      by rw [getElem?_compileFrom, there, Nat.zero_add]; rfl, rfl, ?_⟩
    rw [← perm.length_eq]
    exact matches_resultOf agrees classes f

/-- Three files. The last one asks for an enumeration that is not there, so it does not compile. -/
def belfry : List SourceFile :=
  [⟨"bells.h", "class Bell { H_OBJECT }; class Rope { H_OBJECT signals: void pulled(); };"⟩,
   ⟨"tower.h", "class Tower : Rope { H_OBJECT H_PROPERTY(int pulls MEMBER pulls_ NOTIFY pulled) };"⟩,
   ⟨"clock.h", "class Clock : Tower { H_OBJECT H_ENUM(Hour) };"⟩]

/-- The classes of each file that compiled. -/
def classNames (compiled : List CompiledFile) : List (Option (List String)) :=
  compiled.map fun r => r.result.toOption.map fun a => a.classes.map (·.name)

/-- Read from the last file to the first, the first file has the same tables in another order. -/
theorem belfry_from_the_other_end :
    ∃ compiled compiled', compile {} belfry = .ok compiled ∧ compile {} belfry.reverse = .ok compiled' ∧
      classNames compiled = [some ["Bell", "Rope"], some ["Tower"], none] ∧
      classNames compiled' = [none, some ["Tower"], some ["Rope", "Bell"]] ∧
      ∃ r r' : CompiledFile, compiled[0]? = some r ∧ compiled'[2]? = some r' ∧ r.Matches r' := by
  obtain ⟨distinct, names, names'⟩ : ((indexOf belfry).entries.map (·.declaration.name)).Nodup ∧
      (compile {} belfry).map classNames = .ok [some ["Bell", "Rope"], some ["Tower"], none] ∧
      (compile {} belfry.reverse).map classNames = .ok [none, some ["Tower"], some ["Rope", "Bell"]] := by
    decide +kernel
  obtain ⟨compiled, made, names⟩ := map_eq_ok_iff.1 names
  obtain ⟨compiled', made', names'⟩ := map_eq_ok_iff.1 names'
  obtain ⟨r, r', here, there, -, same⟩ :=
    (compiled_files_do_not_depend_on_their_order {} (List.reverse_perm belfry).symm distinct).2
      compiled compiled' made made' 0 2 _ rfl rfl
  exact ⟨compiled, compiled', made, made', names, names', r, r', here, there, same⟩

end Batch
end Reflection

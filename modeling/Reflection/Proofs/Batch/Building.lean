import Reflection.Batch
import Reflection.Proofs.ClassIndex.ByName
/-!
# The files of a batch one by one

Tables are built under the numbers that files have among those that can be read as headers, class by
class in the order of all classes, and are then handed to the files one after the other. In the end each
file has the tables of its own classes, or the first error in it, as if its number among all files had
been used throughout (`compileAs_eq`).
-/

namespace Reflection

/-! ## The tables of one file -/

namespace ClassIndex

/-- The classes of a file in the given order of all classes. -/
def classesOf (x : ClassIndex) (order : List Nat) (file : Nat) : List ClassDeclaration :=
  (order.filterMap fun i => (x.entries[i]?).filter (·.file = file)).map (·.declaration)

theorem classesOf_cons (x : ClassIndex) (i : Nat) (order : List Nat) (file : Nat) :
    x.classesOf (i :: order) file = x.classesOf [i] file ++ x.classesOf order file := by
  rw [classesOf, ← List.singleton_append, List.filterMap_append, List.map_append]
  rfl

theorem tablesOfFile_eq (x : ClassIndex) (order : List Nat) (file : Nat) :
    x.tablesOfFile order file = (x.classesOf order file).mapM x.tableOf := by
  rw [classesOf, List.mapM_map]
  rfl

end ClassIndex

/-- The tables of classes are added to those before, up to the first error. -/
theorem BuiltFile.foldl_add (x : ClassIndex) (path : String) (ds : List ClassDeclaration)
    (tables : Except CompileError (List ClassTable)) :
    ds.foldl (BuiltFile.add x) ⟨path, tables⟩ = ⟨path, do
      let before ← tables
      let more ← (ds.mapM x.tableOf).mapError (·.inFile path)
      return before ++ more⟩ := by
  induction ds generalizing tables with
  | nil => cases tables <;> simp [Except.mapError, pure, Except.pure, bind, Except.bind]
  | cons d ds ih =>
    rw [List.foldl_cons, BuiltFile.add, ih, List.mapM_cons]
    cases tables with
    | error e => rfl
    | ok before =>
      cases x.tableOf d with
      | error e => rfl
      | ok t =>
        simp only [Except.mapError, bind, Except.bind, pure, Except.pure]
        cases ds.mapM x.tableOf <;> simp

namespace Batch

variable {x : ClassIndex} {order : List Nat}

/-- A class is added to its own file and to no other. -/
theorem buildClass_eq (x : ClassIndex) (built : List BuiltFile) (i : Nat) :
    buildClass x built i = built.mapIdx fun k b => (x.classesOf [i] k).foldl (BuiltFile.add x) b := by
  unfold buildClass ClassIndex.classesOf
  apply List.ext_getElem?
  intro k
  rw [List.getElem?_mapIdx]
  cases there : x.entries[i]? with
  | none => simp [there]
  | some e =>
    by_cases here : e.file = k <;> simp [there, here, Option.filter]

/-- All classes together are added each to its own file, in their order. -/
theorem foldl_buildClass (x : ClassIndex) (built : List BuiltFile) (order : List Nat) :
    order.foldl (buildClass x) built =
      built.mapIdx fun k b => (x.classesOf order k).foldl (BuiltFile.add x) b := by
  induction order generalizing built with
  | nil =>
    apply List.ext_getElem?
    intro k
    simp [ClassIndex.classesOf]
  | cons i order ih =>
    rw [List.foldl_cons, ih, buildClass_eq, List.mapIdx_mapIdx]
    simp only [x.classesOf_cons i order, List.foldl_append, Function.comp_def]

/-- The tables of a file are those of its classes, or the first error in them. -/
theorem build_eq (files : List ParsedFile) :
    build files = (ClassIndex.ofFiles (files.map (·.classes))).order.map fun order =>
      files.mapIdx fun k f =>
        ((ClassIndex.ofFiles (files.map (·.classes))).tablesOfFile order k).mapError (·.inFile f.path) := by
  unfold build
  dsimp only
  congr 1
  funext order
  rw [foldl_buildClass]
  apply List.ext_getElem?
  intro k
  rw [List.getElem?_map, List.getElem?_mapIdx, List.getElem?_mapIdx, List.getElem?_map]
  cases files[k]? with
  | none => rfl
  | some f =>
    simp only [Option.map_some, ClassIndex.tablesOfFile_eq, BuiltFile.foldl_add]
    cases ((ClassIndex.ofFiles (files.map (·.classes))).classesOf order k).mapM
      (ClassIndex.ofFiles (files.map (·.classes))).tableOf <;> rfl

/-! ## Numbers of files -/

/-- How many of the first files can be read as headers. -/
def rank (files : List SourceFile) (i : Nat) : Nat :=
  (parsedFiles (files.take i)).length

variable {f : SourceFile} {files : List SourceFile} {i j : Nat}

theorem parsedFiles_cons (f : SourceFile) (files : List SourceFile) :
    parsedFiles (f :: files) =
      (f.classes.toOption.map fun classes => (⟨f.path, classes⟩ : ParsedFile)).toList ++ parsedFiles files := by
  rw [parsedFiles, List.filterMap_cons]
  cases f.classes <;> rfl

theorem rank_zero (files : List SourceFile) : rank files 0 = 0 :=
  rfl

theorem rank_succ (f : SourceFile) (files : List SourceFile) (i : Nat) :
    rank (f :: files) (i + 1) = rank files i + if f.classes.isOk then 1 else 0 := by
  rw [rank, List.take_succ_cons, parsedFiles_cons, List.length_append, Nat.add_comm]
  cases f.classes <;> rfl

/-- The file with a number can be read as a header. -/
def Readable (files : List SourceFile) (i : Nat) : Prop :=
  ∃ f, files[i]? = some f ∧ f.classes.isOk

/-- No two readable files have one rank. -/
theorem rank_inj (hi : Readable files i) (hj : Readable files j) : rank files i = rank files j ↔ i = j := by
  refine ⟨fun same => ?_, fun h => h ▸ rfl⟩
  induction files generalizing i j with
  | nil =>
    obtain ⟨f, there, -⟩ := hi
    cases there
  | cons g files ih =>
    cases i with
    | zero =>
      obtain ⟨f, there, ok⟩ := hi
      cases there
      cases j with
      | zero => rfl
      | succ j =>
        rw [rank_zero, rank_succ, if_pos ok] at same
        omega
    | succ i =>
      cases j with
      | zero =>
        obtain ⟨f, there, ok⟩ := hj
        cases there
        rw [rank_zero, rank_succ, if_pos ok] at same
        omega
      | succ j =>
        rw [rank_succ, rank_succ, Nat.add_right_cancel_iff] at same
        rw [ih hi hj same]

/-- A file that can be read as a header stands at its rank among these. -/
theorem getElem?_parsedFiles {classes : List ClassDeclaration} (there : files[i]? = some f)
    (parsed : f.classes = .ok classes) : (parsedFiles files)[rank files i]? = some ⟨f.path, classes⟩ := by
  induction files generalizing i with
  | nil => cases there
  | cons g files ih =>
    cases i with
    | zero =>
      cases there
      rw [parsedFiles_cons, parsed]
      rfl
    | succ i =>
      rw [parsedFiles_cons, rank_succ]
      cases read : g.classes with
      | error e => exact ih there
      | ok _ => exact ih there

end Batch

/-! ## The same classes under both numbers -/

namespace ClassIndex

/-- The same class in the file after. -/
theorem entriesOf_succ (first : Nat) (files : List (List ClassDeclaration)) :
    entriesOf (first + 1) files = (entriesOf first files).map fun e => { e with file := e.file + 1 } := by
  induction files generalizing first with
  | nil => rfl
  | cons classes files ih =>
    rw [entriesOf, ih, entriesOf, List.map_append, List.map_map]
    rfl

end ClassIndex

namespace Batch

/-- The classes of the readable files, under the numbers of these files among the readable ones. -/
def parsedIndex (files : List SourceFile) : ClassIndex :=
  .ofFiles ((parsedFiles files).map (·.classes))

theorem entries_parsedIndex (files : List SourceFile) :
    (parsedIndex files).entries = (indexOf files).entries.map fun e => { e with file := rank files e.file } := by
  unfold parsedIndex indexOf ClassIndex.ofFiles
  dsimp only
  induction files with
  | nil => rfl
  | cons f files ih =>
    rw [List.map_cons, ClassIndex.entriesOf, ClassIndex.entriesOf_succ, parsedFiles_cons, SourceFile.classesOrNone]
    cases read : f.classes with
    | error e =>
      have behind (i : Nat) : rank (f :: files) (i + 1) = rank files i := by
        rw [rank_succ, read]
        rfl
      simp [Except.toOption, ih, behind]
    | ok classes =>
      have behind (i : Nat) : rank (f :: files) (i + 1) = rank files i + 1 := by
        rw [rank_succ, read]
        rfl
      simp [Except.toOption, ClassIndex.entriesOf, ClassIndex.entriesOf_succ, ih, behind, rank_zero, Function.comp_def]

/-- Only readable files have classes. -/
theorem readable_of_mem_indexOf {e : IndexedClass} (h : e ∈ (indexOf files).entries) : Readable files e.file := by
  unfold indexOf ClassIndex.ofFiles at h
  dsimp only at h
  induction files generalizing e with
  | nil => cases h
  | cons g files ih =>
    rw [List.map_cons, ClassIndex.entriesOf, ClassIndex.entriesOf_succ, List.mem_append] at h
    rcases h with own | behind
    · obtain ⟨d, mem, rfl⟩ := List.mem_map.1 own
      refine ⟨g, rfl, ?_⟩
      rw [SourceFile.classesOrNone] at mem
      cases read : g.classes with
      | error e =>
        rw [read] at mem
        cases mem
      | ok classes => rfl
    · obtain ⟨e, mem, rfl⟩ := List.mem_map.1 behind
      exact ih mem

theorem declarations_parsedIndex (files : List SourceFile) :
    (parsedIndex files).entries.map (·.declaration) = (indexOf files).entries.map (·.declaration) := by
  rw [entries_parsedIndex, List.map_map]
  rfl

theorem order_parsedIndex (files : List SourceFile) : (parsedIndex files).order = (indexOf files).order :=
  ClassIndex.order_congr (declarations_parsedIndex files)

/-- A readable file has the same tables under both numbers. -/
theorem tablesOfFile_parsedIndex (order : List Nat) (readable : Readable files i) :
    (parsedIndex files).tablesOfFile order (rank files i) = (indexOf files).tablesOfFile order i := by
  have tables : (parsedIndex files).tableOf = (indexOf files).tableOf :=
    funext (ClassIndex.agrees_of_eq (declarations_parsedIndex files)).tableOf
  have classes : (parsedIndex files).classesOf order (rank files i) = (indexOf files).classesOf order i := by
    unfold ClassIndex.classesOf
    rw [List.map_filterMap, List.map_filterMap]
    congr 1
    funext k
    rw [entries_parsedIndex, List.getElem?_map]
    cases there : (indexOf files).entries[k]? with
    | none => rfl
    | some e =>
      have own := rank_inj (readable_of_mem_indexOf (List.mem_of_getElem? there)) readable
      by_cases here : e.file = i
      · simp [Option.filter, here]
      · simp [Option.filter, here, own]
  rw [ClassIndex.tablesOfFile_eq, ClassIndex.tablesOfFile_eq, tables, classes]

/-! ## All files -/

variable {o : Options} {count : Nat}

/-- What becomes of files, which are `count` inputs to the options, in the given order of all classes.
The first file has number `i`. -/
def compileFrom (o : Options) (count : Nat) (x : ClassIndex) (order : List Nat) (i : Nat) :
    List SourceFile → List CompiledFile
  | [] => []
  | f :: files =>
    let result := (tablesOf x order i f).map
      (Artifact.ofTables f.recordedName (o.guardFor count f.path))
    ⟨f.path, result⟩ :: compileFrom o count x order (i + 1) files

/-- What becomes of a file of a batch. -/
def resultOf (o : Options) (count : Nat) (x : ClassIndex) (order : List Nat) (i : Nat) (f : SourceFile) :
    CompiledFile :=
  ⟨f.path, (tablesOf x order i f).map (Artifact.ofTables f.recordedName (o.guardFor count f.path))⟩

theorem getElem?_compileFrom (first k : Nat) (files : List SourceFile) :
    (compileFrom o count x order first files)[k]? =
      (files[k]?).map (resultOf o count x order (first + k)) := by
  induction files generalizing first k with
  | nil => rfl
  | cons f files ih =>
    cases k with
    | zero => rfl
    | succ k =>
      rw [compileFrom, List.getElem?_cons_succ, ih, List.getElem?_cons_succ]
      congr 2
      omega

/-- A file gets what stands at its rank. -/
theorem getElem?_finishAll (files : List SourceFile) (built : List (Except CompileError (List ClassTable)))
    (i : Nat) : (finishAll o count files built)[i]? =
      (files[i]?).map fun f => finish o count f built[rank files i]? := by
  induction files generalizing built i with
  | nil => rfl
  | cons f files ih =>
    cases i with
    | zero =>
      rw [finishAll, List.head?_eq_getElem?]
      rfl
    | succ i =>
      rw [finishAll, List.getElem?_cons_succ, ih, List.getElem?_cons_succ, rank_succ]
      split
      · rw [List.getElem?_tail]
      · rfl

/-- Each file of a batch has what its own classes compile to. -/
theorem compileAs_eq (o : Options) (count : Nat) (files : List SourceFile) :
    compileAs o count files = (indexOf files).order.map fun order =>
      compileFrom o count (indexOf files) order 0 files := by
  have built := build_eq (parsedFiles files)
  change build _ = (parsedIndex files).order.map fun order => (parsedFiles files).mapIdx fun k f =>
    ((parsedIndex files).tablesOfFile order k).mapError (·.inFile f.path) at built
  rw [compileAs, built, order_parsedIndex]
  cases (indexOf files).order with
  | error cycle => rfl
  | ok order =>
    refine congrArg Except.ok (List.ext_getElem? fun i => ?_)
    rw [getElem?_finishAll, getElem?_compileFrom, Nat.zero_add]
    cases there : files[i]? with
    | none => rfl
    | some f =>
      rw [Option.map_some, Option.map_some, finish, resultOf, tablesOf]
      cases read : f.classes with
      | error e => rfl
      | ok classes =>
        rw [List.getElem?_mapIdx, getElem?_parsedFiles there read, Option.map_some,
          tablesOfFile_parsedIndex order ⟨f, there, by rw [read]; rfl⟩]
        cases (indexOf files).tablesOfFile order i <;> rfl

end Batch
end Reflection

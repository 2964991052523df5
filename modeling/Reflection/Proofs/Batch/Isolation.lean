import Reflection.Proofs.Batch.FileOrder
/-!
# Files that cannot be read

A file that is no header takes no part in the look-up of bases, and what was built for the others is
handed past it (`compileAs_eraseIdx`). So without it the batch has the same order of classes or the same
circle, and the other files have the same tables or the same errors (`unreadable_files_affect_no_others`). Guards are not compared, since they depend on the number of files.
-/

namespace Reflection

/-- The tables of a file, or the error in it. -/
def CompiledFile.tables (r : CompiledFile) : Except CompileError (List ClassTable) :=
  r.result.map (·.classes)

/-! ## Errors -/

/-- An error in a file names the file. -/
theorem SourceFile.file_of_classes {f : SourceFile} {e : CompileError} (h : f.classes = .error e) :
    e.file = f.path := by
  unfold SourceFile.classes Declaration.parse at h
  split at h
  · cases h
    rfl
  · rename_i ts _
    cases read : Declaration.classesOfTokens ts with
    | ok classes =>
      rw [read] at h
      cases h
    | error fault =>
      rw [read] at h
      cases h
      rfl

namespace Batch

variable {o : Options} {count : Nat} {x y : ClassIndex} {order : List Nat} {files front back : List SourceFile}
  {f : SourceFile} {e : CompileError}

theorem file_of_tablesOf {i : Nat} (h : tablesOf x order i f = .error e) : e.file = f.path := by
  rcases bind_eq_error_iff.1 h with unreadable | ⟨classes, -, h⟩
  · exact f.file_of_classes unreadable
  · cases tables : x.tablesOfFile order i with
    | ok ts =>
      rw [tables] at h
      cases h
    | error fault =>
      rw [tables] at h
      cases h
      rfl

/-! ## Without a file -/

theorem parsedFiles_of_unreadable (unreadable : f.classes = .error e) (front back : List SourceFile) :
    parsedFiles (front ++ f :: back) = parsedFiles (front ++ back) := by
  rw [parsedFiles, List.filterMap_append, List.filterMap_cons, unreadable, parsedFiles, List.filterMap_append]
  rfl

/-- What was built is handed to the same files whether one that is no header stands between them or not. -/
theorem finishAll_eraseIdx (unreadable : f.classes = .error e) (front back : List SourceFile)
    (built : List (Except CompileError (List ClassTable))) :
    finishAll o count (front ++ back) built =
      (finishAll o count (front ++ f :: back) built).eraseIdx front.length := by
  induction front generalizing built with
  | nil =>
    rw [List.nil_append, List.nil_append, finishAll, unreadable]
    rfl
  | cons g front ih => exact congrArg _ (ih _)

/-- A batch without a file that is no header compiles as the batch with it, but for that file. -/
theorem compileAs_eraseIdx (unreadable : f.classes = .error e) (front back : List SourceFile) :
    compileAs o count (front ++ back) =
      (compileAs o count (front ++ f :: back)).map (·.eraseIdx front.length) := by
  unfold compileAs
  rw [parsedFiles_of_unreadable unreadable]
  cases build (parsedFiles (front ++ back)) with
  | error cycle => rfl
  | ok built => exact congrArg Except.ok (finishAll_eraseIdx unreadable front back built)

/-- Path and tables of each file. They do not depend on how many inputs there are. -/
def outcomes (compiled : List CompiledFile) : List (String × Except CompileError (List ClassTable)) :=
  compiled.map fun r => (r.path, r.tables)

theorem outcomes_finishAll (count count' : Nat) (files : List SourceFile)
    (built : List (Except CompileError (List ClassTable))) :
    outcomes (finishAll o count files built) = outcomes (finishAll o count' files built) := by
  unfold outcomes
  induction files generalizing built with
  | nil => rfl
  | cons f files ih =>
    rw [finishAll, finishAll, List.map_cons, List.map_cons, ih]
    congr 2
    unfold CompiledFile.tables finish
    dsimp only
    cases f.classes with
    | error e => rfl
    | ok classes => cases built.head?.getD (.ok []) <;> rfl

theorem outcomes_compileAs (count count' : Nat) (files : List SourceFile) :
    (compileAs o count files).map outcomes = (compileAs o count' files).map outcomes := by
  unfold compileAs
  cases build (parsedFiles files) with
  | error cycle => rfl
  | ok built => exact congrArg Except.ok (outcomes_finishAll count count' files built)

/-! ## Main statement -/

/-- What becomes of a file belongs to it: the path, the error, which is its own where it is no header, and
the tables, which are those of the classes that it declares. -/
structure BelongsTo (x : ClassIndex) (f : SourceFile) (r : CompiledFile) : Prop where
  path : r.path = f.path
  error : ∀ e, r.result = .error e → e.file = f.path
  unreadable : ∀ e, f.classes = .error e → r.result = .error e
  artifact : ∀ a, r.result = .ok a → ∃ declared classes, f.classes = .ok declared ∧ classes.Perm declared ∧
    List.Forall₂ (fun d t => x.tableOf d = .ok t ∧ t.name = d.name) classes a.classes

theorem belongsTo_resultOf (ordered : (indexOf files).order = .ok order) {i : Nat} (there : files[i]? = some f) :
    BelongsTo (indexOf files) f (resultOf o count (indexOf files) order i f) where
  path := rfl
  error e failed := by
    cases made : tablesOf (indexOf files) order i f with
    | ok ts =>
      rw [resultOf, made] at failed
      cases failed
    | error e' =>
      rw [resultOf, made] at failed
      cases failed
      exact file_of_tablesOf made
  unreadable e unreadable := by
    rw [resultOf, tablesOf, unreadable]
    rfl
  artifact a compiled := by
    obtain ⟨ts, made, rfl⟩ := map_eq_ok_iff.1 compiled
    obtain ⟨parsed, tables⟩ := tablesOf_eq_ok_iff.1 made
    refine ⟨_, _, parsed, perm_classesOf_indexOf ordered there, ?_⟩
    exact (mapM_eq_ok_iff.1 tables).imp fun d t made => ⟨made, ClassIndex.name_tableOf made⟩

theorem forall₂_compileFrom {P : SourceFile → CompiledFile → Prop} (first : Nat) (files : List SourceFile)
    (each : ∀ (k : Nat) f, files[k]? = some f → P f (resultOf o count x order (first + k) f)) :
    List.Forall₂ P files (compileFrom o count x order first files) := by
  induction files generalizing first with
  | nil => exact .nil
  | cons f files ih =>
    refine .cons (each 0 f rfl) (ih (first + 1) fun k g there => ?_)
    have later := each (k + 1) g there
    rwa [← Nat.add_assoc, Nat.add_right_comm] at later

/-- What becomes of the other files does not depend on one that is no header. -/
theorem outcomes_eraseIdx (unreadable : f.classes = .error e) (front back : List SourceFile) :
    (compile o (front ++ back)).map outcomes =
      (compile o (front ++ f :: back)).map fun compiled => (outcomes compiled).eraseIdx front.length := by
  unfold compile
  rw [outcomes_compileAs _ (front ++ f :: back).length, compileAs_eraseIdx unreadable]
  cases compileAs o (front ++ f :: back).length (front ++ f :: back) with
  | error cycle => rfl
  | ok compiled => exact congrArg Except.ok (List.eraseIdx_map _ _ _).symm

/-- A batch without a circle of bases has one result for each file, in their order, and each belongs to
its file. A file that is no header can be left out: then there is the same circle or none, and each other
file has the same tables in the same order or the same error. -/
theorem unreadable_files_affect_no_others (o : Options) (files : List SourceFile) :
    (∀ compiled, compile o files = .ok compiled →
      List.Forall₂ (BelongsTo (indexOf files)) files compiled) ∧
    ∀ front f back e, files = front ++ f :: back → f.classes = .error e →
      (∀ cycle, compile o files = .error cycle ↔ compile o (front ++ back) = .error cycle) ∧
      ∀ compiled, compile o files = .ok compiled → ∃ others, compile o (front ++ back) = .ok others ∧
        outcomes others = (outcomes compiled).eraseIdx front.length := by
  refine ⟨fun compiled made => ?_, ?_⟩
  · obtain ⟨order, ordered, rfl⟩ := compile_eq_ok_iff.1 made
    refine forall₂_compileFrom 0 files fun k f there => ?_
    rw [Nat.zero_add]
    exact belongsTo_resultOf ordered there
  · rintro front f back e rfl unreadable
    have same := outcomes_eraseIdx (o := o) unreadable front back
    cases made : compile o (front ++ f :: back) with
    | error cycle =>
      rw [made] at same
      cases made' : compile o (front ++ back) with
      | ok others =>
        rw [made'] at same
        cases same
      | error cycle' =>
        rw [made'] at same
        cases same
        exact ⟨fun _ => Iff.rfl, nofun⟩
    | ok compiled =>
      rw [made] at same
      obtain ⟨others, made', erased⟩ := map_eq_ok_iff.1 same
      refine ⟨fun cycle => ?_, ?_⟩
      · rw [made']
        exact ⟨nofun, nofun⟩
      · rintro _ ⟨⟩
        exact ⟨others, made', erased⟩

/-- Declares a class. -/
def belfryBell : SourceFile :=
  ⟨"bell.h", "class Bell { H_OBJECT };"⟩

/-- Derives from the class of another file. -/
def belfryTower : SourceFile :=
  ⟨"tower.h", "class Tower : Bell { H_OBJECT };"⟩

/-- A signal has to return nothing, so this file is no header. -/
def brokenRope : SourceFile :=
  ⟨"rope.h", "class Rope { H_OBJECT signals: int pulled(); };"⟩

/-- `Tower` is found to derive from `Bell` whether the file between them is there or not. -/
theorem tower_stands_without_rope :
    ∃ compiled others, compile {} [belfryBell, brokenRope, belfryTower] = .ok compiled ∧
      compile {} [belfryBell, belfryTower] = .ok others ∧
      classNames compiled = [some ["Bell"], none, some ["Tower"]] ∧
      List.Forall₂ (BelongsTo (indexOf [belfryBell, brokenRope, belfryTower]))
        [belfryBell, brokenRope, belfryTower] compiled ∧
      outcomes others = (outcomes compiled).eraseIdx 1 := by
  have names : (compile {} [belfryBell, brokenRope, belfryTower]).map classNames =
      .ok [some ["Bell"], none, some ["Tower"]] := by
    decide +kernel
  have broken : brokenRope.classes = .error ⟨"rope.h", 1, .signalReturns "pulled" "int"⟩ := by decide +kernel
  obtain ⟨compiled, made, names⟩ := map_eq_ok_iff.1 names
  obtain ⟨belongs, without⟩ := unreadable_files_affect_no_others {} [belfryBell, brokenRope, belfryTower]
  obtain ⟨others, made', same⟩ := (without [belfryBell] brokenRope [belfryTower] _ rfl broken).2 compiled made
  exact ⟨compiled, others, made, made', names, belongs compiled made, same⟩

end Batch
end Reflection

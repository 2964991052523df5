import Reflection.Proofs.Batch.Loading
import Reflection.Proofs.FileTree
import Reflection.Proofs.Path
/-!
# Where the artifacts of a batch go

Of the path of an input only the stem of the file's name goes into the guard and the output file of its
artifact. So files of one name in different folders get the same output file and the same guard, and so
do guards from stems that differ in case or punctuation only. A run writes one artifact after the other:
an output file holds the artifact of the last input with its stem
(`outputs_hold_last_artifacts`), and of the artifacts with one guard only the first is loaded.
-/

namespace Reflection

/-! ## Names -/

namespace Options

/-- What an output file is called after. -/
def outputStem (input : String) : String :=
  (Path.stem? input).getD "input"

/-- The name of the output file of one of several inputs. -/
def outputName (o : Options) (input : String) : String :=
  "moc_" ++ outputStem input ++ "." ++ o.format.extension

variable {o : Options} {count : Nat} {p q : String}

theorem outputFor_eq (many : count ≠ 1) {folder : String} (given : o.output = some folder) :
    o.outputFor count p = some (Path.join folder (o.outputName p)) := by
  rw [outputFor, given, Option.map_some, if_neg many]
  rfl

theorem guardFor_eq_iff (many : count ≠ 1) :
    o.guardFor count p = o.guardFor count q ↔ guardStem p = guardStem q := by
  unfold guardFor
  cases o.guard with
  | none => exact Iff.rfl
  | some guard => simp [many]

theorem outputName_eq_iff : o.outputName p = o.outputName q ↔ outputStem p = outputStem q := by
  simp [outputName]

theorem plain_outputName (o : Options) (p : String) : Path.Plain (o.outputName p) := by
  have extension : '/' ∉ o.format.extension.toList := by cases o.format <;> decide
  have stem : '/' ∉ (outputStem p).toList := by
    unfold outputStem
    cases found : Path.stem? p with
    | none => decide
    | some stem => exact Path.not_mem_stem found
  have spelled : (o.outputName p).toList = "moc_".toList ++ (outputStem p).toList ++ ".".toList ++
      o.format.extension.toList := by
    simp only [outputName, String.toList_append]
  constructor <;> rw [spelled]
  · simp [stem, extension]
  · simp
  · simp

theorem outputFor_eq_iff (many : count ≠ 1) {folder : String} (given : o.output = some folder) :
    o.outputFor count p = o.outputFor count q ↔ outputStem p = outputStem q := by
  rw [outputFor_eq many given, outputFor_eq many given, Option.some.injEq, ← outputName_eq_iff (o := o)]
  exact ⟨Path.join_inj (plain_outputName o p) (plain_outputName o q), fun same => by rw [same]⟩

end Options

namespace Batch

open FileTree (Keeps storage)

variable {o : Options} {count : Nat} {t t' : FileTree}

/-! ## One artifact -/

/-- What is reported of an artifact that was written. -/
def outcomeOf (o : Options) (count : Nat) (f : CompiledFile) (a : Artifact) : Outcome :=
  ⟨f.path, o.outputFor count f.path, a.classes.map (·.name)⟩

theorem run_then {σ α β : Type} (x : StateM σ α) (f : α → StateM σ β) (t : σ) :
    (x >>= f).run t = (f (x.run t).1).run (x.run t).2 :=
  rfl

theorem run_write (t : FileTree) (path text : String) :
    (storage.write path text).run t = match t.write path text with
      | .ok t => (.ok (), t)
      | .error e => (.error e.message, t) :=
  rfl

theorem run_createFolders (t : FileTree) (path : String) :
    (storage.createFolders path).run t =
      ((FileTree.createFolders (path.length + 1) path t).1.mapError (·.message),
        (FileTree.createFolders (path.length + 1) path t).2) :=
  rfl

/-- A text that was put into a file was written to it after folders were made. -/
theorem writeFile_eq_ok {path text : String}
    (h : (writeFile storage path text).run t = (.ok (), t')) :
    ∃ t₁, Keeps (fun _ => False) t t₁ ∧ t₁.write path text = .ok t' := by
  have put : ∀ t₁ : FileTree, (do
      return (← storage.write path text).mapError (FileFailure.mk .write path) :
        StateM FileTree (Except FileFailure Unit)).run t₁ = (.ok (), t') → t₁.write path text = .ok t' := by
    intro t₁ ok
    simp only [run_then, run_write] at ok
    cases written : t₁.write path text with
    | error e =>
      rw [written] at ok
      cases ok
    | ok t₂ =>
      rw [written] at ok
      cases ok
      rfl
  unfold writeFile at h
  split at h
  · exact ⟨t, .refl t, put t h⟩
  · rename_i folder _
    simp only [run_then, run_createFolders] at h
    have keeps := FileTree.keeps_createFolders (P := fun _ => False) (folder.length + 1) folder t
    generalize FileTree.createFolders (folder.length + 1) folder t = made at h keeps
    obtain ⟨_ | _, t₁⟩ := made
    · cases h
    · exact ⟨t₁, keeps, put t₁ h⟩

/-- What an artifact that was written leaves behind, if there is an output folder for several inputs. -/
theorem deliver_eq_written [Json.Library] {f : CompiledFile} {w : Outcome}
    (h : (deliver storage o count f).run t = (.written w, t')) :
    ∃ a, f.result = .ok a ∧ w = outcomeOf o count f a ∧
      ∀ folder, o.output = some folder → count ≠ 1 → ∃ t₁, Keeps (fun _ => False) t t₁ ∧
        t₁.write (Path.join folder (o.outputName f.path)) (a.render o.format) = .ok t' := by
  unfold deliver at h
  cases result : f.result with
  | error e =>
    rw [result] at h
    cases h
  | ok a =>
    rw [result] at h
    simp only [run_then] at h
    cases wrote : (writeOutput storage (o.outputFor count f.path) (a.render o.format)).run t with
    | mk done t₁ =>
      rw [wrote] at h
      cases done with
      | error failure => cases h
      | ok _ =>
        cases h
        refine ⟨a, rfl, rfl, fun folder given many => ?_⟩
        rw [Options.outputFor_eq many given] at wrote
        exact writeFile_eq_ok wrote

/-! ## All artifacts -/

/-- The place has the name of the output file of one of the inputs. -/
def IsOutput (o : Options) (files : List CompiledFile) (place : List String) : Prop :=
  ∃ f ∈ files, place.getLast? = some (o.outputName f.path)

/-- Nothing but output files is changed by writing one. -/
theorem keeps_deliver {f : CompiledFile} {files : List CompiledFile} (hf : f ∈ files) {folder text : String}
    (ok : t.write (Path.join folder (o.outputName f.path)) text = .ok t') :
    Keeps (IsOutput o files) t t' := by
  refine FileTree.keeps_write ok fun above n last => ⟨f, hf, ?_⟩
  rw [Path.getLast?_steps_join (Options.plain_outputName o f.path)] at last
  cases last
  exact List.getLast?_concat

/-- The artifacts of several inputs are written one after the other, and a file that is written to once
more holds the later one. -/
theorem deliverAll [Json.Library] (many : count ≠ 1) {files : List CompiledFile} {ds : List Delivery}
    (h : (files.mapM (deliver storage o count)).run t = (ds, t'))
    (written : ∀ d ∈ ds, ∃ w, d = .written w) :
    List.Forall₂ (fun f d => ∃ a, f.result = .ok a ∧ d = .written (outcomeOf o count f a)) files ds ∧
      ∀ folder, o.output = some folder → Keeps (IsOutput o files) t t' ∧
        ∀ (front : List CompiledFile) (f : CompiledFile) (back : List CompiledFile) (a : Artifact),
          files = front ++ f :: back → f.result = .ok a →
          (∀ g ∈ back, Options.outputStem g.path ≠ Options.outputStem f.path) →
          t'.read (Path.join folder (o.outputName f.path)) = .ok (a.render o.format) := by
  induction files generalizing t ds with
  | nil =>
    cases h
    refine ⟨.nil, fun folder _ => ⟨.refl _, fun front f back a split => ?_⟩⟩
    simp at split
  | cons f files ih =>
    rw [List.mapM_cons] at h
    simp only [run_then] at h
    cases first : (deliver storage o count f).run t with | mk d t₁ =>
    rw [first] at h
    cases rest : (files.mapM (deliver storage o count)).run t₁ with | mk ds₁ t₂ =>
    rw [rest] at h
    replace h : (d :: ds₁, t₂) = (ds, t') := h
    cases h
    obtain ⟨⟨w, rfl⟩, others⟩ := List.forall_mem_cons.1 written
    obtain ⟨later, others⟩ := ih rest others
    obtain ⟨a, result, rfl, wrote⟩ := deliver_eq_written first
    refine ⟨.cons ⟨a, result, rfl⟩ later, fun folder given => ?_⟩
    obtain ⟨t₀, folders, ok⟩ := wrote folder given many
    obtain ⟨kept, reads⟩ := others folder given
    have own : Keeps (IsOutput o (f :: files)) t t₁ :=
      (folders.mono fun _ => False.elim).trans (keeps_deliver List.mem_cons_self ok)
    have others : Keeps (IsOutput o (f :: files)) t₁ t' :=
      kept.mono fun place ⟨g, hg, name⟩ => ⟨g, List.mem_cons_of_mem f hg, name⟩
    refine ⟨own.trans others, fun front g back b split result' last => ?_⟩
    cases front with
    | nil =>
      cases split
      rw [result] at result'
      cases result'
      -- The file was written just now, and the later ones have other names.
      refine kept.read (FileTree.read_of_write ok) fun above n name ⟨g, hg, same⟩ => ?_
      rw [Path.getLast?_steps_join (Options.plain_outputName o f.path)] at name
      cases name
      rw [List.getLast?_concat, Option.some.injEq, Options.outputName_eq_iff] at same
      exact last g hg same.symm
    | cons g' front =>
      cases split
      exact reads front g back b rfl result' last

/-! ## Runs -/

/-- The inputs with their texts, as they are read from a tree. -/
def readAll (t : FileTree) (inputs : List String) : List ReadInput :=
  inputs.map fun path => (path, (t.read path).mapError (·.message))

theorem run_readAll (t : FileTree) (inputs : List String) :
    (inputs.mapM fun path => do return (path, ← storage.read path)).run t =
      (readAll t inputs, t) := by
  induction inputs with
  | nil => rfl
  | cons path inputs ih =>
    rw [List.mapM_cons]
    exact congrArg (fun r => ((path, (t.read path).mapError (·.message)) :: r.1, r.2)) ih

/-- If all inputs could be read, they are the sources. -/
theorem sourcesOf_readAll {inputs : List String} (readable : unreadable (readAll t inputs) = []) :
    (sourcesOf (readAll t inputs)).map (·.path) = inputs ∧
      ∀ f ∈ sourcesOf (readAll t inputs), t.read f.path = .ok f.text := by
  induction inputs with
  | nil => exact ⟨rfl, List.forall_mem_nil _⟩
  | cons path inputs ih =>
    unfold readAll unreadable at readable
    unfold readAll sourcesOf
    rw [List.map_cons, List.filterMap_cons] at readable ⊢
    cases text : t.read path with
    | error e =>
      simp only [text] at readable
      cases readable
    | ok text' =>
      simp only [text] at readable ⊢
      obtain ⟨paths, texts⟩ := ih readable
      exact ⟨congrArg _ paths, List.forall_mem_cons.2 ⟨text, texts⟩⟩

theorem paths_compileFrom {x : ClassIndex} {order : List Nat} (first : Nat) (files : List SourceFile) :
    (compileFrom o count x order first files).map (·.path) = files.map (·.path) := by
  induction files generalizing first with
  | nil => rfl
  | cons f files ih => exact congrArg _ (ih (first + 1))

theorem run_eq [Json.Library] (o : Options) (inputs : List String) (t : FileTree) :
    (run storage o inputs).run t =
      match compileAs o inputs.length (sourcesOf (readAll t inputs)) with
      | .error cycle => ({ failures := unreadable (readAll t inputs), cycle := some cycle }, t)
      | .ok files =>
        let (ds, t') := (files.mapM (deliver storage o inputs.length)).run t
        (reportOf (readAll t inputs) (files.flatMap (notesOn o)) ds, t') := by
  unfold run
  simp only [run_then, run_readAll]
  cases compileAs o inputs.length (sourcesOf (readAll t inputs)) <;> rfl

theorem exitCode_eq_zero_iff {report : BatchReport} :
    report.exitCode = 0 ↔ report.failures = [] ∧ report.cycle = none ∧ report.compileErrors = [] := by
  unfold BatchReport.exitCode
  cases report.failures <;> cases report.cycle <;> cases report.compileErrors <;> simp

/-- In a report without failures and errors everything was written. -/
theorem written_of_reportOf {inputs : List ReadInput} {notes : List Note} {ds : List Delivery}
    (fine : (reportOf inputs notes ds).exitCode = 0) :
    unreadable inputs = [] ∧ ∀ d ∈ ds, ∃ w, d = .written w := by
  obtain ⟨failures, -, errors⟩ := exitCode_eq_zero_iff.1 fine
  obtain ⟨readable, writable⟩ := List.append_eq_nil_iff.1 failures
  refine ⟨readable, fun d hd => ?_⟩
  cases d with
  | written w => exact ⟨w, rfl⟩
  | refused e => exact absurd (List.filterMap_eq_nil_iff.1 errors _ hd) nofun
  | unwritable f => exact absurd (List.filterMap_eq_nil_iff.1 writable _ hd) nofun

/-- The outcomes of what was written, one for each file. -/
theorem outcomes_of_forall₂ {files : List CompiledFile} {ds : List Delivery}
    (h : List.Forall₂ (fun f d => ∃ a, f.result = .ok a ∧ d = .written (outcomeOf o count f a)) files ds) :
    List.Forall₂ (fun f a => f.result = .ok a) files (artifactsOf files) ∧
      (ds.filterMap fun
        | .written w => some w
        | _ => none) = List.zipWith (outcomeOf o count) files (artifactsOf files) := by
  induction h with
  | nil => exact ⟨.nil, rfl⟩
  | cons first _ ih =>
    obtain ⟨a, result, rfl⟩ := first
    have one : ∀ rest, artifactsOf (_ :: rest) = a :: artifactsOf rest := fun rest => by
      rw [artifactsOf_cons, toOption_eq_some_iff.2 result]
      rfl
    rw [one, List.filterMap_cons]
    exact ⟨.cons result ih.1, congrArg _ ih.2⟩

/-- What holds after a run over several inputs that reports no fault. -/
structure Written [Json.Library] (o : Options) (inputs : List String) (t : FileTree) (report : BatchReport)
    (t' : FileTree) (files : List SourceFile) (compiled : List CompiledFile) : Prop where
  /-- All inputs were read, -/
  paths : files.map (·.path) = inputs
  texts : ∀ f ∈ files, t.read f.path = .ok f.text
  /-- and all of them compiled. -/
  compiles : compileAs o inputs.length files = .ok compiled
  compiledPaths : compiled.map (·.path) = inputs
  results : List.Forall₂ (fun f a => f.result = .ok a) compiled (artifactsOf compiled)
  /-- One outcome is reported for each. -/
  outcomes : report.outcomes = List.zipWith (outcomeOf o inputs.length) compiled (artifactsOf compiled)
  /-- An output file holds the artifact of its input unless a later input has the same stem. -/
  reads : ∀ front f back a path, compiled = front ++ f :: back → f.result = .ok a →
    o.outputFor inputs.length f.path = some path →
    (∀ g ∈ back, Options.outputStem g.path ≠ Options.outputStem f.path) →
    t'.read path = .ok (a.render o.format)
  /-- If the classes can be told apart, loading the artifacts registers the classes of those whose guard
  no earlier one has, and no others. -/
  loads : (indexOf files).DistinctNames → (indexOf files).PlainBases →
    (∀ a ∈ artifactsOf compiled, ∀ t ∈ a.classes, t.strings.length < 2 ^ 32) →
    (load compiled).tables = (Registry.firstOf [] (artifactsOf compiled)).flatMap (·.classes)

theorem written_of_run [Json.Library] {inputs : List String} (several : inputs.length ≠ 1) {report : BatchReport}
    (ran : (run storage o inputs).run t = (report, t')) (fine : report.exitCode = 0) :
    ∃ files compiled, Written o inputs t report t' files compiled := by
  rw [run_eq] at ran
  cases ok : compileAs o inputs.length (sourcesOf (readAll t inputs)) with
  | error cycle =>
    rw [ok] at ran
    cases ran
    cases (exitCode_eq_zero_iff.1 fine).2.1
  | ok compiled =>
    rw [ok] at ran
    cases delivered : (compiled.mapM (deliver storage o inputs.length)).run t with | mk ds t₁ =>
    simp only [delivered] at ran
    cases ran
    obtain ⟨readable, written⟩ := written_of_reportOf fine
    obtain ⟨paths, texts⟩ := sourcesOf_readAll readable
    obtain ⟨each, kept⟩ := deliverAll several delivered written
    obtain ⟨results, outcomes⟩ := outcomes_of_forall₂ each
    obtain ⟨order, ordered, tabulates⟩ := compileAs_eq_ok ok
    have compiledPaths : compiled.map (·.path) = inputs := by
      rw [compileAs_eq, ordered] at ok
      cases ok
      rw [paths_compileFrom, paths]
    refine ⟨_, compiled, paths, texts, ok, compiledPaths, results, outcomes, ?_, ?_⟩
    · intro front f back a path split result goes last
      cases given : o.output with
      | none =>
        rw [Options.outputFor, given] at goes
        cases goes
      | some folder =>
        rw [Options.outputFor_eq several given, Option.some.injEq] at goes
        exact goes ▸ (kept folder given).2 front f back a split result last
    · intro names plain fits
      have loadable := loadable_artifacts ordered tabulates names plain fits
      have classes := (Registry.run_of_loadable (r := {}) (version_of_mem tabulates) loadable).1
      rw [Registry.tables, load, classes]
      exact Registry.tables_addAll

/-- In a batch of several inputs two guards are equal just if the stems in capitals are, and two output
files just if the stems are. After a run with exit code zero an output file holds the last artifact that
goes there, and loading the artifacts registers the first of each guard (`Written`). -/
theorem outputs_hold_last_artifacts [Json.Library] (o : Options) (inputs : List String) (many : 2 ≤ inputs.length) :
    (∀ p q, o.guardFor inputs.length p = o.guardFor inputs.length q ↔
      Options.guardStem p = Options.guardStem q) ∧
    (∀ folder, o.output = some folder → ∀ p q,
      o.outputFor inputs.length p = o.outputFor inputs.length q ↔
        Options.outputStem p = Options.outputStem q) ∧
    ∀ t report t', (run storage o inputs).run t = (report, t') → report.exitCode = 0 →
      ∃ files compiled, Written o inputs t report t' files compiled := by
  have several : inputs.length ≠ 1 := by omega
  exact ⟨fun p q => Options.guardFor_eq_iff several,
    fun folder given p q => Options.outputFor_eq_iff several given,
    fun t report t' ran fine => written_of_run several ran fine⟩

/-- Two inputs have two artifacts. -/
theorem Written.pair [Json.Library] {p q : String} {report : BatchReport} {files : List SourceFile}
    {compiled : List CompiledFile} (h : Written o [p, q] t report t' files compiled) :
    ∃ f g a b, compiled = [f, g] ∧ f.path = p ∧ g.path = q ∧ f.result = .ok a ∧ g.result = .ok b ∧
      report.outcomes = [outcomeOf o 2 f a, outcomeOf o 2 g b] := by
  obtain ⟨f, rest, rfl, hf, paths⟩ := List.map_eq_cons_iff.1 h.compiledPaths
  obtain ⟨g, rest, rfl, hg, paths⟩ := List.map_eq_cons_iff.1 paths
  obtain rfl := List.map_eq_nil_iff.1 paths
  obtain ⟨a, as, first, results, e⟩ := List.forall₂_cons_left_iff.1 h.results
  obtain ⟨b, as, second, results, rfl⟩ := List.forall₂_cons_left_iff.1 results
  have outcomes := h.outcomes
  rw [e] at outcomes
  cases results
  exact ⟨f, g, a, b, rfl, hf, hg, first, second, outcomes⟩

/-- Three headers, two of them of one name. -/
def shelf : FileTree where
  entries :=
    [(["a"], .folder), (["b"], .folder), (["a", "bell.h"], .file "class Bell { H_OBJECT };".toUTF8),
      (["b", "bell.h"], .file "class Rope { H_OBJECT };".toUTF8),
      (["b", "rope.h"], .file "class Rope { H_OBJECT };".toUTF8)]

/-- Headers of different names: both outputs can be read. -/
theorem both_outputs_are_kept :
    ∃ bell rope : Artifact,
      let (report, t) := (run storage { output := some "out" } ["a/bell.h", "b/rope.h"]).run shelf
      report.exitCode = 0 ∧ bell.classes.map (·.name) = ["Bell"] ∧
        t.read "out/moc_bell.json" = .ok (bell.render .json) ∧
        rope.classes.map (·.name) = ["Rope"] ∧ t.read "out/moc_rope.json" = .ok (rope.render .json) := by
  have reported : ((run storage { output := some "out" } ["a/bell.h", "b/rope.h"]).run shelf).1 =
      { outcomes := [⟨"a/bell.h", some "out/moc_bell.json", ["Bell"]⟩,
          ⟨"b/rope.h", some "out/moc_rope.json", ["Rope"]⟩] } := by
    decide +kernel
  generalize ran : (run storage { output := some "out" } ["a/bell.h", "b/rope.h"]).run shelf = after at *
  obtain ⟨report, t⟩ := after
  cases reported
  obtain ⟨-, -, runs⟩ :=
    outputs_hold_last_artifacts { output := some "out" } ["a/bell.h", "b/rope.h"] (by decide)
  obtain ⟨files, compiled, written⟩ := runs shelf _ t ran rfl
  obtain ⟨f, g, bell, rope, rfl, hf, hg, first, second, outcomes⟩ := written.pair
  simp only [outcomeOf, List.cons.injEq, Outcome.mk.injEq] at outcomes
  refine ⟨bell, rope, rfl, outcomes.1.2.2.symm, ?_, outcomes.2.1.2.2.symm, ?_⟩
  · refine written.reads [] f [g] bell _ rfl first outcomes.1.2.1.symm ?_
    rw [List.forall_mem_singleton, hf, hg]
    decide
  · exact written.reads [f] g [] rope _ rfl second outcomes.2.1.2.1.symm (List.forall_mem_nil _)

/-- Headers of one name in two folders: the run reports no fault, but its only output file holds the
second artifact, and the registry ignores all artifacts but the first. -/
theorem equal_stems_collide :
    let o : Options := { output := some "out" }
    let inputs := ["a/bell.h", "b/bell.h"]
    let after := (run storage o inputs).run shelf
    inputs.Nodup ∧ after.1.exitCode = 0 ∧
      o.guardFor 2 "a/bell.h" = o.guardFor 2 "b/bell.h" ∧
      after.1.outcomes.map (·.output) = [some "out/moc_bell.json", some "out/moc_bell.json"] ∧
      (∃ rope : Artifact, rope.classes.map (·.name) = ["Rope"] ∧
        after.2.read "out/moc_bell.json" = .ok (rope.render .json)) ∧
      ((compile o [⟨"a/bell.h", "class Bell { H_OBJECT };"⟩,
        ⟨"b/bell.h", "class Rope { H_OBJECT };"⟩]).toOption.map fun compiled =>
          (load compiled).tables.map (·.name)) = some ["Bell"] := by
  intro o inputs after
  have reported : after.1 = { outcomes := [⟨"a/bell.h", some "out/moc_bell.json", ["Bell"]⟩,
      ⟨"b/bell.h", some "out/moc_bell.json", ["Rope"]⟩] } := by
    decide +kernel
  refine ⟨by decide, by rw [reported]; rfl, by decide, by rw [reported]; rfl, ?_, by decide +kernel⟩
  obtain ⟨files, compiled, written⟩ := written_of_run (by decide)
    (show (run storage o inputs).run shelf = (after.1, after.2) from rfl) (by rw [reported]; rfl)
  obtain ⟨f, g, bell, rope, rfl, -, -, -, second, outcomes⟩ := written.pair
  rw [reported] at outcomes
  simp only [outcomeOf, List.cons.injEq, Outcome.mk.injEq] at outcomes
  exact ⟨rope, outcomes.2.1.2.2.symm,
    written.reads [f] g [] rope _ rfl second outcomes.2.1.2.1.symm (List.forall_mem_nil _)⟩

end Batch
end Reflection

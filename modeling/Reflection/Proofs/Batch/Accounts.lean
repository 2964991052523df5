import Reflection.Proofs.Batch.Isolation
import Reflection.Proofs.Batch.Outputs
/-!
# What becomes of each input

A run asks a storage for the texts of its inputs and hands it the artifacts. The storage may refuse any of
this. `Storage.recorded` takes down each request and its answer, and `Records` says which requests belong to
a part of a run, so that the requests of a whole run are those of its parts one after the other. Each input
then has one fate (`Accounts`): it was not read, it did not compile, or its artifact was written or not. The
report lists each fate once, and the exit code tells what kinds there are (`run_accounts_for_each_input`).
-/

namespace Reflection

/-! ## Recorded requests -/

/-- A request to a storage with its answer. -/
inductive Exchange where
  | read (path : String) (answer : Except String String)
  | createFolders (path : String) (answer : Except String Unit)
  | write (path text : String) (answer : Except String Unit)
  | print (text : String) (answer : Except String Unit)

/-- Was the request refused? -/
def Exchange.failed : Exchange → Bool
  | .read _ (.error _) | .createFolders _ (.error _) | .write _ _ (.error _) | .print _ (.error _) => true
  | _ => false

variable {σ α β : Type}

/-- Adds a request with its answer to the end of a record. -/
def recording (ask : StateM σ α) (exchange : α → Exchange) : StateM (List Exchange × σ) α := do
  let (log, t) ← get
  let (answer, t) := ask.run t
  set (log ++ [exchange answer], t)
  return answer

/-- The same storage with a record of all requests. -/
def Storage.recorded (s : Storage (StateM σ)) : Storage (StateM (List Exchange × σ)) where
  read path := recording (s.read path) (.read path)
  createFolders path := recording (s.createFolders path) (.createFolders path)
  write path text := recording (s.write path text) (.write path text)
  print text := recording (s.print text) (.print text)

/-- The program does the same with and without a record, and its requests have a property with its
result. -/
def Records (x : StateM σ α) (y : StateM (List Exchange × σ) α) (P : α → List Exchange → Prop) : Prop :=
  ∀ log t, ∃ asked, y.run (log, t) = ((x.run t).1, log ++ asked, (x.run t).2) ∧ P (x.run t).1 asked

namespace Records

variable {x : StateM σ α} {y : StateM (List Exchange × σ) α} {P P' : α → List Exchange → Prop}

theorem recording (ask : StateM σ α) (exchange : α → Exchange) :
    Records ask (recording ask exchange) fun a asked => asked = [exchange a] :=
  fun _ _ => ⟨_, rfl, rfl⟩

theorem mono (h : Records x y P) (imp : ∀ a asked, P a asked → P' a asked) : Records x y P' := by
  intro log t
  obtain ⟨asked, same, holds⟩ := h log t
  exact ⟨asked, same, imp _ _ holds⟩

theorem pure {a : α} (h : P a []) : Records (σ := σ) (Pure.pure a) (Pure.pure a) P :=
  fun log _ => ⟨[], by rw [List.append_nil]; rfl, h⟩

/-- The requests of two programs, one after the other. -/
theorem bind {f : α → StateM σ β} {g : α → StateM (List Exchange × σ) β} {Q : α → β → List Exchange → Prop}
    (h : Records x y P) (next : ∀ a, Records (f a) (g a) (Q a)) :
    Records (x >>= f) (y >>= g) fun b asked =>
      ∃ a first rest, P a first ∧ Q a b rest ∧ asked = first ++ rest := by
  intro log t
  obtain ⟨first, same, holds⟩ := h log t
  obtain ⟨rest, same', holds'⟩ := next (x.run t).1 (log ++ first) (x.run t).2
  refine ⟨first ++ rest, ?_, (x.run t).1, first, rest, holds, holds', rfl⟩
  rw [Batch.run_then, Batch.run_then, same, same', List.append_assoc]

/-- The same requests with another result. -/
theorem map (h : Records x y P) (f : α → β) :
    Records (do return f (← x)) (do return f (← y)) fun b asked => ∃ a, b = f a ∧ P a asked := by
  refine (h.bind fun a => pure (P := fun b asked => b = f a ∧ asked = []) ⟨rfl, rfl⟩).mono ?_
  rintro b _ ⟨a, first, _, holds, ⟨same, rfl⟩, rfl⟩
  exact ⟨a, same, by rwa [List.append_nil]⟩

end Records

/-- The items of two lists are related in pairs, with the requests of all pairs one after the other. -/
inductive Each (P : α → β → List Exchange → Prop) : List α → List β → List Exchange → Prop
  | nil : Each P [] [] []
  | cons {a : α} {b : β} {as : List α} {bs : List β} {own asked : List Exchange} (first : P a b own)
      (rest : Each P as bs asked) : Each P (a :: as) (b :: bs) (own ++ asked)

/-- A list is worked through item by item. -/
theorem Records.mapM {f : α → StateM σ β} {g : α → StateM (List Exchange × σ) β}
    {P : α → β → List Exchange → Prop} (h : ∀ a, Records (f a) (g a) (P a)) (as : List α) :
    Records (as.mapM f) (as.mapM g) (Each P as) := by
  induction as with
  | nil => exact .pure .nil
  | cons a as ih =>
    rw [List.mapM_cons, List.mapM_cons]
    refine ((h a).bind fun b => ih.map (b :: ·)).mono ?_
    rintro _ _ ⟨b, own, asked, first, ⟨bs, rfl, rest⟩, rfl⟩
    exact .cons first rest

namespace Batch

variable {s : Storage (StateM σ)} {o : Options} {count : Nat} {f : CompiledFile}

/-! ## One artifact -/

/-- What is asked to put a text where it belongs, and what comes of it. -/
inductive Puts (text : String) : Option String → List Exchange → Except FileFailure Unit → Prop
  | print (answer : Except String Unit) :
    Puts text none [.print text answer] (answer.mapError (⟨.write, "<stdout>", ·⟩))
  | write {path : String} (here : (Path.parent? path).filter (· ≠ "") = none) (answer : Except String Unit) :
    Puts text (some path) [.write path text answer] (answer.mapError (⟨.write, path, ·⟩))
  | noFolder {path folder : String} (above : (Path.parent? path).filter (· ≠ "") = some folder)
    (reason : String) :
    Puts text (some path) [.createFolders folder (.error reason)] (.error ⟨.write, folder, reason⟩)
  | inFolder {path folder : String} (above : (Path.parent? path).filter (· ≠ "") = some folder)
    (answer : Except String Unit) :
    Puts text (some path) [.createFolders folder (.ok ()), .write path text answer]
      (answer.mapError (⟨.write, path, ·⟩))

theorem records_writeFile (s : Storage (StateM σ)) (path text : String) :
    Records (writeFile s path text) (writeFile s.recorded path text) fun r asked =>
      Puts text (some path) asked r := by
  have put : Records (do return (← s.write path text).mapError (FileFailure.mk .write path))
      (do return (← s.recorded.write path text).mapError (FileFailure.mk .write path)) fun r asked =>
        ∃ answer, r = answer.mapError (FileFailure.mk .write path) ∧ asked = [.write path text answer] :=
    (Records.recording (s.write path text) (.write path text)).map _
  unfold writeFile
  split
  · rename_i here
    refine put.mono ?_
    rintro _ _ ⟨answer, rfl, rfl⟩
    exact .write here answer
  · rename_i folder above
    refine ((Records.recording (s.createFolders folder) (.createFolders folder)).bind
      (Q := fun made r asked =>
        (∃ reason, made = .error reason ∧ r = .error ⟨.write, folder, reason⟩ ∧ asked = []) ∨
          ∃ answer, made = .ok () ∧ r = answer.mapError (FileFailure.mk .write path) ∧
            asked = [.write path text answer]) fun made => ?_).mono ?_
    · cases made with
      | error reason => exact .pure (.inl ⟨reason, rfl, rfl, rfl⟩)
      | ok _ => exact put.mono fun _ _ ⟨answer, result, asked⟩ => .inr ⟨answer, rfl, result, asked⟩
    · rintro r _ ⟨_, _, _, rfl, ⟨_, rfl, rfl, rfl⟩ | ⟨answer, rfl, rfl, rfl⟩, rfl⟩
      · exact .noFolder above _
      · exact .inFolder above answer

theorem records_writeOutput (s : Storage (StateM σ)) (output : Option String) (text : String) :
    Records (writeOutput s output text) (writeOutput s.recorded output text) fun r asked =>
      Puts text output asked r := by
  cases output with
  | some path => exact records_writeFile s path text
  | none =>
    refine ((Records.recording (s.print text) (.print text)).map _).mono ?_
    rintro _ _ ⟨answer, rfl, rfl⟩
    exact .print answer

/-- What is asked for a compiled file, and what becomes of it. -/
inductive Delivers [Json.Library] (o : Options) (count : Nat) (f : CompiledFile) : Delivery → List Exchange → Prop
  | refused {e : CompileError} (result : f.result = .error e) : Delivers o count f (.refused e) []
  | written {a : Artifact} {asked : List Exchange} (result : f.result = .ok a)
    (puts : Puts (a.render o.format) (o.outputFor count f.path) asked (.ok ())) :
    Delivers o count f (.written (outcomeOf o count f a)) asked
  | unwritable {a : Artifact} {asked : List Exchange} {failure : FileFailure} (result : f.result = .ok a)
    (puts : Puts (a.render o.format) (o.outputFor count f.path) asked (.error failure)) :
    Delivers o count f (.unwritable failure) asked

theorem records_deliver [Json.Library] (s : Storage (StateM σ)) (o : Options) (count : Nat) (f : CompiledFile) :
    Records (deliver s o count f) (deliver s.recorded o count f) (Delivers o count f) := by
  unfold deliver
  cases result : f.result with
  | error e => exact .pure (.refused result)
  | ok a =>
    refine ((records_writeOutput s (o.outputFor count f.path) (a.render o.format)).bind
      (Q := fun done d asked => asked = [] ∧
        ((∃ failure, done = .error failure ∧ d = .unwritable failure) ∨
          done = .ok () ∧ d = .written (outcomeOf o count f a))) fun done => ?_).mono ?_
    · cases done with
      | ok _ => exact .pure ⟨rfl, .inr ⟨rfl, rfl⟩⟩
      | error failure => exact .pure ⟨rfl, .inl ⟨failure, rfl, rfl⟩⟩
    · rintro d _ ⟨_, asked, _, puts, ⟨rfl, ⟨_, rfl, rfl⟩ | ⟨rfl, rfl⟩⟩, rfl⟩
      · rw [List.append_nil]
        exact .unwritable result puts
      · rw [List.append_nil]
        exact .written result puts

/-! ## A whole run -/

variable {inputs : List String} {reads : List ReadInput} {compiled : List CompiledFile} {ds : List Delivery}
  {asked : List Exchange}

/-- The request that an input was read with. -/
def readOf (input : ReadInput) : Exchange :=
  .read input.1 input.2

theorem records_reads (s : Storage (StateM σ)) (inputs : List String) :
    Records (inputs.mapM fun path => do return (path, ← s.read path))
      (inputs.mapM fun path => do return (path, ← s.recorded.read path)) fun reads asked =>
        reads.map (·.1) = inputs ∧ asked = reads.map readOf := by
  have one : ∀ path, Records (do return (path, ← s.read path)) (do return (path, ← s.recorded.read path))
      fun read asked => ∃ answer, read = (path, answer) ∧ asked = [.read path answer] :=
    fun path => (Records.recording (s.read path) (.read path)).map _
  refine (Records.mapM one inputs).mono fun reads asked each => ?_
  induction each with
  | nil => exact ⟨rfl, rfl⟩
  | cons first _ ih =>
    obtain ⟨answer, rfl, rfl⟩ := first
    obtain ⟨paths, rfl⟩ := ih
    exact ⟨congrArg _ paths, rfl⟩

/-- Inputs are read first. Then artifacts are written, unless there is a circle. -/
theorem records_run [Json.Library] (s : Storage (StateM σ)) (o : Options) (inputs : List String) :
    Records (run s o inputs) (run s.recorded o inputs) fun report log =>
      ∃ reads asked, reads.map (·.1) = inputs ∧ log = reads.map readOf ++ asked ∧
        match compileAs o inputs.length (sourcesOf reads) with
        | .error cycle => asked = [] ∧ report = { failures := unreadable reads, cycle := some cycle }
        | .ok compiled => ∃ ds, Each (Delivers o inputs.length) compiled ds asked ∧
            report = reportOf reads (compiled.flatMap (notesOn o)) ds := by
  unfold run
  refine ((records_reads s inputs).bind (Q := fun reads report asked =>
    match compileAs o inputs.length (sourcesOf reads) with
    | .error cycle => asked = [] ∧ report = { failures := unreadable reads, cycle := some cycle }
    | .ok compiled => ∃ ds, Each (Delivers o inputs.length) compiled ds asked ∧
        report = reportOf reads (compiled.flatMap (notesOn o)) ds) fun reads => ?_).mono ?_
  · cases compileAs o inputs.length (sourcesOf reads) with
    | error cycle => exact .pure ⟨rfl, rfl⟩
    | ok compiled =>
      refine ((Records.mapM (records_deliver s o inputs.length) compiled).map _).mono ?_
      rintro report asked ⟨ds, rfl, each⟩
      exact ⟨ds, each, rfl⟩
  · rintro report _ ⟨reads, _, asked, ⟨paths, rfl⟩, after, rfl⟩
    exact ⟨reads, asked, paths, rfl, after⟩

/-! ## Fates of inputs -/

/-- What became of an input. -/
inductive Fate where
  | unread (failure : FileFailure)
  | read (delivery : Delivery)

def Delivery.outcome? : Delivery → Option Outcome
  | .written w => some w
  | _ => none

def Delivery.compileError? : Delivery → Option CompileError
  | .refused e => some e
  | _ => none

def Delivery.failure? : Delivery → Option FileFailure
  | .unwritable f => some f
  | _ => none

namespace Fate

def readFailure? : Fate → Option FileFailure
  | .unread f => some f
  | .read _ => none

def delivery? : Fate → Option Delivery
  | .unread _ => none
  | .read d => some d

def outcome? (fate : Fate) : Option Outcome :=
  fate.delivery?.bind Delivery.outcome?

def compileError? (fate : Fate) : Option CompileError :=
  fate.delivery?.bind Delivery.compileError?

def writeFailure? (fate : Fate) : Option FileFailure :=
  fate.delivery?.bind Delivery.failure?

end Fate

/-- The fates of inputs, in their order: the artifact of each one that could be read is delivered, with these
requests. -/
inductive Accounts [Json.Library] (o : Options) (count : Nat) :
    List ReadInput → List CompiledFile → List Fate → List Exchange → Prop
  | nil : Accounts o count [] [] [] []
  | unread {path reason : String} {inputs : List ReadInput} {compiled : List CompiledFile} {fates : List Fate}
    {asked : List Exchange} (rest : Accounts o count inputs compiled fates asked) :
    Accounts o count ((path, .error reason) :: inputs) compiled (.unread ⟨.read, path, reason⟩ :: fates) asked
  | read {text : String} {inputs : List ReadInput} {f : CompiledFile} {compiled : List CompiledFile}
    {d : Delivery} {fates : List Fate} {own asked : List Exchange} (delivers : Delivers o count f d own)
    (rest : Accounts o count inputs compiled fates asked) :
    Accounts o count ((f.path, .ok text) :: inputs) (f :: compiled) (.read d :: fates) (own ++ asked)

section Fates

variable {library : Json.Library} {fates : List Fate}

theorem Accounts.length (h : Accounts o count reads compiled fates asked) : fates.length = reads.length := by
  induction h with
  | nil => rfl
  | unread _ ih => exact congrArg (· + 1) ih
  | read _ _ ih => exact congrArg (· + 1) ih

/-- The files that compiled or not are those that were read. -/
theorem exists_accounts (paths : compiled.map (·.path) = (sourcesOf reads).map (·.path))
    (each : Each (Delivers o count) compiled ds asked) :
    ∃ fates, Accounts o count reads compiled fates asked ∧ fates.filterMap Fate.delivery? = ds ∧
      fates.filterMap Fate.readFailure? = unreadable reads := by
  induction reads generalizing compiled ds asked with
  | nil =>
    obtain rfl := List.map_eq_nil_iff.1 paths
    cases each
    exact ⟨[], .nil, rfl, rfl⟩
  | cons input reads ih =>
    obtain ⟨path, reason | text⟩ := input
    · obtain ⟨fates, accounts, deliveries, failures⟩ := ih paths each
      exact ⟨.unread ⟨.read, path, reason⟩ :: fates, accounts.unread, deliveries, congrArg _ failures⟩
    · obtain ⟨f, compiled, rfl, rfl, others⟩ := List.map_eq_cons_iff.1 paths
      obtain _ | ⟨delivers, rest⟩ := each
      obtain ⟨fates, accounts, deliveries, failures⟩ := ih others rest
      exact ⟨.read _ :: fates, accounts.read delivers, congrArg _ deliveries, failures⟩

/-- If all have outcomes, these are those of the inputs. -/
theorem Accounts.inputs_of_outcomes (h : Accounts o count reads compiled fates asked)
    (all : ∀ fate ∈ fates, fate.outcome?.isSome) :
    (fates.filterMap Fate.outcome?).map (·.input) = reads.map (·.1) := by
  induction h with
  | nil => rfl
  | unread => cases all _ List.mem_cons_self
  | @read text inputs f compiled d fates own asked delivers _ ih =>
    obtain ⟨here, others⟩ := List.forall_mem_cons.1 all
    cases delivers with
    | refused => cases here
    | written => exact congrArg (f.path :: ·) (ih others)
    | unwritable => cases here

/-- An input without an outcome is a compile error or a failure. -/
theorem isSome_outcome?_iff (fate : Fate) :
    fate.outcome?.isSome ↔ fate.compileError? = none ∧ fate.readFailure? = none ∧ fate.writeFailure? = none := by
  obtain failure | _ | _ | _ := fate <;>
    simp [Fate.outcome?, Fate.compileError?, Fate.readFailure?, Fate.writeFailure?, Fate.delivery?,
      Delivery.outcome?, Delivery.compileError?, Delivery.failure?]

/-! ## Refused requests -/

theorem Puts.failed_iff {text : String} {output : Option String} {r : Except FileFailure Unit}
    (h : Puts text output asked r) : (∃ e ∈ asked, e.failed) ↔ ∃ failure, r = .error failure := by
  cases h with
  | print answer => cases answer <;> simp [Exchange.failed, Except.mapError]
  | write _ answer => cases answer <;> simp [Exchange.failed, Except.mapError]
  | noFolder => simp [Exchange.failed]
  | inFolder _ answer => cases answer <;> simp [Exchange.failed, Except.mapError]

/-- A text that was printed was asked to be. -/
theorem Puts.asked_of_printed {text : String} (h : Puts text none asked (.ok ())) :
    asked = [.print text (.ok ())] := by
  generalize done : (Except.ok () : Except FileFailure Unit) = r at h
  obtain ⟨_ | _⟩ := h
  · cases done
  · rfl

theorem Delivers.failed_iff {d : Delivery} (h : Delivers o count f d asked) :
    (∃ e ∈ asked, e.failed) ↔ d.failure?.isSome := by
  cases h with
  | refused => simp [Delivery.failure?]
  | written _ puts => simp [puts.failed_iff, Delivery.failure?]
  | unwritable _ puts => simp [puts.failed_iff, Delivery.failure?]

/-- An artifact could not be written just if a request for it was refused. -/
theorem failed_of_each (each : Each (Delivers o count) compiled ds asked) :
    (∃ e ∈ asked, e.failed) ↔ ds.filterMap Delivery.failure? ≠ [] := by
  induction each with
  | nil => simp
  | @cons f d compiled ds own asked first _ ih =>
    have here := first.failed_iff
    cases failure : d.failure? with
    | none => simp_all [or_and_right, exists_or]
    | some _ => simp_all [or_and_right, exists_or]

theorem failed_reads (reads : List ReadInput) :
    (∃ e ∈ reads.map readOf, e.failed) ↔ unreadable reads ≠ [] := by
  induction reads with
  | nil => simp [unreadable]
  | cons input reads ih =>
    rw [List.map_cons, List.exists_mem_cons_iff]
    obtain ⟨path, reason | text⟩ := input
    · exact iff_of_true (.inl rfl) (List.cons_ne_nil _ _)
    · exact (or_iff_right Bool.false_ne_true).trans ih

theorem exitCode_eq_two_iff {report : BatchReport} : report.exitCode = 2 ↔ report.failures ≠ [] := by
  unfold BatchReport.exitCode
  cases report.failures <;> cases report.cycle <;> cases report.compileErrors <;> simp

theorem exitCode_le_two {report : BatchReport} : report.exitCode ≤ 2 := by
  unfold BatchReport.exitCode
  split
  · exact Nat.le_refl 2
  · split <;> decide

/-! ## Printed artifacts -/

/-- Where nothing is refused, exactly the artifacts of the outcomes are printed. -/
theorem prints_of_each (printed : o.output = none) (each : Each (Delivers o count) compiled ds asked)
    (fine : ∀ e ∈ asked, e.failed = false) :
    asked = (artifactsOf compiled).map (fun a => Exchange.print (a.render o.format) (.ok ())) ∧
    List.Forall₂ (fun w a => ∃ f ∈ compiled, f.result = .ok a ∧ w = outcomeOf o count f a)
      (ds.filterMap Delivery.outcome?) (artifactsOf compiled) := by
  induction each with
  | nil => exact ⟨rfl, .nil⟩
  | @cons f d compiled ds own asked first _ ih =>
    obtain ⟨here, later⟩ := List.forall_mem_append.1 fine
    obtain ⟨prints, outcomes⟩ := ih later
    replace outcomes : List.Forall₂ (fun w a => ∃ g ∈ f :: compiled, g.result = .ok a ∧ w = outcomeOf o count g a)
        (ds.filterMap Delivery.outcome?) (artifactsOf compiled) :=
      outcomes.imp fun w a ⟨g, hg, own⟩ => ⟨g, List.mem_cons_of_mem f hg, own⟩
    cases first with
    | refused result =>
      rw [artifactsOf_cons, result]
      exact ⟨prints, outcomes⟩
    | @written a own result puts =>
      rw [artifactsOf_cons, result]
      rw [Options.outputFor, printed] at puts
      rw [puts.asked_of_printed]
      exact ⟨congrArg _ prints, .cons ⟨f, List.mem_cons_self, result, rfl⟩ outcomes⟩
    | unwritable _ puts =>
      obtain ⟨e, he, failed⟩ := puts.failed_iff.2 ⟨_, rfl⟩
      rw [here e he] at failed
      cases failed

/-! ## Main statement -/

/-- What a run reports if there is no circle of bases. -/
structure Accounted [Json.Library] (o : Options) (reads : List ReadInput) (report : BatchReport)
    (compiled : List CompiledFile) (fates : List Fate) (asked : List Exchange) : Prop where
  cycle : report.cycle = none
  /-- Each input has one fate, -/
  accounts : Accounts o reads.length reads compiled fates asked
  /-- which is reported as an outcome, a compile error or a failure. -/
  outcomes : report.outcomes = fates.filterMap Fate.outcome?
  compileErrors : report.compileErrors = fates.filterMap Fate.compileError?
  failures : report.failures = fates.filterMap Fate.readFailure? ++ fates.filterMap Fate.writeFailure?
  /-- Artifacts have the guards of their inputs among all inputs, and errors name their inputs. -/
  guards : ∀ f ∈ compiled, ∀ a, f.result = .ok a → a.guard = o.guardFor reads.length f.path
  errors : ∀ f ∈ compiled, ∀ e, f.result = .error e → e.file = f.path
  /-- The exit code is zero just if each input has an outcome. -/
  exitCode : report.exitCode = 0 ↔ report.outcomes.map (·.input) = reads.map (·.1)
  /-- If artifacts go to the standard output and nothing that is asked then fails, those of the outcomes
  are printed one after the other, and nothing else is asked. -/
  prints : o.output = none → (∀ e ∈ asked, e.failed = false) →
    asked = (artifactsOf compiled).map (fun a => Exchange.print (a.render o.format) (.ok ())) ∧
    List.Forall₂ (fun w a => ∃ f ∈ compiled, f.result = .ok a ∧ w = outcomeOf o reads.length f a)
      report.outcomes (artifactsOf compiled)

/-- The files of a batch keep their paths, and what becomes of them carries their guards and names. -/
theorem named_of_compileAs {files : List SourceFile} (ok : compileAs o count files = .ok compiled) :
    compiled.map (·.path) = files.map (·.path) ∧ ∀ f ∈ compiled,
      (∀ a, f.result = .ok a → a.guard = o.guardFor count f.path) ∧
      ∀ e, f.result = .error e → e.file = f.path := by
  rw [compileAs_eq] at ok
  obtain ⟨order, ordered, rfl⟩ := map_eq_ok_iff.1 ok
  refine ⟨paths_compileFrom 0 files, fun r hr => ?_⟩
  let Named (r : CompiledFile) : Prop := (∀ a, r.result = .ok a → a.guard = o.guardFor count r.path) ∧
    ∀ e, r.result = .error e → e.file = r.path
  have each : ∀ k f, files[k]? = some f →
      Named (resultOf o count (indexOf files) order (0 + k) f) := by
    intro k f there
    rw [Nat.zero_add]
    refine ⟨fun a made => ?_, (belongsTo_resultOf ordered there).error⟩
    obtain ⟨ts, -, rfl⟩ := map_eq_ok_iff.1 made
    rfl
  have all := forall₂_compileFrom (P := fun _ => Named) 0 files each
  obtain ⟨f, -, named⟩ := exists_left_of_mem all r hr
  exact named

theorem accounted_of_each (ok : compileAs o reads.length (sourcesOf reads) = .ok compiled)
    (each : Each (Delivers o reads.length) compiled ds asked) (notes : List Note) :
    ∃ fates, Accounted o reads (reportOf reads notes ds) compiled fates asked := by
  obtain ⟨paths, named⟩ := named_of_compileAs ok
  obtain ⟨fates, accounts, rfl, unread⟩ := exists_accounts paths each
  have outcomes : (reportOf reads notes (fates.filterMap Fate.delivery?)).outcomes =
      fates.filterMap Fate.outcome? := List.filterMap_filterMap
  have errors : (reportOf reads notes (fates.filterMap Fate.delivery?)).compileErrors =
      fates.filterMap Fate.compileError? := List.filterMap_filterMap
  have failures : (reportOf reads notes (fates.filterMap Fate.delivery?)).failures =
      fates.filterMap Fate.readFailure? ++ fates.filterMap Fate.writeFailure? :=
    congrArg₂ _ unread.symm List.filterMap_filterMap
  refine ⟨fates, rfl, accounts, outcomes, errors, failures, fun f hf => (named f hf).1,
    fun f hf => (named f hf).2, ?_, fun printed fine => prints_of_each printed each fine⟩
  rw [exitCode_eq_zero_iff, errors, failures, outcomes, List.append_eq_nil_iff]
  have all : (∀ fate ∈ fates, fate.outcome?.isSome) ↔ (fates.filterMap Fate.readFailure? = [] ∧
      fates.filterMap Fate.writeFailure? = []) ∧ (none : Option DependencyCycle) = none ∧
      fates.filterMap Fate.compileError? = [] := by
    simp only [List.filterMap_eq_nil_iff, isSome_outcome?_iff]
    grind
  refine all.symm.trans ⟨accounts.inputs_of_outcomes, fun same => ?_⟩
  -- There are as many outcomes as inputs, so none is missing.
  have length := congrArg List.length same
  rw [List.length_map, List.length_map, ← accounts.length] at length
  exact List.filterMap_length_eq_length.1 length

end Fates

/-- Whatever a storage refuses, a run asks for all inputs first and reports exit code two just if a request
was refused. If the bases of the inputs that could be read run in a circle, that is all, and the report
lists what was not read. Otherwise each input has one fate, and the report lists it (`Accounted`). Without
the record the run does the same. -/
theorem run_accounts_for_each_input [Json.Library] (s : Storage (StateM σ)) (o : Options) (inputs : List String) (t : σ) :
    ∃ report reads asked t', (run s o inputs).run t = (report, t') ∧
      (run s.recorded o inputs).run ([], t) = (report, reads.map readOf ++ asked, t') ∧
      reads.map (·.1) = inputs ∧
      (report.exitCode = 2 ↔ ∃ e ∈ reads.map readOf ++ asked, e.failed) ∧
      report.exitCode ≤ 2 ∧
      match compileAs o inputs.length (sourcesOf reads) with
      | .error cycle => asked = [] ∧ report = { failures := unreadable reads, cycle := some cycle } ∧
          report.exitCode ≠ 0
      | .ok compiled => ∃ fates, Accounted o reads report compiled fates asked := by
  obtain ⟨_, same, reads, asked, paths, rfl, ran⟩ := records_run s o inputs [] t
  generalize (run s o inputs).run t = result at same ran ⊢
  obtain ⟨report, t'⟩ := result
  subst paths
  refine ⟨report, reads, asked, t', rfl, same, rfl, ?_, exitCode_le_two, ?_⟩ <;>
    rw [List.length_map] at ran
  · simp only [List.mem_append, or_and_right, exists_or, failed_reads, exitCode_eq_two_iff]
    split at ran
    · obtain ⟨rfl, rfl⟩ := ran
      simp
    · obtain ⟨ds, each, rfl⟩ := ran
      rw [failed_of_each each, ← not_and_or, ← List.append_eq_nil_iff]
      rfl
  · rw [List.length_map]
    split at ran
    · obtain ⟨rfl, rfl⟩ := ran
      exact ⟨rfl, rfl, fun fine => Option.some_ne_none _ (exitCode_eq_zero_iff.1 fine).2.1⟩
    · rename_i compiled ok
      obtain ⟨ds, each, rfl⟩ := ran
      exact accounted_of_each ok each _

/-- Three headers, one of which asks for an enumeration that is not there, and a folder in the place of an
output file. -/
def attic : FileTree where
  entries :=
    [(["bell.h"], .file "class Bell { H_OBJECT };".toUTF8),
      (["rope.h"], .file "class Rope { H_OBJECT H_ENUM(Knot) };".toUTF8),
      (["clock.h"], .file "class Clock { H_OBJECT };".toUTF8),
      (["out"], .folder), (["out", "moc_clock.json"], .folder)]

/-- Four inputs with the four fates there are: `tower.h` does not exist, `bell.h` is written, `rope.h` does not
compile, and the artifact of `clock.h` cannot be written. -/
theorem attic_accounts_for_each_input :
    ∃ report reads compiled fates asked,
      ((run FileTree.storage { output := some "out" } ["tower.h", "bell.h", "rope.h", "clock.h"]).run attic).1 =
        report ∧
      reads.map (·.1) = ["tower.h", "bell.h", "rope.h", "clock.h"] ∧
      Accounted { output := some "out" } reads report compiled fates asked ∧ report.exitCode = 2 ∧
      report.outcomes = [⟨"bell.h", some "out/moc_bell.json", ["Bell"]⟩] ∧
      report.compileErrors = [⟨"rope.h", 1, .unknownEnum "H_ENUM" "Knot" "Rope"⟩] ∧
      report.failures = [⟨.read, "tower.h", "No such file or directory (os error 2)"⟩,
        ⟨.write, "out/moc_clock.json", "Is a directory (os error 21)"⟩] := by
  have reported : ((run FileTree.storage { output := some "out" } ["tower.h", "bell.h", "rope.h", "clock.h"]).run
      attic).1 =
        { outcomes := [⟨"bell.h", some "out/moc_bell.json", ["Bell"]⟩]
          compileErrors := [⟨"rope.h", 1, .unknownEnum "H_ENUM" "Knot" "Rope"⟩]
          failures := [⟨.read, "tower.h", "No such file or directory (os error 2)"⟩,
            ⟨.write, "out/moc_clock.json", "Is a directory (os error 21)"⟩] } := by
    decide +kernel
  obtain ⟨report, reads, asked, t, ran, -, paths, -, -, after⟩ := run_accounts_for_each_input FileTree.storage
    { output := some "out" } ["tower.h", "bell.h", "rope.h", "clock.h"] attic
  rw [ran] at reported ⊢
  obtain rfl : report = _ := reported
  split at after
  · exact nomatch congrArg BatchReport.cycle after.2.1
  · obtain ⟨fates, accounted⟩ := after
    exact ⟨_, reads, _, fates, asked, rfl, paths, accounted, rfl, rfl, rfl, rfl⟩

end Batch
end Reflection

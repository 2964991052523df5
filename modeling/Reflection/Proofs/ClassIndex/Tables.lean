import Mathlib.Algebra.Group.Nat.Defs
import Mathlib.Data.List.Forall2
import Mathlib.Data.List.Nodup
import Mathlib.Data.List.Perm.Basic
import Reflection.ClassIndex.Tables
import Reflection.Proofs.Table.Building
/-!
# What the table of a class lists

The methods of a table are the declared functions and, for calls that leave defaulted parameters out,
their shorter forms; the invariant of the passes that collect them is `Lists`. Main statement: a table
is valid, no two of its methods have one signature, and every declared function and every shorter form
is found in it exactly once (`tables_list_declared_methods`).
-/

namespace Reflection

/-! ## Shorter forms -/

theorem FunctionDeclaration.mem_shorter_iff {f : FunctionDeclaration} {m : MethodSpec} :
    m ∈ f.shorter ↔ ∃ k, 1 ≤ k ∧ k ≤ f.defaultedCount ∧ m = f.spec (f.parameters.length - k) true := by
  simp only [shorter, List.mem_map, List.mem_range]
  constructor
  · rintro ⟨n, hn, rfl⟩
    exact ⟨n + 1, Nat.le_add_left .., hn, rfl⟩
  · rintro ⟨k, pos, le, rfl⟩
    exact ⟨k - 1, by omega, by rw [Nat.sub_add_cancel pos]⟩

theorem FunctionDeclaration.cloned_of_mem_shorter {f : FunctionDeclaration} {m : MethodSpec}
    (h : m ∈ f.shorter) : m.cloned = true := by
  obtain ⟨_, -, -, rfl⟩ := mem_shorter_iff.1 h
  rfl

/-! ## Methods without repetitions -/

section Collecting

variable {isDeclared : String → Bool} {added : List MethodSpec}

theorem nodup_concat {m : MethodSpec} (h : (added.map (·.signature.canonical)).Nodup)
    (new : ∀ m' ∈ added, m'.signature.canonical ≠ m.signature.canonical) :
    ((added ++ [m]).map (·.signature.canonical)).Nodup := by
  rw [List.map_append, List.map_singleton, ← List.concat_eq_append]
  refine List.Nodup.concat (fun there => ?_) h
  obtain ⟨m', hm', same⟩ := List.mem_map.1 there
  exact new m' hm' same

/-- The methods that are added have new signatures, and leave none of the given out. -/
theorem addNew_eq (isDeclared : String → Bool) (added ms : List MethodSpec) :
    ∃ extra, addNew isDeclared added ms = added ++ extra ∧ extra ⊆ ms ∧
      (∀ m ∈ extra, isDeclared m.signature.canonical = false) ∧
      ((added.map (·.signature.canonical)).Nodup →
        ((added ++ extra).map (·.signature.canonical)).Nodup) ∧
      ∀ m ∈ ms, isDeclared m.signature.canonical = true ∨
        ∃ m' ∈ added ++ extra, m'.signature.canonical = m.signature.canonical := by
  induction ms generalizing added with
  | nil => exact ⟨[], (List.append_nil _).symm, List.Subset.refl _, List.forall_mem_nil _,
      by rw [List.append_nil]; exact id, List.forall_mem_nil _⟩
  | cons m ms ih =>
    rw [addNew]
    split
    · rename_i taken
      obtain ⟨extra, eq, sub, new, nodup, covers⟩ := ih added
      refine ⟨extra, eq, fun _ h => List.mem_cons_of_mem _ (sub h), new, nodup,
        List.forall_mem_cons.2 ⟨?_, covers⟩⟩
      rw [Bool.or_eq_true] at taken
      refine taken.imp id fun there => ?_
      obtain ⟨m', hm', same⟩ := List.any_eq_true.1 there
      exact ⟨m', List.mem_append_left _ hm', of_decide_eq_true same⟩
    · rename_i free
      obtain ⟨extra, eq, sub, new, nodup, covers⟩ := ih (added ++ [m])
      rw [List.append_assoc] at eq nodup covers
      simp only [Bool.or_eq_true, not_or, Bool.not_eq_true, List.any_eq_false,
        decide_eq_true_eq] at free
      refine ⟨m :: extra, eq, List.cons_subset_cons m sub, List.forall_mem_cons.2 ⟨free.1, new⟩,
        fun h => nodup ?_, List.forall_mem_cons.2 ⟨?_, covers⟩⟩
      · exact nodup_concat h free.2
      · exact .inr ⟨m, by simp, rfl⟩

/-- The methods that are collected after the functions `done`: these functions in order, and of the
shorter forms those that no function declares, once each. -/
structure Lists (isDeclared : String → Bool) (done : List FunctionDeclaration)
    (added : List MethodSpec) : Prop where
  nodup : (added.map (·.signature.canonical)).Nodup
  functions : added.filter (!·.cloned) = done.map (·.fullSpec)
  forms : ∀ m ∈ added, m.cloned = true →
    isDeclared m.signature.canonical = false ∧ ∃ f ∈ done, m ∈ f.shorter
  covers : ∀ f ∈ done, ∀ m ∈ f.shorter, isDeclared m.signature.canonical = true ∨
    ∃ m' ∈ added, m'.signature.canonical = m.signature.canonical

variable {done : List FunctionDeclaration}

/-- A method is a function or the shorter form of one. -/
theorem Lists.cases (h : Lists isDeclared done added) {m : MethodSpec} (hm : m ∈ added) :
    (∃ f ∈ done, m = f.fullSpec) ∨
      isDeclared m.signature.canonical = false ∧ ∃ f ∈ done, m ∈ f.shorter := by
  cases cloned : m.cloned with
  | true => exact .inr (h.forms m hm cloned)
  | false =>
    have mem : m ∈ added.filter (!·.cloned) := List.mem_filter.2 ⟨hm, by rw [cloned]; rfl⟩
    rw [h.functions] at mem
    obtain ⟨f, hf, rfl⟩ := List.mem_map.1 mem
    exact .inl ⟨f, hf, rfl⟩

theorem Lists.fullSpec_mem (h : Lists isDeclared done added) {f : FunctionDeclaration}
    (hf : f ∈ done) : f.fullSpec ∈ added := by
  have mem := List.mem_map_of_mem (f := (·.fullSpec)) hf
  rw [← h.functions] at mem
  exact (List.mem_filter.1 mem).1

/-- One more function. -/
theorem Lists.step (h : Lists isDeclared done added) {f : FunctionDeclaration}
    (declared : isDeclared f.canonical = true) (new : f.canonical ∉ done.map (·.canonical)) :
    Lists isDeclared (done ++ [f]) (addNew isDeclared (added ++ [f.fullSpec]) f.shorter) := by
  obtain ⟨extra, eq, sub, free, nodup, covers⟩ :=
    addNew_eq isDeclared (added ++ [f.fullSpec]) f.shorter
  rw [eq]
  refine ⟨nodup ?_, ?_, ?_, ?_⟩
  · -- A form that is there is declared by no function, and the functions that are there are others.
    have fresh : ∀ m ∈ added, m.signature.canonical ≠ f.canonical := by
      intro m hm same
      rcases h.cases hm with ⟨g, hg, rfl⟩ | ⟨undeclared, -⟩
      · exact new (List.mem_map.2 ⟨g, hg, same⟩)
      · rw [same, declared] at undeclared
        cases undeclared
    exact nodup_concat h.nodup fresh
  · have clones : extra.filter (!·.cloned) = [] := by
      refine List.filter_eq_nil_iff.2 fun m hm => ?_
      rw [FunctionDeclaration.cloned_of_mem_shorter (sub hm)]
      decide
    rw [List.filter_append, List.filter_append, h.functions, clones, List.append_nil, List.map_append]
    rfl
  · intro m hm cloned
    rcases List.mem_append.1 hm with hm | hm
    · rcases List.mem_append.1 hm with hm | hm
      · obtain ⟨undeclared, g, hg, form⟩ := h.forms m hm cloned
        exact ⟨undeclared, g, List.mem_append_left _ hg, form⟩
      · cases List.mem_singleton.1 hm
        cases cloned
    · exact ⟨free m hm, f, List.mem_append_right _ (List.mem_singleton_self f), sub hm⟩
  · intro g hg m hm
    rcases List.mem_append.1 hg with hg | hg
    · refine (h.covers g hg m hm).imp id fun ⟨m', hm', same⟩ => ?_
      exact ⟨m', List.mem_append_left _ (List.mem_append_left _ hm'), same⟩
    · cases List.mem_singleton.1 hg
      exact covers m hm

theorem Lists.foldl (h : Lists isDeclared done added) {functions : List FunctionDeclaration}
    (declared : ∀ f ∈ functions, isDeclared f.canonical = true)
    (nodup : ((done ++ functions).map (·.canonical)).Nodup) :
    Lists isDeclared (done ++ functions)
      (functions.foldl (fun added f => addNew isDeclared (added ++ [f.fullSpec]) f.shorter) added) := by
  induction functions generalizing done added with
  | nil => rwa [List.append_nil]
  | cons f fs ih =>
    obtain ⟨first, rest⟩ := List.forall_mem_cons.1 declared
    rw [List.append_cons] at nodup ⊢
    refine ih (h.step first ?_) rest nodup
    rw [List.map_append, List.map_append, List.nodup_append, List.nodup_append] at nodup
    exact fun there => nodup.1.2.2 _ there _ (List.mem_singleton_self _) rfl

end Collecting

/-! ## The functions of a class -/

section Functions

variable {d : ClassDeclaration}

/-- Every function is of one of the kinds. -/
theorem ClassDeclaration.functionsByKind_perm (d : ClassDeclaration) :
    d.functionsByKind.Perm d.methods := by
  have perm : ∀ fs : List FunctionDeclaration,
      (fs.filter (·.kind = .signal) ++ (fs.filter (·.kind = .slot) ++
        fs.filter (·.kind = .method))).Perm fs := by
    intro fs
    induction fs with
    | nil => exact .refl _
    | cons f fs ih =>
      cases kind : f.kind with
      | signal => simpa [List.filter_cons, kind] using ih
      | slot => simpa [List.filter_cons, kind] using List.perm_middle.trans (ih.cons f)
      | method =>
        have later := @List.perm_middle _ f
          (fs.filter (·.kind = .signal) ++ fs.filter (·.kind = .slot)) (fs.filter (·.kind = .method))
        simp only [List.append_assoc] at later
        simpa [List.filter_cons, kind] using later.trans (ih.cons f)
  simpa [functionsByKind] using perm d.methods

theorem firstDuplicate?_eq_none_iff {seen : List String} {fs : List FunctionDeclaration} :
    firstDuplicate? seen fs = none ↔
      (fs.map (·.canonical)).Nodup ∧ ∀ f ∈ fs, f.canonical ∉ seen := by
  induction fs generalizing seen with
  | nil => simp [firstDuplicate?]
  | cons f fs ih =>
    rw [firstDuplicate?]
    split
    · rename_i there
      simp only [List.contains_eq_mem, decide_eq_true_eq] at there
      simp [there]
    · rename_i new
      simp only [List.contains_eq_mem, decide_eq_true_eq] at new
      rw [ih, List.map_cons, List.nodup_cons, List.forall_mem_cons]
      simp only [List.mem_cons, not_or, List.mem_map, not_exists, not_and]
      constructor
      · rintro ⟨nodup, h⟩
        exact ⟨⟨fun g hg => (h g hg).1, nodup⟩, new, fun g hg => (h g hg).2⟩
      · rintro ⟨⟨h, nodup⟩, -, h'⟩
        exact ⟨nodup, fun g hg => ⟨h g hg, h' g hg⟩⟩

/-- A class has methods exactly if no signature is declared twice. -/
theorem ClassDeclaration.methodSpecs_cases (d : ClassDeclaration) :
    (∃ ms, d.methodSpecs = .ok ms ∧ (d.methods.map (·.canonical)).Nodup ∧
      Lists (d.methods.map (·.canonical)).contains d.functionsByKind ms) ∨
    (∃ f : FunctionDeclaration,
      d.methodSpecs = .error ⟨f.line, .duplicateMethod f.canonical d.name⟩ ∧
      ¬ (d.methods.map (·.canonical)).Nodup) := by
  have unique := @firstDuplicate?_eq_none_iff [] d.methods
  simp only [List.not_mem_nil, not_false_eq_true, implies_true, and_true] at unique
  unfold methodSpecs
  cases found : firstDuplicate? [] d.methods with
  | some f =>
    refine .inr ⟨f, rfl, fun nodup => ?_⟩
    rw [unique.2 nodup] at found
    cases found
  | none =>
    have perm := d.functionsByKind_perm
    have declared : ∀ f ∈ d.functionsByKind,
        (d.methods.map (·.canonical)).contains f.canonical = true := fun f hf =>
      List.contains_iff_mem.2 (List.mem_map_of_mem (perm.mem_iff.1 hf))
    have start : Lists (d.methods.map (·.canonical)).contains [] [] :=
      ⟨List.Pairwise.nil, rfl, List.forall_mem_nil _, List.forall_mem_nil _⟩
    have nodup := unique.1 found
    exact .inl ⟨_, rfl, nodup, start.foldl declared ((perm.map _).nodup_iff.2 nodup)⟩

end Functions

/-! ## Tables -/

namespace ClassIndex

variable {x : ClassIndex} {d : ClassDeclaration} {t : ClassTable}

/-- The builder of a class's table after the methods are added. -/
theorem foldl_addMethod_table (b : TableBuilder) (ms : List MethodSpec) :
    ∃ es, (ms.foldl TableBuilder.addMethod b).table.methods = b.table.methods ++ es ∧
      (ms.foldl TableBuilder.addMethod b).table.properties = b.table.properties ∧
      ∀ strings, (ms.foldl TableBuilder.addMethod b).table.strings <+: strings →
        strings.length ≤ UInt32.size → List.Forall₂ (·.Describes strings ·) es ms := by
  induction ms generalizing b with
  | nil => exact ⟨[], (List.append_nil _).symm, rfl, fun _ _ _ => .nil⟩
  | cons m ms ih =>
    obtain ⟨e, strings₁, table, -, describes⟩ := b.addMethod_table m
    obtain ⟨es, methods, properties, rest⟩ := ih (b.addMethod m)
    have grows := (TableBuilder.Adds.foldl TableBuilder.adds_addMethod ms (b.addMethod m)).strings
    rw [table] at methods properties grows
    refine ⟨e :: es, by rw [List.foldl_cons, methods, List.append_assoc]; rfl, properties,
      fun strings later fits => .cons ?_ (rest strings later fits)⟩
    have grows := grows.trans later
    exact (describes (Nat.le_trans grows.length_le fits)).mono grows

/-- The method at a place has the signature of a signal that the class declares. -/
def NamesSignal (d : ClassDeclaration) (b : TableBuilder) (k : Nat) : Prop :=
  ∃ f ∈ d.methods, f.kind = .signal ∧ ∃ j m, b.table.methods[k]? = some m ∧
    m.signature = .ofNat j ∧ b.table.strings[j]? = some f.canonical

theorem NamesSignal.mono {b b' : TableBuilder} {k : Nat} (h : NamesSignal d b k)
    (adds : TableBuilder.Adds b b') (methods : b'.table.methods = b.table.methods) :
    NamesSignal d b' k := by
  obtain ⟨f, hf, isSignal, j, m, there, place, spelled⟩ := h
  obtain ⟨lt, eq⟩ := List.getElem?_eq_some_iff.1 spelled
  exact ⟨f, hf, isSignal, j, m, by rw [methods]; exact there, place,
    (List.prefix_iff_getElem?.1 adds.strings j lt).trans (congrArg some eq)⟩

/-- A notify signal is looked up by the signature of a signal that the class declares. -/
theorem namesSignal_of_notifyIndex? {b : TableBuilder} {p : PropertyDeclaration} {k : Nat}
    (h : x.notifyIndex? b d p = .ok (some k)) : NamesSignal d b k := by
  unfold notifyIndex? at h
  split at h
  · cases h
  · split at h
    · rename_i f found
      unfold ClassDeclaration.signal? at found
      have isSignal := List.find?_some found
      simp only [Bool.and_eq_true, decide_eq_true_eq] at isSignal
      refine ⟨f, List.mem_of_find?_eq_some found, isSignal.1, ?_⟩
      have found := Except.ok.inj h
      rw [TableBuilder.findMethod?, Option.bind_eq_some_iff] at found
      obtain ⟨i, known, index⟩ := found
      rw [b.places.place, Option.map_eq_some_iff] at known
      obtain ⟨j, place, rfl⟩ := known
      obtain ⟨lt, spelled, -⟩ := List.idxOf?_eq_some_iff.1 place
      obtain ⟨lt', same, -⟩ := List.findIdx?_eq_some_iff_getElem.1 index
      exact ⟨j, _, List.getElem?_eq_getElem lt', of_decide_eq_true same,
        List.getElem?_eq_some_iff.2 ⟨lt, spelled⟩⟩
    · split at h <;> cases h

/-- What properties and enumerations add to a table with methods: the methods stay, and what tells of
changes has the signature of a declared signal. -/
structure Completes (d : ClassDeclaration) (b b' : TableBuilder) : Prop where
  adds : TableBuilder.Adds b b'
  methods : b'.table.methods = b.table.methods
  notifies : ∀ p ∈ b'.table.properties, ∀ i, p.notify = some i → ∃ k, i = .ofNat k ∧ NamesSignal d b' k

namespace Completes

variable {b b₁ b₂ : TableBuilder}

theorem start (h : b.table.properties = []) : Completes d b b :=
  ⟨.refl b, rfl, by rw [h]; exact List.forall_mem_nil _⟩

theorem addProperty (h : Completes d b b₁) {p : PropertyDeclaration}
    (ok : x.addProperty d b₁ p = .ok b₂) : Completes d b b₂ := by
  obtain ⟨notify, found, eq⟩ := bind_eq_ok_iff.1 ok
  cases eq
  have adds := b₁.adds_addProperty p.name p.type p.flags notify
  obtain ⟨i, j, strings, table, -, -⟩ := b₁.addProperty_table p.name p.type p.flags notify
  generalize b₁.addProperty p.name p.type p.flags notify = b₂ at adds table
  have methods : b₂.table.methods = b₁.table.methods := by rw [table]
  refine ⟨h.adds.trans adds, methods.trans h.methods, fun q hq n hn => ?_⟩
  rw [table, List.mem_append, List.mem_singleton] at hq
  obtain hq | rfl := hq
  · obtain ⟨k, eq, names⟩ := h.notifies q hq n hn
    exact ⟨k, eq, names.mono adds methods⟩
  · obtain ⟨k, rfl, eq⟩ := Option.map_eq_some_iff.1 hn
    exact ⟨k, eq.symm, (namesSignal_of_notifyIndex? found).mono adds methods⟩

theorem addEnum (h : Completes d b b₁) {r : EnumRegistration}
    (ok : ClassIndex.addEnum d b₁ r = .ok b₂) : Completes d b b₂ := by
  unfold ClassIndex.addEnum at ok
  split at ok
  · rename_i e _
    cases ok
    have adds := b₁.adds_addEnum e.name r.isFlag e.isScoped e.keys
    obtain ⟨i, is, strings, table, -, -⟩ := b₁.addEnum_table e.name r.isFlag e.isScoped e.keys
    generalize b₁.addEnum e.name r.isFlag e.isScoped e.keys = b₂ at adds table
    have methods : b₂.table.methods = b₁.table.methods := by rw [table]
    refine ⟨h.adds.trans adds, methods.trans h.methods, fun q hq n hn => ?_⟩
    rw [table] at hq
    obtain ⟨k, eq, names⟩ := h.notifies q hq n hn
    exact ⟨k, eq, names.mono adds methods⟩
  · cases ok

end Completes

/-- The builder of a class's table before anything but notes is added. -/
def notesOf (x : ClassIndex) (d : ClassDeclaration) : TableBuilder :=
  d.classInfo.foldl (fun b (key, value) => b.addClassInfo key value)
    (TableBuilder.start d.name (x.superName? d))

theorem notesOf_table (x : ClassIndex) (d : ClassDeclaration) :
    (x.notesOf d).table.methods = [] ∧ (x.notesOf d).table.properties = [] := by
  have kept : ∀ (notes : List (String × String)) (b : TableBuilder),
      b.table.methods = [] ∧ b.table.properties = [] →
      let b' := notes.foldl (fun b (key, value) => b.addClassInfo key value) b
      b'.table.methods = [] ∧ b'.table.properties = [] := by
    intro notes
    induction notes with
    | nil => exact fun _ h => h
    | cons note notes ih =>
      intro b h
      obtain ⟨i, j, strings, table, -, -⟩ := b.addClassInfo_table note.1 note.2
      exact ih _ (by rw [table]; exact h)
  refine kept d.classInfo _ ?_
  obtain ⟨name, base, strings, table, -⟩ := TableBuilder.start_table d.name (x.superName? d)
  rw [table]
  exact ⟨rfl, rfl⟩

theorem notesOf_inside (x : ClassIndex) (d : ClassDeclaration)
    (fits : (x.notesOf d).table.strings.length ≤ UInt32.size) :
    ∀ i ∈ (x.notesOf d).table.references, i.toNat < (x.notesOf d).table.strings.length :=
  (TableBuilder.Adds.foldl (fun b (key, value) => b.adds_addClassInfo key value) _ _).inside fits
    fun _ => TableBuilder.references_start d.name (x.superName? d)

/-- A table is made in passes: first the methods, then what refers to them. -/
theorem tableOf_eq_ok (h : x.tableOf d = .ok t) :
    ∃ ms b, d.methodSpecs = .ok ms ∧
      Completes d (ms.foldl TableBuilder.addMethod (x.notesOf d)) b ∧ b.table = t := by
  unfold tableOf at h
  obtain ⟨ms, specs, h⟩ := bind_eq_ok_iff.1 h
  obtain ⟨b₁, properties, h⟩ := bind_eq_ok_iff.1 h
  obtain ⟨b₂, enums, h⟩ := bind_eq_ok_iff.1 h
  have empty : (ms.foldl TableBuilder.addMethod (x.notesOf d)).table.properties = [] := by
    obtain ⟨es, -, properties, -⟩ := foldl_addMethod_table (x.notesOf d) ms
    exact properties.trans (x.notesOf_table d).2
  refine ⟨ms, b₂, specs, ?_, Except.ok.inj h⟩
  have completes := foldlM_keeps (P := Completes d _) (fun h ok => h.addProperty ok)
    (.start empty) properties
  exact foldlM_keeps (P := Completes d _) (fun h ok => h.addEnum ok) completes enums

theorem error_of_addProperty {b : TableBuilder} {p : PropertyDeclaration} {e : LocatedFault}
    (h : x.addProperty d b p = .error e) : ∃ name, e = ⟨p.line, .unknownNotifySignal name p.name d.name⟩ := by
  obtain h | ⟨_, -, h⟩ := bind_eq_error_iff.1 h
  · unfold notifyIndex? at h
    split at h
    · cases h
    · rename_i name _
      split at h
      · cases h
      · split at h
        · cases h
        · cases h
          exact ⟨name, rfl⟩
  · cases h

theorem error_of_addEnum {b : TableBuilder} {r : EnumRegistration} {e : LocatedFault}
    (h : addEnum d b r = .error e) : ∃ marker, e = ⟨r.line, .unknownEnum marker r.name d.name⟩ := by
  unfold addEnum at h
  split at h
  · cases h
  · cases h
    exact ⟨_, rfl⟩

/-- A class whose methods are in order is refused for other faults only. -/
theorem tableOf_eq_error {e : LocatedFault} {ms : List MethodSpec} (specs : d.methodSpecs = .ok ms)
    (h : x.tableOf d = .error e) : ∀ signature name, e.fault ≠ .duplicateMethod signature name := by
  unfold tableOf at h
  rw [specs] at h
  obtain h | ⟨_, h', h⟩ := bind_eq_error_iff.1 h
  · cases h
  cases h'
  obtain h | ⟨b₁, -, h⟩ := bind_eq_error_iff.1 h
  · refine error_of_foldlM (P := fun e => ∀ signature name, e.fault ≠ .duplicateMethod signature name)
      (fun h => ?_) h
    obtain ⟨name, rfl⟩ := error_of_addProperty h
    exact fun _ _ => by simp
  obtain h | ⟨_, -, h⟩ := bind_eq_error_iff.1 h
  · refine error_of_foldlM (P := fun e => ∀ signature name, e.fault ≠ .duplicateMethod signature name)
      (fun h => ?_) h
    obtain ⟨marker, rfl⟩ := error_of_addEnum h
    exact fun _ _ => by simp
  · cases h

/-- A class is refused for its methods exactly if a signature is declared twice. -/
theorem tableOf_eq_duplicateMethod_iff :
    (∃ line signature, x.tableOf d = .error ⟨line, .duplicateMethod signature d.name⟩) ↔
      ¬ (d.methods.map (·.canonical)).Nodup := by
  obtain ⟨ms, specs, nodup, -⟩ | ⟨f, specs, twice⟩ := d.methodSpecs_cases
  · refine ⟨fun ⟨line, signature, h⟩ => ?_, fun twice => absurd nodup twice⟩
    exact absurd rfl (tableOf_eq_error specs h signature d.name)
  · refine ⟨fun _ => twice, fun _ => ⟨f.line, f.canonical, ?_⟩⟩
    unfold tableOf
    rw [specs]
    rfl

/-! ## Main statement -/

/-- The entries of a table describe the collected methods one by one. -/
theorem described (h : x.tableOf d = .ok t) (fits : t.strings.length ≤ UInt32.size) :
    ∃ ms, List.Forall₂ (·.Describes t.strings ·) t.methods ms ∧
      (d.methods.map (·.canonical)).Nodup ∧
      Lists (d.methods.map (·.canonical)).contains d.functionsByKind ms := by
  obtain ⟨ms, b, specs, completes, rfl⟩ := tableOf_eq_ok h
  obtain ⟨es, methods, -, describes⟩ := foldl_addMethod_table (x.notesOf d) ms
  rw [(x.notesOf_table d).1, List.nil_append] at methods
  obtain ⟨ms', specs', nodup, lists⟩ | ⟨f, refused, -⟩ := d.methodSpecs_cases
  · rw [specs] at specs'
    cases specs'
    refine ⟨ms, ?_, nodup, lists⟩
    rw [completes.methods, methods]
    exact describes b.table.strings completes.adds.strings fits
  · rw [specs] at refused
    cases refused

theorem map_signature {es : List MethodEntry} {ms : List MethodSpec}
    (h : List.Forall₂ (·.Describes t.strings ·) es ms) :
    es.map t.signature = ms.map (·.signature.canonical) := by
  induction h with
  | nil => rfl
  | cons first _ ih => rw [List.map_cons, List.map_cons, ih, ClassTable.signature, first.signature.string]

/-- A method with the signature of a declared function is that function. -/
theorem eq_of_canonical {isDeclared : String → Bool} {ms : List MethodSpec}
    (lists : Lists isDeclared d.functionsByKind ms) {f : FunctionDeclaration} (hf : f ∈ d.methods)
    {m : MethodSpec} (hm : m ∈ ms) (same : m.signature.canonical = f.canonical) : m = f.fullSpec :=
  List.inj_on_of_nodup_map lists.nodup hm
    (lists.fullSpec_mem (d.functionsByKind_perm.mem_iff.2 hf)) same

/-- The references of a table are in order. What tells of changes is a signal, since it has the
signature of one. -/
theorem validate_tableOf (h : x.tableOf d = .ok t) (strings_fit : t.strings.length ≤ UInt32.size)
    (methods_fit : t.methods.length ≤ UInt32.size) : t.validate = .ok () := by
  obtain ⟨ms, describes, -, lists⟩ := described h strings_fit
  obtain ⟨ms', b, specs, completes, rfl⟩ := tableOf_eq_ok h
  have adds : TableBuilder.Adds (x.notesOf d) b :=
    (TableBuilder.Adds.foldl TableBuilder.adds_addMethod _ _).trans completes.adds
  refine ClassTable.validate_eq_ok_iff.2
    ⟨adds.inside strings_fit (x.notesOf_inside d), fun e he => ?_, fun p hp i hi => ?_⟩
  · obtain ⟨m, -, describes⟩ := exists_right_of_mem describes e he
    exact describes.inside.2
  · obtain ⟨k, rfl, f, hf, isSignal, j, e, there, place, spelled⟩ := completes.notifies p hp i hi
    obtain ⟨m, hm, describes⟩ := exists_right_of_mem describes e (List.mem_of_getElem? there)
    have small : j < UInt32.size :=
      Nat.lt_of_lt_of_le (List.getElem?_eq_some_iff.1 spelled).1 strings_fit
    have found := describes.signature
    rw [Spells, place, UInt32.toNat_ofNat_of_lt' small, spelled, Option.some.injEq] at found
    cases eq_of_canonical lists hf hm found.symm
    have fits := Nat.lt_of_lt_of_le (List.getElem?_eq_some_iff.1 there).1 methods_fit
    rw [ClassTable.hasSignalAt, UInt32.toNat_ofNat_of_lt' fits, there, Option.any_some,
      describes.kind]
    exact decide_eq_true isSignal

/-- The method is a call of a declared function that leaves defaulted parameters out. -/
def Shortens (d : ClassDeclaration) (m : MethodSpec) : Prop :=
  ∃ f ∈ d.methods, ∃ k, 1 ≤ k ∧ k ≤ f.defaultedCount ∧ m = f.spec (f.parameters.length - k) true

/-- A table is valid, and no two of its methods have one signature. Its methods that are not cloned
are the declared functions, signals before slots before other methods, and each call of a declared
function that leaves defaulted parameters out has one method, which is a declared function or such a
call itself; there are no other methods. A class is refused for its methods exactly if two of its
functions have one signature. -/
theorem tables_list_declared_methods (x : ClassIndex) (d : ClassDeclaration) :
    (∀ t, x.tableOf d = .ok t → t.strings.length < 2 ^ 32 → t.methods.length < 2 ^ 32 →
      t.validate = .ok () ∧
      (t.methods.map t.signature).Nodup ∧
      List.Forall₂ (·.Describes t.strings ·) (t.methods.filter (!·.cloned))
        ((d.methods.filter (·.kind = .signal) ++ d.methods.filter (·.kind = .slot) ++
          d.methods.filter (·.kind = .method)).map (·.fullSpec)) ∧
      (∀ m, Shortens d m → t.methods.countP (t.signature · = m.signature.canonical) = 1) ∧
      ∀ e ∈ t.methods, ∃ m, e.Describes t.strings m ∧
        ((∃ f ∈ d.methods, m = f.fullSpec) ∨ Shortens d m)) ∧
    ((∃ line signature, x.tableOf d = .error ⟨line, .duplicateMethod signature d.name⟩) ↔
      ¬ (d.methods.map (·.canonical)).Nodup) := by
  refine ⟨fun t ok strings_fit methods_fit => ?_, tableOf_eq_duplicateMethod_iff⟩
  have strings_fit := Nat.le_of_lt strings_fit
  obtain ⟨ms, describes, nodup, lists⟩ := described ok strings_fit
  have forms := map_signature describes
  have mem_byKind : ∀ f, f ∈ d.functionsByKind ↔ f ∈ d.methods := fun f =>
    d.functionsByKind_perm.mem_iff
  refine ⟨validate_tableOf ok strings_fit (Nat.le_of_lt methods_fit), ?_, ?_, ?_, ?_⟩
  · rw [forms]
    exact lists.nodup
  · have alike : ∀ ⦃e : MethodEntry⦄ ⦃m : MethodSpec⦄, e.Describes t.strings m →
        ((!e.cloned) = true ↔ (!m.cloned) = true) := fun e m h => by rw [h.cloned]
    have kept := List.rel_filter alike describes
    rw [lists.functions] at kept
    simpa [ClassDeclaration.functionsByKind] using kept
  · rintro m ⟨f, hf, k, pos, le, rfl⟩
    have covered := lists.covers f ((mem_byKind f).2 hf) _
      (FunctionDeclaration.mem_shorter_iff.2 ⟨k, pos, le, rfl⟩)
    have mem : (f.spec (f.parameters.length - k) true).signature.canonical ∈
        t.methods.map t.signature := by
      rw [forms, List.mem_map]
      obtain declared | ⟨m, hm, same⟩ := covered
      · obtain ⟨g, hg, same⟩ := List.mem_map.1 (List.contains_iff_mem.1 declared)
        exact ⟨g.fullSpec, lists.fullSpec_mem ((mem_byKind g).2 hg), same⟩
      · exact ⟨m, hm, same⟩
    have once := List.count_eq_one_of_mem (forms ▸ lists.nodup) mem
    rw [List.count_eq_countP, List.countP_map] at once
    exact once
  · intro e he
    obtain ⟨m, hm, describes⟩ := exists_right_of_mem describes e he
    refine ⟨m, describes, (lists.cases hm).imp ?_ ?_⟩
    · rintro ⟨f, hf, rfl⟩
      exact ⟨f, (mem_byKind f).1 hf, rfl⟩
    · rintro ⟨-, f, hf, form⟩
      exact ⟨f, (mem_byKind f).1 hf, FunctionDeclaration.mem_shorter_iff.1 form⟩

/-- A slot with two defaulted parameters. -/
def fullSetter : FunctionDeclaration where
  name := "set"
  returnType := "void"
  parameters := [⟨"const int &", some "level", none⟩, ⟨"int", some "from", some "1"⟩,
    ⟨"int", none, some "2"⟩]
  kind := .slot
  access := .isPublic
  isConst := false
  line := 3

/-- A class that declares one of the shorter forms of its slot itself. -/
def gauge : ClassDeclaration where
  name := "Gauge"
  scope := ""
  bases := []
  line := 1
  methods :=
    [⟨"set", "bool", [⟨"int", some "level", none⟩], .method, .isProtected, false, 2⟩, fullSetter,
      ⟨"changed", "void", [⟨"int", none, none⟩], .signal, .isPublic, false, 4⟩]
  properties := [{ name := "level", type := "int", read := "level", notify := "changed", line := 5 }]

/-- Of the two shorter forms only the one that is not declared is added. -/
theorem gauge_lists_each_form_once :
    ∃ t, ClassIndex.tableOf ⟨[⟨0, gauge⟩]⟩ gauge = .ok t ∧
      t.methods.map (fun e => (t.signature e, e.cloned)) =
        [("changed(int)", false), ("set(int,int,int)", false), ("set(int,int)", true),
          ("set(int)", false)] ∧
      t.validate = .ok () ∧
      ∀ k, 1 ≤ k → k ≤ 2 →
        t.methods.countP (t.signature · = (fullSetter.spec (3 - k) true).signature.canonical) = 1 := by
  have made : (ClassIndex.tableOf ⟨[⟨0, gauge⟩]⟩ gauge).map (fun t =>
      (t.strings.length, t.methods.map (fun e => (t.signature e, e.cloned)))) =
        .ok (14, [("changed(int)", false), ("set(int,int,int)", false), ("set(int,int)", true),
          ("set(int)", false)]) := by decide +kernel
  cases h : ClassIndex.tableOf ⟨[⟨0, gauge⟩]⟩ gauge with
  | error e =>
    rw [h] at made
    cases made
  | ok t =>
    rw [h] at made
    obtain ⟨strings, methods⟩ := Prod.mk.inj (Except.ok.inj made)
    have count := congrArg List.length methods
    rw [List.length_map] at count
    obtain ⟨valid, -, -, forms, -⟩ := (tables_list_declared_methods ⟨[⟨0, gauge⟩]⟩ gauge).1 t h
      (by rw [strings]; decide) (by rw [count]; decide)
    refine ⟨t, rfl, methods, valid, fun k pos le => forms _ ?_⟩
    exact ⟨fullSetter, by decide, k, pos, le, rfl⟩

end ClassIndex
end Reflection

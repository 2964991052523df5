import Mathlib.Data.List.Nodup
import Reflection.Proofs.Lists
import Reflection.Proofs.Table.Validity
import Reflection.Table.Builder
/-!
# What building adds to a table

A builder only appends: strings that were kept stay where they are, and each member refers to places
of its own texts (`Describes`, `addMethod_table`). Places are words, so this needs that there are no
more strings than words. A table that was built from nothing then refers to strings that it has
(`Adds.inside`).
-/

namespace Reflection

/-! ## Places -/

/-- A place holds a text. -/
def Spells (strings : List String) (i : StringIndex) (text : String) : Prop :=
  strings[i.toNat]? = some text

theorem Spells.lt {strings : List String} {i : StringIndex} {text : String}
    (h : Spells strings i text) : i.toNat < strings.length :=
  (List.getElem?_eq_some_iff.1 h).1

theorem Spells.unique {strings : List String} {i : StringIndex} {text other : String}
    (h : Spells strings i text) (h' : Spells strings i other) : text = other :=
  Option.some.inj (h.symm.trans h')

theorem Spells.mono {strings more : List String} {i : StringIndex} {text : String}
    (h : Spells strings i text) (grows : strings <+: more) : Spells more i text := by
  obtain ⟨lt, rfl⟩ := List.getElem?_eq_some_iff.1 h
  exact List.prefix_iff_getElem?.1 grows _ lt

theorem Spells.string {t : ClassTable} {i : StringIndex} {text : String}
    (h : Spells t.strings i text) : t.string i = text := by
  rw [ClassTable.string, show t.strings[i.toNat]? = some text from h]
  rfl

theorem Spells.forall_lt {strings : List String} {is : List StringIndex} {texts : List String}
    (h : List.Forall₂ (Spells strings) is texts) : ∀ i ∈ is, i.toNat < strings.length := by
  induction h with
  | nil => exact List.forall_mem_nil _
  | cons first _ ih => exact List.forall_mem_cons.2 ⟨first.lt, ih⟩

/-- An entry refers to the texts of a method. -/
structure MethodEntry.Describes (strings : List String) (e : MethodEntry) (m : MethodSpec) : Prop where
  name : Spells strings e.name m.name
  signature : Spells strings e.signature m.signature.canonical
  digest : e.digest = m.signature.digest
  returnType : Spells strings e.returnType (TypeText.normalize m.returnType)
  parameterTypes : List.Forall₂ (Spells strings) e.parameterTypes m.signature.parameters
  declaredTypes : List.Forall₂ (Spells strings) e.declaredTypes (m.parameters.map (·.1))
  parameterNames : List.Forall₂ (Spells strings) e.parameterNames (m.parameters.map (·.2))
  kind : e.kind = m.kind
  access : e.access = m.access
  cloned : e.cloned = m.cloned

/-- The strings of a method's entry are there, and there are as many names and declared types as
parameters. -/
theorem MethodEntry.Describes.inside {strings : List String} {e : MethodEntry} {m : MethodSpec}
    (h : e.Describes strings m) :
    (∀ i ∈ ClassTable.methodReferences e, i.toNat < strings.length) ∧
      e.parameterNames.length = e.parameterTypes.length ∧
      e.declaredTypes.length = e.parameterTypes.length := by
  have count : ∀ {is : List StringIndex} {texts : List String},
      List.Forall₂ (Spells strings) is texts → texts.length = m.parameters.length →
      is.length = m.parameters.length := fun h e => h.length_eq.trans e
  have types := count h.parameterTypes (by simp [MethodSpec.signature, Signature.ofDeclared])
  refine ⟨?_, ?_, ?_⟩
  · simp only [ClassTable.methodReferences, List.forall_mem_cons, List.forall_mem_append]
    exact ⟨h.name.lt, h.signature.lt, h.returnType.lt,
      ⟨Spells.forall_lt h.parameterTypes, Spells.forall_lt h.declaredTypes⟩,
      Spells.forall_lt h.parameterNames⟩
  · rw [count h.parameterNames (List.length_map _), types]
  · rw [count h.declaredTypes (List.length_map _), types]

theorem MethodEntry.Describes.mono {strings more : List String} {e : MethodEntry} {m : MethodSpec}
    (h : e.Describes strings m) (grows : strings <+: more) : e.Describes more m where
  name := h.name.mono grows
  signature := h.signature.mono grows
  digest := h.digest
  returnType := h.returnType.mono grows
  parameterTypes := h.parameterTypes.imp fun _ _ spells => spells.mono grows
  declaredTypes := h.declaredTypes.imp fun _ _ spells => spells.mono grows
  parameterNames := h.parameterNames.imp fun _ _ spells => spells.mono grows
  kind := h.kind
  access := h.access
  cloned := h.cloned

namespace TableBuilder

variable {b b' : TableBuilder}

/-! ## Strings -/

/-- All that the looking up of texts does to a table is to put strings at the end. -/
structure Interns (b b' : TableBuilder) : Prop where
  table : b'.table = { b.table with strings := b'.table.strings }
  strings : b.table.strings <+: b'.table.strings

namespace Interns

theorem refl (b : TableBuilder) : Interns b b :=
  ⟨rfl, List.prefix_rfl⟩

theorem trans {b₁ b₂ b₃ : TableBuilder} (h₁ : Interns b₁ b₂) (h₂ : Interns b₂ b₃) : Interns b₁ b₃ where
  table := by
    rw [h₂.table, h₁.table]
  strings := h₁.strings.trans h₂.strings

end Interns

/-- A text is kept at the place that is found for it, also when more texts come after it, unless there
are more of them than places. -/
theorem intern_eq {text : String} {i : StringIndex} (h : b.intern text = (i, b')) :
    Interns b b' ∧
      ∀ all, b'.table.strings <+: all → all.length ≤ UInt32.size → Spells all i text := by
  have spells : ∀ n, b'.table.strings[n]? = some text → ∀ all, b'.table.strings <+: all →
      all.length ≤ UInt32.size → Spells all (.ofNat n) text := by
    intro n hn all grows fits
    obtain ⟨lt, rfl⟩ := List.getElem?_eq_some_iff.1 hn
    have found := List.prefix_iff_getElem?.1 grows n lt
    have small : n < UInt32.size := Nat.lt_of_lt_of_le (List.getElem?_eq_some_iff.1 found).1 fits
    rwa [Spells, UInt32.toNat_ofNat_of_lt' small]
  unfold intern at h
  split at h
  · rename_i known
    cases h
    rw [b.places.place, Option.map_eq_some_iff] at known
    obtain ⟨n, found, rfl⟩ := known
    obtain ⟨lt, e, -⟩ := List.idxOf?_eq_some_iff.1 found
    exact ⟨.refl b, spells n (List.getElem?_eq_some_iff.2 ⟨lt, e⟩)⟩
  · cases h
    exact ⟨⟨rfl, List.prefix_append ..⟩, spells _ List.getElem?_concat_length⟩

/-- At most one string is added. -/
theorem length_intern_le (b : TableBuilder) (text : String) :
    (b.intern text).2.table.strings.length ≤ b.table.strings.length + 1 := by
  unfold intern
  split <;> simp

theorem internAll_eq {texts : List String} {is : List StringIndex} (h : b.internAll texts = (is, b')) :
    Interns b b' ∧ ∀ all, b'.table.strings <+: all → all.length ≤ UInt32.size →
      List.Forall₂ (Spells all) is texts := by
  induction texts generalizing b is with
  | nil =>
    cases h
    exact ⟨.refl _, fun _ _ _ => .nil⟩
  | cons text texts ih =>
    cases h₁ : b.intern text with
    | mk i b₁ =>
      cases h₂ : b₁.internAll texts with
      | mk is' b₂ =>
        simp only [internAll, h₁, h₂] at h
        cases h
        obtain ⟨grows₁, first⟩ := intern_eq h₁
        obtain ⟨grows₂, rest⟩ := ih h₂
        exact ⟨grows₁.trans grows₂, fun all grows fits =>
          .cons (first all (grows₂.strings.trans grows) fits) (rest all grows fits)⟩

/-- Looking up a text gives the place at which it stands, whatever was looked up before. -/
theorem lookup_eq_some_iff (fits : b.table.strings.length ≤ UInt32.size) {text : String} {i : StringIndex} :
    b.lookup.lookup text = some i ↔ Spells b.table.strings i text := by
  rw [b.places.place, Option.map_eq_some_iff]
  constructor
  · rintro ⟨n, found, rfl⟩
    obtain ⟨lt, there, -⟩ := List.idxOf?_eq_some_iff.1 found
    rw [Spells, UInt32.toNat_ofNat_of_lt' (Nat.lt_of_lt_of_le lt fits)]
    exact List.getElem?_eq_some_iff.2 ⟨lt, there⟩
  · intro spelled
    obtain ⟨lt, there⟩ := List.getElem?_eq_some_iff.1 spelled
    refine ⟨i.toNat, List.idxOf?_eq_some_iff.2 ⟨lt, there, fun j before same => ?_⟩, UInt32.ofNat_toNat⟩
    exact Nat.ne_of_lt before (b.places.nodup.getElem_inj_iff.1 (same.trans there.symm))

/-! ## Members -/

/-- A new table has nothing but its own name and that of a base. -/
theorem start_table (className : String) (superName : Option String) :
    ∃ name base strings, (start className superName).table =
        { empty.table with strings, className := name, superClass := base } ∧
      strings.length ≤ UInt32.size ∧ Spells strings name className ∧
        Option.Rel (Spells strings) base superName := by
  unfold start
  cases h₁ : empty.intern className with | mk i b₁ =>
  have short₁ : b₁.table.strings.length ≤ 1 := by
    have le := empty.length_intern_le className
    rwa [h₁] at le
  obtain ⟨g₁, first⟩ := intern_eq h₁
  cases superName with
  | none =>
    have fits : b₁.table.strings.length ≤ UInt32.size := Nat.le_trans short₁ (by decide)
    refine ⟨i, none, b₁.table.strings, ?_, fits, first _ List.prefix_rfl fits, .none⟩
    simp only
    rw [g₁.table]
    rfl
  | some text =>
    cases h₂ : b₁.intern text with | mk j b₂ =>
    have short₂ : b₂.table.strings.length ≤ b₁.table.strings.length + 1 := by
      have le := b₁.length_intern_le text
      rwa [h₂] at le
    have fits : b₂.table.strings.length ≤ UInt32.size := by
      simp only [UInt32.size]
      omega
    obtain ⟨g₂, second⟩ := intern_eq h₂
    refine ⟨i, some j, b₂.table.strings, ?_, fits, first _ g₂.strings fits,
      .some (second _ List.prefix_rfl fits)⟩
    simp only [h₂]
    rw [(g₁.trans g₂).table]

/-- A method is added at the end. -/
theorem addMethod_table (b : TableBuilder) (m : MethodSpec) :
    ∃ e strings, (b.addMethod m).table = { b.table with strings, methods := b.table.methods ++ [e] } ∧
      b.table.strings <+: strings ∧ (strings.length ≤ UInt32.size → e.Describes strings m) := by
  unfold addMethod
  cases h₁ : b.intern m.name with | mk name b₁ =>
  cases h₂ : b₁.intern m.signature.canonical with | mk canonical b₂ =>
  cases h₃ : b₂.intern (TypeText.normalize m.returnType) with | mk returnType b₃ =>
  cases h₄ : b₃.internAll m.signature.parameters with | mk parameterTypes b₄ =>
  cases h₅ : b₄.internAll (m.parameters.map (·.1)) with | mk declaredTypes b₅ =>
  cases h₆ : b₅.internAll (m.parameters.map (·.2)) with | mk parameterNames b₆ =>
  simp only [h₂, h₃, h₄, h₅, h₆]
  obtain ⟨g₁, name⟩ := intern_eq h₁
  obtain ⟨g₂, signature⟩ := intern_eq h₂
  obtain ⟨g₃, returnType⟩ := intern_eq h₃
  obtain ⟨g₄, parameterTypes⟩ := internAll_eq h₄
  obtain ⟨g₅, declaredTypes⟩ := internAll_eq h₅
  obtain ⟨g₆, parameterNames⟩ := internAll_eq h₆
  have g₅ := g₅.trans g₆
  have g₄ := g₄.trans g₅
  have g₃ := g₃.trans g₄
  have g₂ := g₂.trans g₃
  have g₁ := g₁.trans g₂
  refine ⟨_, b₆.table.strings, by rw [g₁.table], g₁.strings, fun fits => ?_⟩
  exact {
    name := name _ g₂.strings fits
    signature := signature _ g₃.strings fits
    digest := rfl
    returnType := returnType _ g₄.strings fits
    parameterTypes := parameterTypes _ g₅.strings fits
    declaredTypes := declaredTypes _ g₆.strings fits
    parameterNames := parameterNames _ List.prefix_rfl fits
    kind := rfl
    access := rfl
    cloned := rfl }

/-- A property is added at the end. -/
theorem addProperty_table (b : TableBuilder) (name type : String) (flags : PropertyFlags)
    (notify : Option Nat) :
    ∃ i j strings, (b.addProperty name type flags notify).table =
        { b.table with
          strings
          properties := b.table.properties ++ [⟨i, j, flags, notify.map UInt32.ofNat⟩] } ∧
      b.table.strings <+: strings ∧ (strings.length ≤ UInt32.size →
        Spells strings i name ∧ Spells strings j (TypeText.normalize type)) := by
  unfold addProperty
  cases h₁ : b.intern name with | mk i b₁ =>
  cases h₂ : b₁.intern (TypeText.normalize type) with | mk j b₂ =>
  simp only [h₂]
  obtain ⟨g₁, first⟩ := intern_eq h₁
  obtain ⟨g₂, second⟩ := intern_eq h₂
  have g₁ := g₁.trans g₂
  exact ⟨i, j, b₂.table.strings, by rw [g₁.table], g₁.strings,
    fun fits => ⟨first _ g₂.strings fits, second _ List.prefix_rfl fits⟩⟩

/-- An enumeration is added at the end. -/
theorem addEnum_table (b : TableBuilder) (name : String) (isFlag isScoped : Bool)
    (keys : List (String × Int64)) :
    ∃ i is strings, (b.addEnum name isFlag isScoped keys).table =
        { b.table with
          strings
          enums := b.table.enums ++
            [⟨i, isFlag, isScoped, List.zipWith EnumKey.mk is (keys.map (·.2))⟩] } ∧
      b.table.strings <+: strings ∧ (strings.length ≤ UInt32.size →
        Spells strings i name ∧ List.Forall₂ (Spells strings) is (keys.map (·.1))) := by
  unfold addEnum
  cases h₁ : b.internAll (keys.map (·.1)) with | mk is b₁ =>
  cases h₂ : b₁.intern name with | mk i b₂ =>
  simp only [h₂]
  obtain ⟨g₁, first⟩ := internAll_eq h₁
  obtain ⟨g₂, second⟩ := intern_eq h₂
  have g₁ := g₁.trans g₂
  exact ⟨i, is, b₂.table.strings, by rw [g₁.table], g₁.strings,
    fun fits => ⟨second _ List.prefix_rfl fits, first _ g₂.strings fits⟩⟩

/-- A note is added at the end. -/
theorem addClassInfo_table (b : TableBuilder) (key value : String) :
    ∃ i j strings, (b.addClassInfo key value).table =
        { b.table with strings, classInfo := b.table.classInfo ++ [⟨i, j⟩] } ∧
      b.table.strings <+: strings ∧ (strings.length ≤ UInt32.size →
        Spells strings i key ∧ Spells strings j value) := by
  unfold addClassInfo
  cases h₁ : b.intern key with | mk i b₁ =>
  cases h₂ : b₁.intern value with | mk j b₂ =>
  simp only [h₂]
  obtain ⟨g₁, first⟩ := intern_eq h₁
  obtain ⟨g₂, second⟩ := intern_eq h₂
  have g₁ := g₁.trans g₂
  exact ⟨i, j, b₂.table.strings, by rw [g₁.table], g₁.strings,
    fun fits => ⟨first _ g₂.strings fits, second _ List.prefix_rfl fits⟩⟩

/-! ## References -/

/-- What the building of a table keeps: strings stay where they are, and what is referred to from then
on is there. -/
structure Adds (b b' : TableBuilder) : Prop where
  strings : b.table.strings <+: b'.table.strings
  references : b'.table.strings.length ≤ UInt32.size → ∀ i ∈ b'.table.references,
    i ∈ b.table.references ∨ i.toNat < b'.table.strings.length

namespace Adds

theorem refl (b : TableBuilder) : Adds b b :=
  ⟨List.prefix_rfl, fun _ _ h => .inl h⟩

theorem trans {b₁ b₂ b₃ : TableBuilder} (h₁ : Adds b₁ b₂) (h₂ : Adds b₂ b₃) : Adds b₁ b₃ := by
  refine ⟨h₁.strings.trans h₂.strings, fun fits i hi => ?_⟩
  have le := h₂.strings.length_le
  cases h₂.references fits i hi with
  | inr lt => exact .inr lt
  | inl hi => exact (h₁.references (Nat.le_trans le fits) i hi).imp id (Nat.lt_of_lt_of_le · le)

/-- A table whose references were in order is still so. -/
theorem inside (h : Adds b b') (fits : b'.table.strings.length ≤ UInt32.size)
    (hb : b.table.strings.length ≤ UInt32.size →
      ∀ i ∈ b.table.references, i.toNat < b.table.strings.length) :
    ∀ i ∈ b'.table.references, i.toNat < b'.table.strings.length := by
  intro i hi
  have le := h.strings.length_le
  exact (h.references fits i hi).elim
    (fun hi => Nat.lt_of_lt_of_le (hb (Nat.le_trans le fits) i hi) le) id

theorem foldl {α : Type} {f : TableBuilder → α → TableBuilder} (step : ∀ b a, Adds b (f b a))
    (as : List α) (b : TableBuilder) : Adds b (as.foldl f b) := by
  induction as generalizing b with
  | nil => exact refl b
  | cons a as ih => exact (step b a).trans (ih (f b a))

end Adds

/-- A builder whose table differs in the strings and in added members that refer to `more`. -/
theorem Adds.of_references (more : List StringIndex)
    (strings : b.table.strings <+: b'.table.strings)
    (references : ∀ i ∈ b'.table.references, i ∈ b.table.references ∨ i ∈ more)
    (inside : b'.table.strings.length ≤ UInt32.size →
      ∀ i ∈ more, i.toNat < b'.table.strings.length) : Adds b b' :=
  ⟨strings, fun fits i hi => (references i hi).imp id (inside fits i)⟩

open ClassTable in
theorem adds_addMethod (b : TableBuilder) (m : MethodSpec) : Adds b (b.addMethod m) := by
  obtain ⟨e, strings, table, grows, describes⟩ := addMethod_table b m
  refine .of_references (methodReferences e) (by rw [table]; exact grows) ?_ ?_
  · rw [table]
    simp only [references, List.flatMap_append, List.flatMap_singleton, List.mem_append]
    grind
  · rw [table]
    exact fun fits => (describes fits).inside.1

open ClassTable in
theorem adds_addProperty (b : TableBuilder) (name type : String) (flags : PropertyFlags)
    (notify : Option Nat) : Adds b (b.addProperty name type flags notify) := by
  obtain ⟨i, j, strings, table, grows, spells⟩ := addProperty_table b name type flags notify
  refine .of_references [i, j] (by rw [table]; exact grows) ?_ ?_
  · rw [table]
    simp only [references, List.flatMap_append, List.flatMap_singleton, List.mem_append]
    grind
  · rw [table]
    intro fits
    simpa using ⟨(spells fits).1.lt, (spells fits).2.lt⟩

theorem names_zipWith_subset (is : List StringIndex) (values : List Int64) :
    (List.zipWith EnumKey.mk is values).map (·.name) ⊆ is := by
  intro i hi
  obtain ⟨n, hn, rfl⟩ := List.getElem_of_mem hi
  rw [List.getElem_map, List.getElem_zipWith]
  exact List.getElem_mem _

open ClassTable in
theorem adds_addEnum (b : TableBuilder) (name : String) (isFlag isScoped : Bool)
    (keys : List (String × Int64)) : Adds b (b.addEnum name isFlag isScoped keys) := by
  obtain ⟨i, is, strings, table, grows, spells⟩ := addEnum_table b name isFlag isScoped keys
  refine .of_references (i :: (List.zipWith EnumKey.mk is (keys.map (·.2))).map (·.name))
    (by rw [table]; exact grows) ?_ ?_
  · rw [table]
    simp only [references, List.flatMap_append, List.flatMap_singleton, List.mem_append]
    grind
  · rw [table]
    intro fits
    obtain ⟨first, rest⟩ := spells fits
    refine List.forall_mem_cons.2 ⟨first.lt, fun j hj => Spells.forall_lt rest j ?_⟩
    exact names_zipWith_subset is _ hj

open ClassTable in
theorem adds_addClassInfo (b : TableBuilder) (key value : String) :
    Adds b (b.addClassInfo key value) := by
  obtain ⟨i, j, strings, table, grows, spells⟩ := addClassInfo_table b key value
  refine .of_references [i, j] (by rw [table]; exact grows) ?_ ?_
  · rw [table]
    simp only [references, List.flatMap_append, List.flatMap_singleton, List.mem_append]
    grind
  · rw [table]
    intro fits
    simpa using ⟨(spells fits).1.lt, (spells fits).2.lt⟩

/-- What a new table refers to is there. -/
theorem references_start (className : String) (superName : Option String) :
    ∀ i ∈ (start className superName).table.references,
      i.toNat < (start className superName).table.strings.length := by
  obtain ⟨name, base, strings, table, -, first, second⟩ := start_table className superName
  rw [table]
  cases second with
  | none => simpa [ClassTable.references, empty] using first.lt
  | some spells => simpa [ClassTable.references, empty] using ⟨first.lt, spells.lt⟩

end TableBuilder
end Reflection

import Mathlib.Algebra.Group.Nat.Defs
import Reflection.Proofs.ClassIndex.Tables
import Reflection.Proofs.Declaration.Notes
import Reflection.Proofs.Registry.Additions
import Reflection.Proofs.Table.Interning
/-!
# Class info from the source to the look-up

The notes on a class go from its source through its table into the registry. A table holds the notes that
were recorded, in their order (`classInfo_tableOf`), and a registered class answers with the first of its
notes that has the key, or else with what the class above it answers (`classInfo?_eq`). Main statement:
`notes_survive`.
-/

namespace Reflection

open Reflection.Source (Token significantTokens)
open Reflection.Declaration

/-! ## Look-ups -/

namespace ClassTable

/-- The notes of a table. -/
def notes (t : ClassTable) : List (String × String) :=
  t.classInfo.map fun e => (t.string e.key, t.string e.value)

/-- The first note with a key. -/
theorem find?_classInfo (t : ClassTable) (key : String) :
    (t.classInfo.find? fun e => t.string e.key = key).map (fun e => t.string e.value) = t.notes.lookup key := by
  rw [notes]
  induction t.classInfo with
  | nil => rfl
  | cons e es ih =>
    rw [List.map_cons, List.lookup_cons, List.find?_cons]
    by_cases same : t.string e.key = key
    · simp [same]
    · have other : (key == t.string e.key) = false := beq_false_of_ne (Ne.symm same)
      simpa [same, other] using ih

theorem map_described {t : ClassTable} {es : List ClassInfoEntry} {notes : List (String × String)}
    (h : List.Forall₂ (·.Describes t.strings ·) es notes) :
    es.map (fun e => (t.string e.key, t.string e.value)) = notes := by
  induction h with
  | nil => rfl
  | cons first _ ih => rw [List.map_cons, ih, first.key.string, first.value.string]

end ClassTable

/-- A class is asked first, and the class that it is linked to next. -/
theorem MetaClass.classInfo?_eq (c : MetaClass) (key : String) :
    c.classInfo? key = (c.table.notes.lookup key).or (c.parent?.bind (·.classInfo? key)) := by
  rw [classInfo?, lineage_eq, List.findSome?_cons, ClassTable.find?_classInfo]
  cases c.table.notes.lookup key with
  | some value => rfl
  | none =>
    cases c.parent? with
    | none => rfl
    | some p => rfl

namespace Registry

/-- However the registry grows, it has the class of this table, which answers with the first of the notes
that has the key, or else with what the class above it answers. -/
def TellsNotes [Json.Library] (r : Registry) (t : ClassTable) (notes : List (String × String)) : Prop :=
  ∀ calls, ∃ c, (r.run calls).get? t.name = some c ∧ c.table = t ∧
    ∀ key, c.classInfo? key = (notes.lookup key).or (c.parent?.bind (·.classInfo? key))

variable {library : Json.Library} {r r' : Registry} {t : ClassTable}

theorem tellsNotes {c : MetaClass} (known : r.get? t.name = some c) (table : c.table = t) :
    r.TellsNotes t t.notes := fun calls =>
  ⟨c, get?_of_grown (grown_run calls) known, table, fun key => table ▸ c.classInfo?_eq key⟩

theorem tellsNotes_of_registerTable {c : MetaClass} (free : r.get? t.name = none)
    (taken : r.registerTable t = .ok (c, r')) : r'.TellsNotes t t.notes := by
  rcases registerTable_eq_ok_iff.1 taken with ⟨known, -⟩ | ⟨-, added⟩
  · rw [free] at known
    cases known
  · obtain ⟨rfl, rfl⟩ := Prod.mk.inj added
    have known : (r.add t).2.get? t.name = some (r.add t).1 := by rw [get?_add free, if_pos rfl]
    exact tellsNotes known (MetaClass.table_linked _ _)

/-- The first table of a name that was unknown becomes a class. -/
theorem tellsNotes_of_registerArtifact {a : Artifact} {n : Nat} {before after : List ClassTable}
    (fresh : a.guard ∉ r.guards) (free : r.get? t.name = none) (among : a.classes = before ++ t :: after)
    (first : t.name ∉ before.map (·.name)) (taken : (r.registerArtifact a).1 = .ok n) :
    (r.registerArtifact a).2.TellsNotes t t.notes := by
  have checked : r.checkArtifact a = .ok () := by
    cases checked : r.checkArtifact a with
    | ok _ => rfl
    | error e =>
      rw [registerArtifact_of_error checked] at taken
      cases taken
  rw [registerArtifact_of_not_mem checked fresh] at taken ⊢
  obtain ⟨added, -, adds⟩ := adds_of_registerNew taken
  have isAdded : t.name ∈ added.map (·.name) :=
    (adds.names _).2 ⟨free, List.mem_map_of_mem (among ▸ List.mem_append_right _ List.mem_cons_self)⟩
  obtain ⟨c, hc, named⟩ := List.mem_map.1 isAdded
  have named : c.table.name = t.name := named
  obtain ⟨before', after', among', made⟩ := adds.made c hc
  -- Both tables are the first of their name.
  have finds {u : ClassTable} {front back : List ClassTable} (split : a.classes = front ++ u :: back)
      (first : u.name ∉ front.map (·.name)) : a.classes.find? (·.name = u.name) = some u := by
    refine List.find?_eq_some_iff_append.2 ⟨by simp, front, back, split, fun v hv => ?_⟩
    simpa using fun e : v.name = u.name => first (e ▸ List.mem_map_of_mem hv)
  have found := finds among' made.first
  rw [named, finds among first] at found
  have known := adds.get?_name hc
  exact tellsNotes (named ▸ known) (Option.some.inj found).symm

end Registry

/-! ## Tables -/

namespace ClassIndex

variable {x : ClassIndex} {d : ClassDeclaration} {t : ClassTable}

theorem notesOf_eq_run (x : ClassIndex) (d : ClassDeclaration) :
    x.notesOf d = TableBuilder.run d.name (x.superName? d) (d.classInfo.map .note) := by
  rw [notesOf, TableBuilder.run, List.foldl_map]
  rfl

theorem classInfo_foldl_addMethod (ms : List MethodSpec) (b : TableBuilder) :
    (ms.foldl TableBuilder.addMethod b).table.classInfo = b.table.classInfo := by
  induction ms generalizing b with
  | nil => rfl
  | cons m ms ih =>
    obtain ⟨e, strings, table, -⟩ := b.addMethod_table m
    rw [List.foldl_cons, ih, table]

theorem classInfo_of_addProperty {b b' : TableBuilder} {p : PropertyDeclaration}
    (h : x.addProperty d b p = .ok b') : b'.table.classInfo = b.table.classInfo := by
  obtain ⟨notify, -, h⟩ := bind_eq_ok_iff.1 h
  cases h
  obtain ⟨i, j, strings, table, -⟩ := b.addProperty_table p.name p.type p.flags notify
  rw [table]

theorem classInfo_of_addEnum {b b' : TableBuilder} {r : EnumRegistration} (h : addEnum d b r = .ok b') :
    b'.table.classInfo = b.table.classInfo := by
  unfold addEnum at h
  split at h
  · rename_i e _
    cases h
    obtain ⟨i, is, strings, table, -⟩ := b.addEnum_table e.name r.isFlag e.isScoped e.keys
    rw [table]
  · cases h

/-- What is added behind the notes leaves them alone. -/
theorem classInfo_of_tableOf (h : x.tableOf d = .ok t) : t.classInfo = (x.notesOf d).table.classInfo := by
  unfold tableOf at h
  obtain ⟨ms, -, h⟩ := bind_eq_ok_iff.1 h
  obtain ⟨b₁, properties, h⟩ := bind_eq_ok_iff.1 h
  obtain ⟨b₂, enums, h⟩ := bind_eq_ok_iff.1 h
  cases h
  have first := foldlM_keeps (P := (·.table.classInfo = (x.notesOf d).table.classInfo))
    (fun kept ok => (classInfo_of_addProperty ok).trans kept) (classInfo_foldl_addMethod ms _) properties
  exact foldlM_keeps (P := (·.table.classInfo = (x.notesOf d).table.classInfo))
    (fun kept ok => (classInfo_of_addEnum ok).trans kept) first enums

/-- The table of a class holds the notes of the class, in their order. -/
theorem notes_tableOf (h : x.tableOf d = .ok t) (fits : t.strings.length ≤ UInt32.size) :
    t.notes = d.classInfo := by
  have same := classInfo_of_tableOf h
  obtain ⟨ms, b, -, completes, rfl⟩ := tableOf_eq_ok h
  have grows := ((TableBuilder.Adds.foldl TableBuilder.adds_addMethod ms (x.notesOf d)).trans completes.adds).strings
  rw [notesOf_eq_run] at grows same
  have described := ((TableBuilder.tells_run (Nat.le_trans grows.length_le fits)).mono grows).classInfo
  have notes : TableBuilder.notesOf (d.classInfo.map .note) = d.classInfo := by
    rw [TableBuilder.notesOf, List.filterMap_map]
    exact List.filterMap_some
  rw [notes, ← same] at described
  exact ClassTable.map_described described

/-! ## Main statement -/

/-- Notes on a class, with texts of one line each, are written as literals with a backslash before each of
their backslashes and quotes.

* Let a file consist of one class with the marker, with a base or without, and with these notes, with
  anything blank between its tokens; for example, let it be spelled as in `notedClass`. It is read, its
  class has these notes, and the class is compiled.
* In any file that is read, and at any place in it where the reader comes by an annotated class among whose
  items there are just these notes, the class has these notes.
* The table of a class with these notes holds them in their order, if the table has room for its strings.
  Let the table be registered under a name that was unknown, by itself or as the first of its name in an
  artifact. Then, whatever is registered later, the class answers with the value of the first note that has
  the key, or else with what the class that it is linked to answers. -/
theorem notes_survive [Json.Library] (notes : List (String × String))
    (oneLine : ∀ note ∈ notes, '\n' ∉ note.1.toList ∧ '\n' ∉ note.2.toList) :
    (∀ (file name : String) (base : Option String), TypeText.isIdentifier name.toList → name ≠ "final" →
      (∀ b ∈ base, TypeText.isIdentifier b.toList ∧ b ∉ inheritanceWords) →
      (∃ ts, significantTokens (notedClass name base notes) = .ok ts ∧
        ts.map Token.saying = classSayings name base notes) ∧
      ∀ source ts, significantTokens source = .ok ts → ts.map Token.saying = classSayings name base notes →
        ∃ line, parse file source = .ok [notedDeclaration name base notes line] ∧
          ∀ x : ClassIndex, ∃ t, x.tableOf (notedDeclaration name base notes line) = .ok t) ∧
    (∀ (file : String) {source scope : String} {ts body after : List Token} {isTemplate : Bool} {head : ClassHead}
      {b : ClassBody} {classes : List ClassDeclaration}, significantTokens source = .ok ts →
      Reaches (lastLine ts) ts (.body isTemplate (.start scope head) body) →
      ReadsNotes (lastLine ts) (.start scope head) body notes b after → b.annotated = true →
      parse file source = .ok classes → b.declaration ∈ classes ∧ b.declaration.classInfo = notes) ∧
    ∀ (x : ClassIndex) (d : ClassDeclaration) (t : ClassTable), d.classInfo = notes → x.tableOf d = .ok t →
      t.strings.length < 2 ^ 32 →
      t.classInfo.map (fun e => (t.string e.key, t.string e.value)) = notes ∧
      ∀ r : Registry, r.get? t.name = none →
        (∀ c r', r.registerTable t = .ok (c, r') → r'.TellsNotes t notes) ∧
        ∀ (a : Artifact) (n : Nat) (before after : List ClassTable), a.guard ∉ r.guards →
          a.classes = before ++ t :: after → t.name ∉ before.map (·.name) → (r.registerArtifact a).1 = .ok n →
          (r.registerArtifact a).2.TellsNotes t notes := by
  refine ⟨fun file name base named notFinal derives => ⟨?_, fun source ts lexed said => ?_⟩, ?_, ?_⟩
  · exact (reads_notedClass named (fun b hb => (derives b hb).1) oneLine).significantTokens
  · obtain ⟨line, read⟩ := parse_of_classSayings file named notFinal derives lexed said
    exact ⟨line, read, fun x => ⟨_, rfl⟩⟩
  · intro file source scope ts body after isTemplate head b classes lexed here read annotated parsed
    rw [parse, lexed] at parsed
    have file := classesOfTokens_eq_ok_iff.1 (mapError_eq_ok_iff.1 parsed)
    obtain ⟨b', left, own, body, found, within⟩ := finds_of_reaches file here
    obtain ⟨rfl, rfl⟩ := read.readsBody.unique body
    have recorded : b.declaration ∈ own := by
      rw [ClassBody.classes, annotated] at found
      cases isTemplate <;> cases found
      exact List.mem_cons_self
    exact ⟨within recorded, read.classInfo⟩
  · rintro x d t rfl made fits
    have held := notes_tableOf made (Nat.le_of_lt fits)
    refine ⟨held, fun r free => ⟨fun c r' taken => ?_, fun a n before after fresh among first taken => ?_⟩⟩
    · exact held ▸ Registry.tellsNotes_of_registerTable free taken
    · exact held ▸ Registry.tellsNotes_of_registerArtifact fresh free among first taken

/-- A key and a value with brackets, commas, quotes and runs of backslashes in them, and the key again. -/
def bellNotes : List (String × String) :=
  [("\\\"(k,\\", "\\\\\"v\"),\\"), ("\\\"(k,\\", ""), ("", "\\")]

theorem bell_notes_survive :
    (∀ note ∈ bellNotes, '\n' ∉ note.1.toList ∧ '\n' ∉ note.2.toList) ∧
      notedClass "Bell" none bellNotes =
        "class Bell \x7b H_OBJECT\n" ++
          "H_CLASSINFO(\"\\\\\\\"(k,\\\\\", \"\\\\\\\\\\\"v\\\"),\\\\\")\n" ++
          "H_CLASSINFO(\"\\\\\\\"(k,\\\\\", \"\")\n" ++
          "H_CLASSINFO(\"\", \"\\\\\")\n\x7d;" ∧
      (∃ line, parse "bell.h" (notedClass "Bell" none bellNotes) =
        .ok [notedDeclaration "Bell" none bellNotes line]) ∧
      bellNotes.lookup "\\\"(k,\\" = some "\\\\\"v\"),\\" := by
  have oneLine : ∀ note ∈ bellNotes, '\n' ∉ note.1.toList ∧ '\n' ∉ note.2.toList := by decide
  obtain ⟨⟨ts, lexed, said⟩, read⟩ :=
    (notes_survive bellNotes oneLine).1 "bell.h" "Bell" none (by decide) (by decide) (by simp)
  obtain ⟨line, parsed, -⟩ := read _ ts lexed said
  exact ⟨oneLine, by decide +kernel, ⟨line, parsed⟩, by decide +kernel⟩

end ClassIndex

end Reflection

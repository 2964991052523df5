import Mathlib.Algebra.Group.Nat.Defs
import Mathlib.Data.List.Induction
import Mathlib.Data.List.Nodup
import Reflection.Proofs.Table.Building
/-!
# Tables made by any calls

A table is made by calls in any order (`run`). Its strings are kept once, and looking a text up gives the
place at which it stands (`lookup_eq_some_iff`). Its entries refer to the texts that they were added for,
one entry for each call (`Tells`). So a method is found by its signature (`findMethod?_eq`), and the table is valid if what
tells of changes is a signal (`tables_hold_what_was_added`).
-/

namespace Reflection

/-! ## Calls -/

/-- A property to be added to a table. -/
structure PropertySpec where
  name : String
  type : String
  flags : PropertyFlags := .none
  /-- The place among the methods of the signal that tells of changes. -/
  notify : Option Nat := none
deriving DecidableEq, Repr

/-- An enumeration to be added to a table. -/
structure EnumSpec where
  name : String
  isFlag : Bool := false
  isScoped : Bool := false
  keys : List (String × Int64) := []
deriving DecidableEq, Repr

/-- An entry refers to the texts of a property. -/
structure PropertyEntry.Describes (strings : List String) (e : PropertyEntry) (p : PropertySpec) : Prop where
  name : Spells strings e.name p.name
  typeName : Spells strings e.typeName (TypeText.normalize p.type)
  flags : e.flags = p.flags
  notify : e.notify = p.notify.map UInt32.ofNat

/-- An entry refers to the texts of an enumeration. -/
structure EnumEntry.Describes (strings : List String) (e : EnumEntry) (s : EnumSpec) : Prop where
  name : Spells strings e.name s.name
  isFlag : e.isFlag = s.isFlag
  isScoped : e.isScoped = s.isScoped
  keys : List.Forall₂ (fun k key => Spells strings k.name key.1 ∧ k.value = key.2) e.keys s.keys

/-- An entry refers to the texts of a note. -/
structure ClassInfoEntry.Describes (strings : List String) (e : ClassInfoEntry) (note : String × String) :
    Prop where
  key : Spells strings e.key note.1
  value : Spells strings e.value note.2

namespace TableBuilder

/-- A call of a builder. -/
inductive Call where
  | text (s : String)
  | method (m : MethodSpec)
  | property (p : PropertySpec)
  | enumeration (s : EnumSpec)
  | note (note : String × String)

/-- The builder after a call. -/
def call (b : TableBuilder) : Call → TableBuilder
  | .text s => (b.intern s).2
  | .method m => b.addMethod m
  | .property p => b.addProperty p.name p.type p.flags p.notify
  | .enumeration s => b.addEnum s.name s.isFlag s.isScoped s.keys
  | .note (key, value) => b.addClassInfo key value

/-- The builder of a class after some calls. -/
def run (className : String) (superName : Option String) (calls : List Call) : TableBuilder :=
  calls.foldl call (start className superName)

/-- The methods that are added by calls. -/
def methodsOf (calls : List Call) : List MethodSpec :=
  calls.filterMap fun | .method m => some m | _ => none

/-- The properties that are added by calls. -/
def propertiesOf (calls : List Call) : List PropertySpec :=
  calls.filterMap fun | .property p => some p | _ => none

/-- The enumerations that are added by calls. -/
def enumsOf (calls : List Call) : List EnumSpec :=
  calls.filterMap fun | .enumeration s => some s | _ => none

/-- The notes that are added by calls. -/
def notesOf (calls : List Call) : List (String × String) :=
  calls.filterMap fun | .note n => some n | _ => none

variable {className : String} {superName : Option String} {calls : List Call} {b : TableBuilder}
  {strings : List String}

theorem run_concat (c : Call) : run className superName (calls ++ [c]) = (run className superName calls).call c := by
  rw [run, List.foldl_append]
  rfl

/-! ## Strings -/

theorem adds_call (b : TableBuilder) (c : Call) : Adds b (b.call c) := by
  cases c with
  | text text =>
    have interns : Interns b (b.intern text).2 := (intern_eq rfl).1
    refine .of_references [] interns.strings (fun i hi => .inl ?_) fun _ i hi => nomatch hi
    rwa [call, interns.table] at hi
  | method m => exact b.adds_addMethod m
  | property p => exact b.adds_addProperty p.name p.type p.flags p.notify
  | enumeration s => exact b.adds_addEnum s.name s.isFlag s.isScoped s.keys
  | note n => exact b.adds_addClassInfo n.1 n.2

/-- A place that is handed out holds its text after all later calls. -/
theorem spells_intern (b : TableBuilder) (text : String) (grows : (b.intern text).2.table.strings <+: strings)
    (fits : strings.length ≤ UInt32.size) : Spells strings (b.intern text).1 text :=
  (intern_eq rfl).2 strings grows fits

/-! ## Entries -/

/-- The entries of a table refer to the texts of what the calls add. -/
structure Tells (className : String) (superName : Option String) (calls : List Call) (strings : List String)
    (t : ClassTable) : Prop where
  className : Spells strings t.className className
  superClass : Option.Rel (Spells strings) t.superClass superName
  classInfo : List.Forall₂ (·.Describes strings ·) t.classInfo (notesOf calls)
  methods : List.Forall₂ (·.Describes strings ·) t.methods (methodsOf calls)
  properties : List.Forall₂ (·.Describes strings ·) t.properties (propertiesOf calls)
  enums : List.Forall₂ (·.Describes strings ·) t.enums (enumsOf calls)

theorem Tells.mono {t : ClassTable} {more : List String} (h : Tells className superName calls strings t)
    (grows : strings <+: more) : Tells className superName calls more t where
  className := h.className.mono grows
  superClass := match t.superClass, superName, h.superClass with
    | _, _, .none => .none
    | _, _, .some spells => .some (spells.mono grows)
  classInfo := h.classInfo.imp fun _ _ d => ⟨d.key.mono grows, d.value.mono grows⟩
  methods := h.methods.imp fun _ _ d => d.mono grows
  properties := h.properties.imp fun _ _ d => ⟨d.name.mono grows, d.typeName.mono grows, d.flags, d.notify⟩
  enums := h.enums.imp fun _ _ d =>
    ⟨d.name.mono grows, d.isFlag, d.isScoped, d.keys.imp fun _ _ k => ⟨k.1.mono grows, k.2⟩⟩

theorem tells_start : Tells className superName [] (start className superName).table.strings
    (start className superName).table := by
  obtain ⟨name, base, strings, table, -, first, second⟩ := start_table className superName
  rw [table]
  exact ⟨first, second, .nil, .nil, .nil, .nil⟩

/-- Keys get their values in order. -/
theorem forall₂_zipWith_keys {is : List StringIndex} {keys : List (String × Int64)}
    (h : List.Forall₂ (Spells strings) is (keys.map (·.1))) :
    List.Forall₂ (fun k key => Spells strings k.name key.1 ∧ k.value = key.2)
      (List.zipWith EnumKey.mk is (keys.map (·.2))) keys := by
  induction keys generalizing is with
  | nil =>
    cases h
    exact .nil
  | cons key keys ih =>
    cases h with
    | cons first rest => exact .cons ⟨first, rfl⟩ (ih rest)

/-- Entries are added that describe what is given. -/
def Extends {α β : Type} (R : α → β → Prop) (old new : List α) (bs : List β) : Prop :=
  ∃ added, new = old ++ added ∧ List.Forall₂ R added bs

theorem Extends.same {α β : Type} {R : α → β → Prop} {as : List α} : Extends R as as [] :=
  ⟨[], (List.append_nil as).symm, .nil⟩

theorem Extends.concat {α β : Type} {R : α → β → Prop} {as : List α} {a : α} {b : β} (h : R a b) :
    Extends R as (as ++ [a]) [b] :=
  ⟨[a], rfl, .cons h .nil⟩

theorem Extends.forall₂ {α β : Type} {R : α → β → Prop} {old new : List α} {bs more : List β}
    (h : Extends R old new more) (before : List.Forall₂ R old bs) : List.Forall₂ R new (bs ++ more) := by
  obtain ⟨added, rfl, later⟩ := h
  exact List.rel_append before later

theorem Tells.step {t t' : ClassTable} {c : Call} (h : Tells className superName calls strings t)
    (name : t'.className = t.className) (base : t'.superClass = t.superClass)
    (classInfo : Extends (·.Describes strings ·) t.classInfo t'.classInfo (notesOf [c]))
    (methods : Extends (·.Describes strings ·) t.methods t'.methods (methodsOf [c]))
    (properties : Extends (·.Describes strings ·) t.properties t'.properties (propertiesOf [c]))
    (enums : Extends (·.Describes strings ·) t.enums t'.enums (enumsOf [c])) :
    Tells className superName (calls ++ [c]) strings t' where
  className := name ▸ h.className
  superClass := base ▸ h.superClass
  classInfo := by
    rw [notesOf, List.filterMap_append]
    exact classInfo.forall₂ h.classInfo
  methods := by
    rw [methodsOf, List.filterMap_append]
    exact methods.forall₂ h.methods
  properties := by
    rw [propertiesOf, List.filterMap_append]
    exact properties.forall₂ h.properties
  enums := by
    rw [enumsOf, List.filterMap_append]
    exact enums.forall₂ h.enums

/-- One more call. -/
theorem Tells.call (h : Tells className superName calls b.table.strings b.table) (c : Call)
    (fits : (b.call c).table.strings.length ≤ UInt32.size) :
    Tells className superName (calls ++ [c]) (b.call c).table.strings (b.call c).table := by
  have kept := h.mono (b.adds_call c).strings
  cases c with
  | text s =>
    have table : (b.call (.text s)).table = _ := (intern_eq rfl).1.table
    rw [table] at kept ⊢
    exact kept.step rfl rfl .same .same .same .same
  | method m =>
    obtain ⟨e, strings, table, -, describes⟩ := b.addMethod_table m
    have table : (b.call (.method m)).table = _ := table
    rw [table] at kept fits ⊢
    exact kept.step rfl rfl .same (.concat (describes fits)) .same .same
  | property p =>
    obtain ⟨i, j, strings, table, -, spells⟩ := b.addProperty_table p.name p.type p.flags p.notify
    have table : (b.call (.property p)).table = _ := table
    rw [table] at kept fits ⊢
    obtain ⟨name, type⟩ := spells fits
    exact kept.step rfl rfl .same .same (.concat ⟨name, type, rfl, rfl⟩) .same
  | enumeration s =>
    obtain ⟨i, is, strings, table, -, spells⟩ := b.addEnum_table s.name s.isFlag s.isScoped s.keys
    have table : (b.call (.enumeration s)).table = _ := table
    rw [table] at kept fits ⊢
    obtain ⟨name, keys⟩ := spells fits
    exact kept.step rfl rfl .same .same .same (.concat ⟨name, rfl, rfl, forall₂_zipWith_keys keys⟩)
  | note n =>
    obtain ⟨i, j, strings, table, -, spells⟩ := b.addClassInfo_table n.1 n.2
    have table : (b.call (.note n)).table = _ := table
    rw [table] at kept fits ⊢
    obtain ⟨key, value⟩ := spells fits
    exact kept.step rfl rfl (.concat ⟨key, value⟩) .same .same .same

theorem adds_run (before later : List Call) :
    Adds (run className superName before) (run className superName (before ++ later)) := by
  rw [run, run, List.foldl_append]
  exact Adds.foldl adds_call later _

/-- What a table holds after calls that leave it room for its strings. -/
theorem tells_run (fits : (run className superName calls).table.strings.length ≤ UInt32.size) :
    Tells className superName calls (run className superName calls).table.strings
      (run className superName calls).table := by
  induction calls using List.reverseRecOn with
  | nil => exact tells_start
  | append_singleton calls c ih =>
    have before := ih (Nat.le_trans (adds_run calls [c]).strings.length_le fits)
    rw [run_concat] at fits ⊢
    exact before.call c fits

/-! ## Look-up by signature -/

/-- A method is found under its signature, and the first if several have it. -/
theorem findMethod?_eq {ms : List MethodSpec} (fits : b.table.strings.length ≤ UInt32.size)
    (described : List.Forall₂ (·.Describes b.table.strings ·) b.table.methods ms) (canonical : String) :
    b.findMethod? canonical = ms.findIdx? (·.signature.canonical = canonical) := by
  unfold findMethod?
  cases known : b.lookup.lookup canonical with
  | none =>
    have nowhere : b.table.methods.findIdx? (fun _ => false) = none := by simp
    rw [Option.bind_none, ← nowhere]
    refine findIdx?_eq_of_forall₂ (described.imp fun e m describes => ?_)
    rw [eq_comm, decide_eq_false_iff_not]
    rintro rfl
    rw [(lookup_eq_some_iff fits).2 describes.signature] at known
    cases known
  | some i =>
    have spelled : Spells b.table.strings i canonical := (lookup_eq_some_iff fits).1 known
    rw [Option.bind_some]
    refine findIdx?_eq_of_forall₂ (described.imp fun e m describes => ?_)
    rw [Bool.eq_iff_iff, decide_eq_true_eq, decide_eq_true_eq]
    constructor
    · rintro rfl
      exact describes.signature.unique spelled
    · rintro rfl
      have looked := (lookup_eq_some_iff fits).2 describes.signature
      exact Option.some.inj (looked.symm.trans known)

/-! ## Main theorem -/

/-- A table is made by any calls, and it has no more strings than there are places for them. Then

* its strings are distinct, and a place is looked up for a text just if the text stands there;
* each of its entries refers to the texts for which it was added, and the digest of a method is the hash
  of its signature;
* a place that was handed out for a text holds this text after all later calls;
* a method is found by its signature, the first that was added with it, and none where none was;
* if the places that are said to tell of changes are places of signals, the table is valid. -/
theorem tables_hold_what_was_added (className : String) (superName : Option String) (calls : List Call)
    (fits : (run className superName calls).table.strings.length < 2 ^ 32) :
    let b := run className superName calls
    b.table.strings.Nodup ∧
    (∀ text i, b.lookup.lookup text = some i ↔ Spells b.table.strings i text) ∧
    Tells className superName calls b.table.strings b.table ∧
    (∀ e ∈ b.table.methods, e.digest = Signature.digestOf (b.table.signature e)) ∧
    (∀ before text later, calls = before ++ .text text :: later →
      Spells b.table.strings ((run className superName before).intern text).1 text) ∧
    (∀ canonical, b.findMethod? canonical =
      (methodsOf calls).findIdx? (·.signature.canonical = canonical)) ∧
    ((∀ p ∈ propertiesOf calls, ∀ k, p.notify = some k →
        k < 2 ^ 32 ∧ ∃ m, (methodsOf calls)[k]? = some m ∧ m.kind = .signal) →
      b.table.validate = .ok ()) := by
  intro b
  have fits : b.table.strings.length ≤ UInt32.size := Nat.le_of_lt fits
  have tells : Tells className superName calls b.table.strings b.table := tells_run fits
  refine ⟨b.places.nodup, fun text i => lookup_eq_some_iff fits, tells, fun e he => ?_, ?_,
    fun canonical => findMethod?_eq fits tells.methods canonical,
    fun signals => ClassTable.validate_eq_ok_iff.2 ⟨?_, ?_, ?_⟩⟩
  · obtain ⟨m, -, describes⟩ := exists_right_of_mem tells.methods e he
    rw [describes.digest, ClassTable.signature, describes.signature.string, Signature.digest]
  · rintro before text later rfl
    have grows : ((run className superName before).intern text).2.table.strings <+: b.table.strings := by
      have kept := (@adds_run className superName (before ++ [Call.text text]) later).strings
      rwa [List.append_assoc, List.singleton_append, run_concat] at kept
    exact spells_intern _ text grows fits
  · exact (@adds_run className superName [] calls).inside fits fun _ => references_start className superName
  · intro e he
    obtain ⟨m, -, describes⟩ := exists_right_of_mem tells.methods e he
    exact describes.inside.2
  · intro e he i hi
    obtain ⟨p, hp, describes⟩ := exists_right_of_mem tells.properties e he
    rw [describes.notify, Option.map_eq_some_iff] at hi
    obtain ⟨k, hk, rfl⟩ := hi
    obtain ⟨small, m, there, isSignal⟩ := signals p hp k hk
    obtain ⟨e, there, describes⟩ := exists_getElem?_of_forall₂ tells.methods there
    rw [ClassTable.hasSignalAt, UInt32.toNat_ofNat_of_lt' small, there, Option.any_some, describes.kind]
    exact decide_eq_true isSignal

/-- A signal whose texts are names and types at once. -/
def sharing : MethodSpec :=
  { name := "int", parameters := [("const int &", "f"), ("int", "int")], kind := .signal }

/-- Calls that need the same texts for names, types and signatures, and add one signature twice. -/
def sharingCalls : List Call :=
  [.text "int(int,int)", .note ("f", "int"), .method sharing,
    .method { sharing with kind := .slot, returnType := "f" },
    .property { name := "f", type := "int &", notify := some 0 },
    .enumeration { name := "f", keys := [("int", 1), ("f", 2)] }]

theorem shared_texts_are_kept_once :
    let b := run "int" (some "f") sharingCalls
    b.table.strings = ["int", "f", "int(int,int)", "void", "const int &"] ∧
      b.findMethod? "int(int,int)" = some 0 ∧ b.findMethod? "int()" = none ∧ b.table.validate = .ok () := by
  intro b
  have strings : b.table.strings = ["int", "f", "int(int,int)", "void", "const int &"] := by decide +kernel
  have fits : b.table.strings.length < 2 ^ 32 := by
    rw [strings]
    decide
  obtain ⟨-, -, -, -, -, found, valid⟩ := tables_hold_what_was_added "int" (some "f") sharingCalls fits
  refine ⟨strings, (found _).trans (by decide +kernel), (found _).trans (by decide +kernel), valid ?_⟩
  intro p hp k hk
  obtain rfl : p = _ := List.mem_singleton.1 hp
  cases hk
  exact ⟨by decide, sharing, rfl, rfl⟩

end TableBuilder
end Reflection

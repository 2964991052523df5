import Reflection.Artifact.Rendering
import Reflection.Proofs.Json.Reading
/-!
# Artifacts come back from their text

Each sort of value is written as a JSON value that holds texts only, and reading that gives back what
was written. This holds of the plain values, of lists, options and choices of such, and so of each
record of a table: the members of a written record have the names that its reader looks for, all of
them different. The rest is what is promised of a library for JSON.

The main statement is `Artifact.ofText_toText`.
-/

namespace Reflection

namespace Json

variable {library : Library}

/-! ## Plain values -/

/-- What is written has texts only, and reading it gives back what was written. -/
structure RoundTrip {α : Type} (encode : α → Json) (decode : Json → Option α) : Prop where
  textual : ∀ a, Textual (encode a)
  decode_encode : ∀ a, decode (encode a) = some a

theorem natBelow?_integer {bound n : Nat} (h : n < bound) : natBelow? bound (.integer n) = some n := by
  simp [natBelow?, integer?, h]

theorem roundTrip_text : RoundTrip text text? where
  textual s := .string s
  decode_encode _ := rfl

theorem roundTrip_bool : RoundTrip .bool bool? where
  textual b := .bool b
  decode_encode _ := rfl

theorem roundTrip_index : RoundTrip indexJson uint32? where
  textual _ := .integer _
  decode_encode i := by
    rw [uint32?, indexJson, natBelow?_integer i.toNat_lt]
    simp

theorem roundTrip_digest : RoundTrip (fun d : UInt64 => .integer d.toNat) uint64? where
  textual _ := .integer _
  decode_encode d := by
    rw [uint64?, natBelow?_integer d.toNat_lt]
    simp

theorem roundTrip_value : RoundTrip (fun v : Int64 => .integer v.toInt) int64? where
  textual _ := .integer _
  decode_encode v := by
    have low : Int64.minValue.toInt ≤ v.toInt := v.minValue_le_toInt
    have high : v.toInt ≤ Int64.maxValue.toInt := v.toInt_le
    simp only [int64?, integer?, low, high, decide_true, Bool.and_self, if_true, Int64.ofInt_toInt]

/-- A name for each choice, found in the list of names. -/
theorem roundTrip_choice (lawful : library.Lawful) {α : Type} {names : List (String × α)} {name : α → String}
    (h : ∀ a, names.lookup (name a) = some a) :
    RoundTrip (fun a => text (name a)) (choice? names) where
  textual a := .string (name a)
  decode_encode a := by
    rw [choice?, lawful.variant?_text]
    exact h a

section
variable {α : Type} {encode : α → Json} {decode : Json → Option α} (h : RoundTrip encode decode)
include h

theorem RoundTrip.list : RoundTrip (ofList encode) (list? decode) where
  textual as := .array (List.forall_mem_map.2 fun a _ => h.textual a)
  decode_encode as := by
    simp only [list?, ofList]
    induction as with
    | nil => rfl
    | cons a as ih => simp [h.decode_encode, ih]

theorem RoundTrip.textual_ofOption (a : Option α) : Textual (ofOption encode a) := by
  cases a with
  | none => exact .null
  | some a => exact h.textual a

end

/-! ## Records -/

theorem textual_ofFields {members : List (String × Json)} (h : ∀ m ∈ members, Textual m.2) :
    Textual (ofFields members) := by
  apply Textual.object
  · exact List.forall_mem_map.2 fun _ _ => rfl
  · exact List.forall_mem_map.2 h

/-- A record written with just the names that are asked for is read from all of its members. -/
theorem record?_bind (lawful : library.Lawful) {β : Type} {names : List String} {members : List (String × Json)}
    (all : members.map (·.1) = names) (distinct : names.Nodup) (f : Fields → Option β) :
    (library.record? names (ofFields members) >>= f) = f ⟨false, members⟩ := by
  subst all
  rw [lawful.record?_ofFields _ _ distinct, List.filter_eq_self.2]
  · rfl
  · intro m hm
    simpa using ⟨m.2, hm⟩

theorem lookup_self {name : String} {j : Json} {members : List (String × Json)} :
    ((name, j) :: members).lookup name = some j := by
  exact List.lookup_cons_self

theorem lookup_of_ne {name other : String} {j : Json} {members : List (String × Json)} (ne : name ≠ other) :
    ((other, j) :: members).lookup name = members.lookup name := by
  have skipped : (name == other) = false := by simpa using ne
  rw [List.lookup_cons, skipped]

/-- A field with a default, told without cases on what is found. -/
theorem Fields.withDefault_eq {α : Type} (fs : Fields) (name : String) (default : α)
    (value : Json → Option α) :
    fs.withDefault name default value = ((fs.values.lookup name).map value).getD (some default) := by
  unfold withDefault
  cases fs.values.lookup name <;> rfl

/-- An index that may be missing. -/
theorem Fields.optional_index {fs : Fields} {name : String} {i : Option UInt32}
    (found : fs.values.lookup name = some (ofOption indexJson i)) :
    fs.optional name uint32? = some i := by
  rw [optional, found]
  cases i with
  | none => rfl
  | some i =>
    have read := roundTrip_index.decode_encode i
    simp only [indexJson] at read
    simp only [ofOption, indexJson, read, Option.map_some]

end Json

open Json

section Tables

variable {library : Library}

/-! ## Tables -/

theorem MethodKind.roundTrip (lawful : library.Lawful) : RoundTrip (fun k => text (MethodKind.name k)) (choice? MethodKind.names) :=
  roundTrip_choice lawful (by rintro (_ | _ | _) <;> rfl)

theorem Access.roundTrip (lawful : library.Lawful) : RoundTrip (fun a => text (Access.name a)) (choice? Access.names) :=
  roundTrip_choice lawful (by rintro (_ | _ | _) <;> rfl)

theorem MethodEntry.roundTrip (lawful : library.Lawful) : RoundTrip MethodEntry.toJson MethodEntry.ofJson? where
  textual m := by
    apply textual_ofFields
    simp only [List.forall_mem_cons, roundTrip_index.textual, roundTrip_index.list.textual,
      roundTrip_digest.textual m.digest, (MethodKind.roundTrip lawful).textual m.kind,
      (Access.roundTrip lawful).textual m.access, roundTrip_bool.textual, List.not_mem_nil, false_implies,
      implies_true, and_self]
  decode_encode m := by
    -- Rewriting without proofs by computation: the kernel would compare texts and bounds by itself.
    rw [MethodEntry.ofJson?, MethodEntry.toJson, record?_bind lawful]
    case all => rfl
    case distinct => simp
    simp -implicitDefEqProofs only [Fields.required, lookup_self, lookup_of_ne, Option.bind_some, ne_eq,
      roundTrip_index.decode_encode, String.reduceEq, not_false_eq_true,
      roundTrip_digest.decode_encode m.digest, roundTrip_index.list.decode_encode, (MethodKind.roundTrip lawful).decode_encode m.kind,
      (Access.roundTrip lawful).decode_encode m.access, Fields.withDefault_eq, roundTrip_bool.decode_encode,
      Option.map_some, Option.getD_some, Option.pure_def, Option.bind_eq_bind]

theorem PropertyEntry.roundTrip (lawful : library.Lawful) : RoundTrip PropertyEntry.toJson PropertyEntry.ofJson? where
  textual p := by
    apply textual_ofFields
    simp only [List.forall_mem_cons, roundTrip_index.textual, roundTrip_index.textual_ofOption,
      List.not_mem_nil, false_implies, implies_true, and_self]
  decode_encode p := by
    have notify : ∀ fs : Fields, fs.values.lookup "notify" = some (ofOption indexJson p.notify) →
        fs.optional "notify" uint32? = some p.notify := fun _ found => Fields.optional_index found
    rw [PropertyEntry.ofJson?, PropertyEntry.toJson, record?_bind lawful]
    case all => rfl
    case distinct => simp
    simp -implicitDefEqProofs only [Fields.required, lookup_self, lookup_of_ne, Option.bind_some, ne_eq,
      roundTrip_index.decode_encode, String.reduceEq, not_false_eq_true, notify, Option.pure_def,
      Option.bind_eq_bind]

theorem EnumKey.roundTrip (lawful : library.Lawful) : RoundTrip EnumKey.toJson EnumKey.ofJson? where
  textual k := by
    apply textual_ofFields
    simp only [List.forall_mem_cons, roundTrip_index.textual, roundTrip_value.textual k.value,
      List.not_mem_nil, false_implies, implies_true, and_self]
  decode_encode k := by
    rw [EnumKey.ofJson?, EnumKey.toJson, record?_bind lawful]
    case all => rfl
    case distinct => simp
    simp -implicitDefEqProofs only [Fields.required, lookup_self, lookup_of_ne, Option.bind_some, ne_eq,
      roundTrip_index.decode_encode, String.reduceEq, not_false_eq_true,
      roundTrip_value.decode_encode k.value, Option.pure_def, Option.bind_eq_bind]

theorem EnumEntry.roundTrip (lawful : library.Lawful) : RoundTrip EnumEntry.toJson EnumEntry.ofJson? where
  textual e := by
    apply textual_ofFields
    simp only [List.forall_mem_cons, roundTrip_index.textual, roundTrip_bool.textual,
      (EnumKey.roundTrip lawful).list.textual, List.not_mem_nil, false_implies, implies_true, and_self]
  decode_encode e := by
    rw [EnumEntry.ofJson?, EnumEntry.toJson, record?_bind lawful]
    case all => rfl
    case distinct => simp
    simp -implicitDefEqProofs only [Fields.required, lookup_self, lookup_of_ne, Option.bind_some, ne_eq,
      roundTrip_index.decode_encode, String.reduceEq, not_false_eq_true, roundTrip_bool.decode_encode,
      (EnumKey.roundTrip lawful).list.decode_encode, Option.pure_def, Option.bind_eq_bind]

theorem ClassInfoEntry.roundTrip (lawful : library.Lawful) : RoundTrip ClassInfoEntry.toJson ClassInfoEntry.ofJson? where
  textual i := by
    apply textual_ofFields
    simp only [List.forall_mem_cons, roundTrip_index.textual, List.not_mem_nil, false_implies,
      implies_true, and_self]
  decode_encode i := by
    rw [ClassInfoEntry.ofJson?, ClassInfoEntry.toJson, record?_bind lawful]
    case all => rfl
    case distinct => simp
    simp -implicitDefEqProofs only [Fields.required, lookup_self, lookup_of_ne, Option.bind_some, ne_eq,
      roundTrip_index.decode_encode, String.reduceEq, not_false_eq_true, Option.pure_def, Option.bind_eq_bind]

theorem ClassTable.roundTrip (lawful : library.Lawful) : RoundTrip ClassTable.toJson ClassTable.ofJson? where
  textual t := by
    apply textual_ofFields
    simp only [List.forall_mem_cons, roundTrip_index.textual, roundTrip_index.textual_ofOption,
      roundTrip_text.list.textual, (ClassInfoEntry.roundTrip lawful).list.textual,
      (MethodEntry.roundTrip lawful).list.textual, (PropertyEntry.roundTrip lawful).list.textual,
      (EnumEntry.roundTrip lawful).list.textual, List.not_mem_nil, false_implies, implies_true, and_self]
  decode_encode t := by
    have base : ∀ fs : Fields,
        fs.values.lookup "super_class" = some (ofOption indexJson t.superClass) →
        fs.optional "super_class" uint32? = some t.superClass :=
      fun _ found => Fields.optional_index found
    rw [ClassTable.ofJson?, ClassTable.toJson, record?_bind lawful]
    case all => rfl
    case distinct => simp
    simp -implicitDefEqProofs only [Fields.required, lookup_self, lookup_of_ne, Option.bind_some, ne_eq,
      roundTrip_index.decode_encode, String.reduceEq, not_false_eq_true, base,
      roundTrip_text.list.decode_encode, Fields.withDefault_eq, Option.map_some, Option.getD_some, (ClassInfoEntry.roundTrip lawful).list.decode_encode,
      (MethodEntry.roundTrip lawful).list.decode_encode, (PropertyEntry.roundTrip lawful).list.decode_encode,
      (EnumEntry.roundTrip lawful).list.decode_encode, Option.pure_def, Option.bind_eq_bind]

end Tables

/-! ## Artifacts -/

namespace Artifact

section Texts

variable {library : Library}

theorem roundTrip (lawful : library.Lawful) : RoundTrip toJson ofJson? where
  textual a := by
    apply textual_ofFields
    simp only [List.forall_mem_cons, roundTrip_index.textual, roundTrip_text.textual,
      (ClassTable.roundTrip lawful).list.textual, List.not_mem_nil, false_implies, implies_true, and_self]
  decode_encode a := by
    rw [ofJson?, toJson, record?_bind lawful]
    case all => rfl
    case distinct => simp
    simp -implicitDefEqProofs only [Fields.required, lookup_self, lookup_of_ne, Option.bind_some, ne_eq,
      roundTrip_index.decode_encode, String.reduceEq, not_false_eq_true, roundTrip_text.decode_encode,
      (ClassTable.roundTrip lawful).list.decode_encode, Option.pure_def, Option.bind_eq_bind]

/-- The version is found among the other members. -/
theorem versionOf?_toJson (lawful : library.Lawful) (a : Artifact) : versionOf? a.toJson = some a.version := by
  rw [versionOf?, toJson, lawful.record?_ofFields _ _ (by simp)]
  rw [Option.bind_some, Fields.required]
  simp -implicitDefEqProofs [roundTrip_index.decode_encode]

/-- A text for an artifact is refused with its version, if that is not the present one. -/
theorem ofText_of_parse? {text : String} {j : Json} {a : Artifact} (parsed : library.parse? text = some j)
    (version : versionOf? j = some a.version) (read : ofJson? j = some a) :
    ofText text = if a.version = formatVersion then .ok a else .error (.version a.version) := by
  simp only [ofText, parsed, version, read]
  by_cases current : a.version = formatVersion <;> simp [current]

/-- An artifact of the present format is read back from its JSON text, with blanks behind it. -/
theorem ofText_toText_append (lawful : library.Lawful) {a : Artifact} (current : a.version = formatVersion) (blank : String)
    (blanks : ∀ c ∈ blank.toList, Json.isSpace c = true) : ofText (a.toText ++ blank) = .ok a := by
  have parsed := lawful.parse?_print _ ((roundTrip lawful).textual a) blank blanks
  rw [toText, ofText_of_parse? parsed (versionOf?_toJson lawful a) ((roundTrip lawful).decode_encode a), if_pos current]

end Texts

end Artifact
end Reflection

import Reflection.Json.Library
import Reflection.Table
/-!
# Tables in JSON

How a class table is written as a JSON value and read from one.
-/

namespace Reflection

open Json

/-! ## Writing -/

/-- The names of the kinds. -/
def MethodKind.names : List (String × MethodKind) :=
  [("signal", .signal), ("slot", .slot), ("method", .method)]

/-- The name of a kind. -/
def MethodKind.name : MethodKind → String
  | .signal => "signal"
  | .slot => "slot"
  | .method => "method"

/-- The names of the access levels. -/
def Access.names : List (String × Access) :=
  [("private", .isPrivate), ("protected", .isProtected), ("public", .isPublic)]

/-- The name of an access level. -/
def Access.name : Access → String
  | .isPrivate => "private"
  | .isProtected => "protected"
  | .isPublic => "public"

/-- An index as a number. -/
def indexJson (i : UInt32) : Json :=
  .integer i.toNat

def MethodEntry.toJson (m : MethodEntry) : Json :=
  .ofFields
    [("name", indexJson m.name), ("signature", indexJson m.signature),
     ("signature_hash", .integer m.digest.toNat), ("return_type", indexJson m.returnType),
     ("parameter_types", .ofList indexJson m.parameterTypes),
     ("declared_types", .ofList indexJson m.declaredTypes),
     ("parameter_names", .ofList indexJson m.parameterNames),
     ("kind", .text m.kind.name), ("access", .text m.access.name), ("cloned", .bool m.cloned)]

def PropertyEntry.toJson (p : PropertyEntry) : Json :=
  .ofFields
    [("name", indexJson p.name), ("type_name", indexJson p.typeName),
     ("flags", indexJson p.flags.bits), ("notify", .ofOption indexJson p.notify)]

def EnumKey.toJson (k : EnumKey) : Json :=
  .ofFields [("name", indexJson k.name), ("value", .integer k.value.toInt)]

def EnumEntry.toJson (e : EnumEntry) : Json :=
  .ofFields
    [("name", indexJson e.name), ("is_flag", .bool e.isFlag), ("is_scoped", .bool e.isScoped),
     ("keys", .ofList EnumKey.toJson e.keys)]

def ClassInfoEntry.toJson (i : ClassInfoEntry) : Json :=
  .ofFields [("key", indexJson i.key), ("value", indexJson i.value)]

def ClassTable.toJson (t : ClassTable) : Json :=
  .ofFields
    [("class_name", indexJson t.className), ("super_class", .ofOption indexJson t.superClass),
     ("strings", .ofList Json.text t.strings), ("class_info", .ofList ClassInfoEntry.toJson t.classInfo),
     ("methods", .ofList MethodEntry.toJson t.methods),
     ("properties", .ofList PropertyEntry.toJson t.properties),
     ("enums", .ofList EnumEntry.toJson t.enums)]

/-! ## Reading -/

variable [Json.Library]

def MethodEntry.ofJson? (j : Json) : Option MethodEntry := do
  let fs ← Library.record?
    ["name", "signature", "signature_hash", "return_type", "parameter_types", "declared_types",
     "parameter_names", "kind", "access", "cloned"] j
  return {
    name := ← fs.required "name" uint32?
    signature := ← fs.required "signature" uint32?
    digest := ← fs.required "signature_hash" uint64?
    returnType := ← fs.required "return_type" uint32?
    parameterTypes := ← fs.required "parameter_types" (list? uint32?)
    declaredTypes := ← fs.required "declared_types" (list? uint32?)
    parameterNames := ← fs.required "parameter_names" (list? uint32?)
    kind := ← fs.required "kind" (choice? MethodKind.names)
    access := ← fs.required "access" (choice? Access.names)
    cloned := ← fs.withDefault "cloned" false bool? }

def PropertyEntry.ofJson? (j : Json) : Option PropertyEntry := do
  let fs ← Library.record? ["name", "type_name", "flags", "notify"] j
  return {
    name := ← fs.required "name" uint32?
    typeName := ← fs.required "type_name" uint32?
    flags := ⟨← fs.required "flags" uint32?⟩
    notify := ← fs.optional "notify" uint32? }

def EnumKey.ofJson? (j : Json) : Option EnumKey := do
  let fs ← Library.record? ["name", "value"] j
  return ⟨← fs.required "name" uint32?, ← fs.required "value" int64?⟩

def EnumEntry.ofJson? (j : Json) : Option EnumEntry := do
  let fs ← Library.record? ["name", "is_flag", "is_scoped", "keys"] j
  return {
    name := ← fs.required "name" uint32?
    isFlag := ← fs.required "is_flag" bool?
    isScoped := ← fs.required "is_scoped" bool?
    keys := ← fs.required "keys" (list? EnumKey.ofJson?) }

def ClassInfoEntry.ofJson? (j : Json) : Option ClassInfoEntry := do
  let fs ← Library.record? ["key", "value"] j
  return ⟨← fs.required "key" uint32?, ← fs.required "value" uint32?⟩

def ClassTable.ofJson? (j : Json) : Option ClassTable := do
  let fs ← Library.record?
    ["class_name", "super_class", "strings", "class_info", "methods", "properties", "enums"] j
  return {
    className := ← fs.required "class_name" uint32?
    superClass := ← fs.optional "super_class" uint32?
    strings := ← fs.required "strings" (list? text?)
    classInfo := ← fs.withDefault "class_info" [] (list? ClassInfoEntry.ofJson?)
    methods := ← fs.required "methods" (list? MethodEntry.ofJson?)
    properties := ← fs.withDefault "properties" [] (list? PropertyEntry.ofJson?)
    enums := ← fs.withDefault "enums" [] (list? EnumEntry.ofJson?) }

end Reflection

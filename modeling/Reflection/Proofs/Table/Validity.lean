import Mathlib.Tactic.Tauto
import Reflection.Proofs.Checks
import Reflection.Table
/-!
# Valid tables

A table is valid if `ClassTable.validate` finds no fault. Every string that such a table refers to is
there (`string_of_mem_references`), and every signal that tells of changes is a signal of the same
table (`signal_of_notify`).
-/

namespace Reflection.ClassTable

/-! ## References -/

/-- The strings that a method refers to. -/
def methodReferences (m : MethodEntry) : List StringIndex :=
  m.name :: m.signature :: m.returnType :: (m.parameterTypes ++ m.declaredTypes ++ m.parameterNames)

/-- The strings that a table refers to. -/
def references (t : ClassTable) : List StringIndex :=
  t.className :: t.superClass.toList
    ++ t.classInfo.flatMap (fun i => [i.key, i.value])
    ++ t.methods.flatMap methodReferences
    ++ t.properties.flatMap (fun p => [p.name, p.typeName])
    ++ t.enums.flatMap (fun e => e.name :: e.keys.map (·.name))

variable {t : ClassTable}

/-! ## What the checks require -/

theorem checkString_eq_ok_iff {role : StringRole} {i : StringIndex} :
    t.checkString role i = .ok () ↔ i.toNat < t.strings.length := by
  unfold checkString
  split
  · exact ⟨fun _ => ‹_›, fun _ => rfl⟩
  · exact ⟨fun h => (nomatch h), fun h => absurd h ‹_›⟩

theorem checkMethod_eq_ok_iff {m : MethodEntry} :
    t.checkMethod m = .ok () ↔
      (∀ i ∈ methodReferences m, i.toNat < t.strings.length) ∧
        m.parameterNames.length = m.parameterTypes.length ∧
        m.declaredTypes.length = m.parameterTypes.length := by
  unfold checkMethod
  simp only [check_bind_eq_ok_iff, refuse_bind_eq_ok_iff, forM_eq_ok_iff, checkString_eq_ok_iff,
    methodReferences, List.forall_mem_cons]
  simp only [ne_eq, Bool.or_eq_true, decide_eq_true_eq, not_or, not_not]
  tauto

theorem checkProperty_eq_ok_iff {p : PropertyEntry} :
    t.checkProperty p = .ok () ↔
      p.name.toNat < t.strings.length ∧ p.typeName.toNat < t.strings.length ∧
        ∀ i, p.notify = some i → t.hasSignalAt i = true := by
  unfold checkProperty
  simp only [check_bind_eq_ok_iff, checkString_eq_ok_iff]
  cases p.notify with
  | none => exact ⟨fun h => ⟨h.1, h.2.1, fun _ h => (nomatch h)⟩, fun h => ⟨h.1, h.2.1, rfl⟩⟩
  | some i => simp only [refuse_eq_ok_iff, Bool.not_eq_true', Bool.not_eq_false, Option.some.injEq,
      forall_eq']

theorem checkEnum_eq_ok_iff {e : EnumEntry} :
    t.checkEnum e = .ok () ↔
      ∀ i ∈ e.name :: e.keys.map (·.name), i.toNat < t.strings.length := by
  unfold checkEnum
  simp only [check_bind_eq_ok_iff, forM_eq_ok_iff, checkString_eq_ok_iff, List.forall_mem_cons,
    List.forall_mem_map]

/-- A table is valid exactly if its strings are there, each method has as many names and declared
types as parameters, and what tells of changes is a signal. -/
theorem validate_eq_ok_iff :
    t.validate = .ok () ↔
      (∀ i ∈ t.references, i.toNat < t.strings.length) ∧
        (∀ m ∈ t.methods, m.parameterNames.length = m.parameterTypes.length ∧
          m.declaredTypes.length = m.parameterTypes.length) ∧
        ∀ p ∈ t.properties, ∀ i, p.notify = some i → t.hasSignalAt i = true := by
  unfold validate references
  simp only [check_bind_eq_ok_iff, forM_eq_ok_iff, checkString_eq_ok_iff, checkMethod_eq_ok_iff,
    checkProperty_eq_ok_iff, checkEnum_eq_ok_iff, List.forall_mem_append, List.forall_mem_cons,
    List.forall_mem_flatMap]
  simp only [forall_and, List.forall_mem_map]
  tauto

/-! ## What a valid table has -/

/-- No string that a valid table refers to is missing. -/
theorem string_of_mem_references (h : t.validate = .ok ()) {i : StringIndex}
    (hi : i ∈ t.references) : t.strings[i.toNat]? = some (t.string i) := by
  have lt := (validate_eq_ok_iff.1 h).1 i hi
  rw [string, List.getElem?_eq_getElem lt]
  rfl

/-- What tells of changes to a property of a valid table is a signal of the table. -/
theorem signal_of_notify (h : t.validate = .ok ()) {p : PropertyEntry} (hp : p ∈ t.properties)
    {i : UInt32} (hi : p.notify = some i) :
    ∃ m, t.methods[i.toNat]? = some m ∧ m.kind = .signal := by
  have := (validate_eq_ok_iff.1 h).2.2 p hp i hi
  rw [hasSignalAt, Option.any_eq_true] at this
  obtain ⟨m, hm, kind⟩ := this
  exact ⟨m, hm, of_decide_eq_true kind⟩

end Reflection.ClassTable

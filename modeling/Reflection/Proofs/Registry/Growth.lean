import Reflection.Proofs.MetaClass.Lineage
import Reflection.Proofs.Registry.Inheritance
import Reflection.Proofs.Table.Validity
/-!
# How the registry grows

Whatever is registered, well or badly, the registry changes only in two ways: a guard is added, or a
class is added whose name was free, whose table is valid and whose declared bases do not lead back to
it (`Grown`, `grown_call`). So a class stays what it was (`get?_of_grown`), and what one such change
keeps holds after every run (`consistent_run`).
-/

namespace Reflection.Registry

open Relation (ReflTransGen TransGen)

/-! ## Runs -/

/-- A registration of some kind. -/
inductive Call where
  | table (t : ClassTable)
  | artifact (a : Artifact)
  | text (s : String)
deriving Repr

/-- The registry after a registration. One that is refused as a whole changes nothing. -/
def call [Json.Library] (r : Registry) : Call → Registry
  | .table t =>
    match r.registerTable t with
    | .ok (_, r) => r
    | .error _ => r
  | .artifact a => (r.registerArtifact a).2
  | .text s => (r.registerText s).2

/-- The registry after some registrations. -/
def run [Json.Library] (r : Registry) (calls : List Call) : Registry :=
  calls.foldl call r

variable {library : Json.Library}

theorem run_append (r : Registry) (calls more : List Call) :
    r.run (calls ++ more) = (r.run calls).run more :=
  List.foldl_append

/-! ## What a registration does -/

/-- A table whose class may be added. -/
structure Admissible (r : Registry) (t : ClassTable) : Prop where
  free : r.get? t.name = none
  valid : t.validate = .ok ()
  clear : ∀ b, t.superName? = some b → ¬ ReflTransGen (r.Declares []) b t.name

/-- A guard or a class is added. -/
inductive Grows (r : Registry) : Registry → Prop
  | guard (g : String) : Grows r { r with guards := g :: r.guards }
  | add {t : ClassTable} (h : r.Admissible t) : Grows r (r.add t).2

/-- Guards and classes are added one by one. -/
def Grown : Registry → Registry → Prop :=
  ReflTransGen Grows

variable {r r' : Registry}

theorem checkTable_eq_ok_iff {t : ClassTable} : checkTable t = .ok () ↔ t.validate = .ok () :=
  mapError_eq_ok_iff

/-- A table is taken if its name is known already or it may be added. -/
theorem registerTable_eq_ok_iff {t : ClassTable} {c : MetaClass} :
    r.registerTable t = .ok (c, r') ↔
      (r.get? t.name = some c ∧ r' = r) ∨ (r.Admissible t ∧ r.add t = (c, r')) := by
  rw [registerTable]
  cases known : r.get? t.name with
  | some c' =>
    constructor
    · intro h
      cases h
      exact .inl ⟨rfl, rfl⟩
    · rintro (⟨h, rfl⟩ | ⟨h, -⟩)
      · cases h
        rfl
      · rw [h.free] at known
        cases known
  | none =>
    show (checkTable t >>= fun _ => r.checkInheritance [] t >>= fun _ => .ok (r.add t)) = _ ↔ _
    rw [check_bind_eq_ok_iff, check_bind_eq_ok_iff, checkTable_eq_ok_iff, checkInheritance_eq_ok_iff,
      Except.ok.injEq]
    constructor
    · rintro ⟨valid, clear, added⟩
      exact .inr ⟨⟨known, valid, clear⟩, added⟩
    · rintro (⟨h, -⟩ | ⟨h, added⟩)
      · cases h
      · exact ⟨h.valid, h.clear, added⟩

theorem grown_registerNew (ts : List ClassTable) : r.Grown (r.registerNew ts).2 := by
  induction ts generalizing r with
  | nil => exact .refl
  | cons t ts ih =>
    rw [registerNew]
    split
    · exact ih
    · rename_i unknown
      split
      · exact .refl
      · rename_i c r' taken
        rcases registerTable_eq_ok_iff.1 taken with ⟨known, -⟩ | ⟨admissible, added⟩
        · rw [contains, known] at unknown
          exact absurd rfl unknown
        · have grows : r.Grows r' := by
            have := Grows.add admissible
            rwa [added] at this
          exact .head grows ih

theorem grown_registerArtifact (a : Artifact) : r.Grown (r.registerArtifact a).2 := by
  rw [registerArtifact]
  split
  · exact .refl
  · split
    · exact .refl
    · exact .head (.guard a.guard) (grown_registerNew a.classes)

/-- Every registration only adds. -/
theorem grown_call (x : Call) : r.Grown (r.call x) := by
  cases x with
  | table t =>
    rw [call]
    split
    · rename_i c r' taken
      rcases registerTable_eq_ok_iff.1 taken with ⟨-, rfl⟩ | ⟨admissible, added⟩
      · exact .refl
      · have := Grows.add admissible
        rw [added] at this
        exact .single this
    · exact .refl
  | artifact a => exact grown_registerArtifact a
  | text s =>
    show r.Grown (r.registerText s).2
    rw [registerText]
    split
    · exact .refl
    · exact grown_registerArtifact _

theorem grown_run (calls : List Call) : r.Grown (r.run calls) := by
  induction calls generalizing r with
  | nil => exact .refl
  | cons x calls ih => exact (grown_call x).trans ih

/-! ## Look-ups in a grown registry -/

/-- Adding a class whose name is free changes the look-up of this name only. -/
theorem get?_add {t : ClassTable} (free : r.get? t.name = none) (name : String) :
    (r.add t).2.get? name = if name = t.name then some (r.add t).1 else r.get? name := by
  show (r.classes ++ [_]).find? _ = _
  rw [List.find?_append]
  split
  · rename_i e
    have : r.classes.find? (·.name = name) = none := e ▸ free
    rw [this, Option.none_or, List.find?_cons_of_pos (by simp [e])]
    rfl
  · rename_i ne
    have : ¬ t.name = name := fun e => ne e.symm
    rw [List.find?_cons_of_neg (by simp [this]), List.find?_nil, Option.or_none]
    rfl

/-- A class once known stays what it is: its table, what it is linked to and with that its offsets. -/
theorem get?_of_grown {name : String} {c : MetaClass} (h : r.Grown r') (known : r.get? name = some c) :
    r'.get? name = some c := by
  induction h with
  | refl => exact known
  | tail _ step ih =>
    cases step with
    | guard g => exact ih
    | add admissible =>
      rw [get?_add admissible.free, if_neg, ih]
      intro e
      rw [e, admissible.free] at ih
      cases ih

end Reflection.Registry

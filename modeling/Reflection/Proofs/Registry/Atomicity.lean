import Reflection.Json.Standard
import Reflection.Proofs.Registry.Consistency
/-!
# Failed registrations

An artifact is checked before anything of it is registered, and what the checks refuse changes
nothing. The checks let the artifact's own tables count before what is registered, but the
registration that follows keeps what is registered. So a table that redefines a known class can hide a
chain of bases from the checks that the registration then meets, with the guard and the earlier
classes in place already. `failed_registration_changes_nothing_iff` says that this is the only case.
-/

namespace Reflection.Registry

open Relation (ReflTransGen TransGen)

/-- The base of a class when the tables `ts` are registered one by one: what is known counts before
them, and of several tables of one name the first. -/
def joinedBase? (r : Registry) (ts : List ClassTable) (className : String) : Option String :=
  match r.get? className with
  | some c => c.superName?
  | none => (ts.find? (·.name = className)).bind (·.superName?)

/-- One class has another as its base when the tables `ts` are registered. -/
def Joins (r : Registry) (ts : List ClassTable) (a b : String) : Prop :=
  r.joinedBase? ts a = some b

/-- The names and declared bases of the tables of an artifact. -/
def pendingOf (a : Artifact) : Pending :=
  a.classes.map fun t => (t.name, t.superName?)

/-- An artifact that passes the checks, whose guard is new, and whose tables nevertheless close a
cycle of bases when they join the known classes. -/
structure Trapped (r : Registry) (a : Artifact) : Prop where
  version : a.version = formatVersion
  valid : ∀ t ∈ a.classes, t.validate = .ok ()
  clear : ∀ t ∈ a.classes, ∀ b, t.superName? = some b →
    ¬ ReflTransGen (r.Declares (pendingOf a)) b t.name
  fresh : a.guard ∉ r.guards
  cycle : ∃ name, TransGen (r.Joins a.classes) name name

variable {r r' : Registry}

theorem checkArtifact_eq_ok_iff {a : Artifact} :
    r.checkArtifact a = .ok () ↔ a.version = formatVersion ∧ ∀ t ∈ a.classes,
      t.validate = .ok () ∧
        ∀ b, t.superName? = some b → ¬ ReflTransGen (r.Declares (pendingOf a)) b t.name := by
  rw [checkArtifact]
  simp only [refuse_bind_eq_ok_iff, forM_eq_ok_iff, check_bind_eq_ok_iff, checkTable_eq_ok_iff,
    checkInheritance_eq_ok_iff, ne_eq, not_not]
  exact Iff.rfl

theorem trapped_iff {a : Artifact} :
    r.Trapped a ↔ r.checkArtifact a = .ok () ∧ a.guard ∉ r.guards ∧
      ∃ name, TransGen (r.Joins a.classes) name name := by
  rw [checkArtifact_eq_ok_iff]
  constructor
  · exact fun h => ⟨⟨h.version, fun t ht => ⟨h.valid t ht, h.clear t ht⟩⟩, h.fresh, h.cycle⟩
  · rintro ⟨⟨version, tables⟩, fresh, cycle⟩
    exact ⟨version, fun t ht => (tables t ht).1, fun t ht => (tables t ht).2, fresh, cycle⟩

/-! ## Bases while tables are registered -/

/-- What is registered declares the same base whatever else joins. -/
theorem declares_le_joins (ts : List ClassTable) : r.Declares [] ≤ r.Joins ts := by
  intro a b h
  obtain ⟨c, hc, hb⟩ := Option.bind_eq_some_iff.1 h
  rw [Joins, joinedBase?, hc]
  exact hb

theorem joins_nil : r.Joins [] = r.Declares [] := by
  funext a b
  rw [Joins, joinedBase?, Declares, declaredBase?_nil]
  cases r.get? a with
  | none => rfl
  | some c => rfl

theorem find?_named_self (t : ClassTable) (ts : List ClassTable) :
    ((t :: ts).find? fun u => u.name = t.name) = some t :=
  List.find?_cons_of_pos (decide_eq_true rfl)

theorem find?_named_of_ne {t : ClassTable} {a : String} (ne : t.name ≠ a) (ts : List ClassTable) :
    ((t :: ts).find? fun u => u.name = a) = ts.find? fun u => u.name = a :=
  List.find?_cons_of_neg (by simpa using ne)

/-- A table whose name is known does not count. -/
theorem joins_cons_of_known {t : ClassTable} {c : MetaClass} (known : r.get? t.name = some c)
    (ts : List ClassTable) : r.Joins (t :: ts) = r.Joins ts := by
  funext a b
  rw [Joins, Joins, joinedBase?, joinedBase?]
  cases h : r.get? a with
  | some c => rfl
  | none =>
    have ne : t.name ≠ a := by
      intro e
      rw [e, h] at known
      cases known
    simp only [find?_named_of_ne ne]

/-- Adding the class of a table leaves the bases that they are with the table still to come. -/
theorem joins_add {t : ClassTable} (free : r.get? t.name = none) (ts : List ClassTable) :
    (r.add t).2.Joins ts = r.Joins (t :: ts) := by
  funext a b
  rw [Joins, Joins, joinedBase?, joinedBase?, get?_add free]
  by_cases e : a = t.name
  · rw [if_pos e, e, free]
    simp only [find?_named_self, Option.bind_some]
    show ((MetaClass.linked t _).superName? = some b) = _
    rw [MetaClass.superName?_linked]
  · rw [if_neg e]
    cases r.get? a with
    | some c => rfl
    | none =>
      simp only [find?_named_of_ne (Ne.symm e)]

/-! ## When the registration of checked tables fails -/

/-- A valid table of a free name is refused only if the known bases lead back to it. -/
theorem cycle_of_registerTable_error {t : ClassTable} {e : RegistrationError}
    (free : r.get? t.name = none) (valid : t.validate = .ok ()) (h : r.registerTable t = .error e)
    (ts : List ClassTable) : TransGen (r.Joins (t :: ts)) t.name t.name := by
  by_contra none
  have admissible : r.Admissible t := by
    refine ⟨free, valid, fun b hb chain => none ?_⟩
    have step : r.Joins (t :: ts) t.name b := by
      rw [Joins, joinedBase?, free]
      simp only [find?_named_self, Option.bind_some]
      exact hb
    exact .head' step (ReflTransGen.mono (declares_le_joins _) _ _ chain)
  have taken : r.registerTable t = .ok (r.add t) := registerTable_eq_ok_iff.2 (.inr ⟨admissible, rfl⟩)
  rw [taken] at h
  cases h

/-- Valid tables are all registered unless they close a cycle of bases with the known classes. -/
theorem registerNew_error_iff (h : r.Consistent) {ts : List ClassTable}
    (valid : ∀ t ∈ ts, t.validate = .ok ()) :
    (∃ e, (r.registerNew ts).1 = .error e) ↔ ∃ name, TransGen (r.Joins ts) name name := by
  -- By induction on the tables: each is known, is added, or closes a cycle.
  induction ts generalizing r with
  | nil =>
    constructor
    · rintro ⟨e, he⟩
      cases he
    · rintro ⟨name, cycle⟩
      rw [joins_nil] at cycle
      exact absurd cycle (h.acyclic name)
  | cons t ts ih =>
    have valid' : ∀ t ∈ ts, t.validate = .ok () := fun t ht => valid t (List.mem_cons_of_mem _ ht)
    rw [registerNew]
    cases known : r.get? t.name with
    | some c =>
      rw [if_pos (by rw [contains, known]; rfl), joins_cons_of_known known]
      exact ih h valid'
    | none =>
      rw [if_neg (by rw [contains, known]; exact Bool.false_ne_true)]
      cases result : r.registerTable t with
      | error e =>
        have cycle := cycle_of_registerTable_error known (valid t List.mem_cons_self) result ts
        exact ⟨fun _ => ⟨_, cycle⟩, fun _ => ⟨e, rfl⟩⟩
      | ok added =>
        obtain ⟨c, r'⟩ := added
        rcases registerTable_eq_ok_iff.1 result with ⟨hk, -⟩ | ⟨admissible, hr⟩
        · rw [hk] at known
          cases known
        · have := ih (h.add admissible) valid'
          rw [joins_add known, hr] at this
          rw [← this]
          show (∃ e, Except.map _ (r'.registerNew ts).1 = _) ↔ _
          cases (r'.registerNew ts).1 with
          | error e => exact ⟨fun _ => ⟨e, rfl⟩, fun _ => ⟨e, rfl⟩⟩
          | ok n =>
            constructor
            · rintro ⟨e, he⟩
              cases he
            · rintro ⟨e, he⟩
              cases he

/-! ## What a failure leaves behind -/

theorem guards_of_registerNew (ts : List ClassTable) : (r.registerNew ts).2.guards = r.guards := by
  induction ts generalizing r with
  | nil => rfl
  | cons t ts ih =>
    rw [registerNew]
    split
    · exact ih
    · split
      · rfl
      · rename_i c r' taken
        rcases registerTable_eq_ok_iff.1 taken with ⟨-, rfl⟩ | ⟨-, added⟩
        · exact ih
        · cases added
          exact ih

theorem registerArtifact_of_error {a : Artifact} {e : RegistrationError}
    (h : r.checkArtifact a = .error e) : r.registerArtifact a = (.error e, r) := by
  rw [registerArtifact, h]

theorem registerArtifact_of_mem {a : Artifact} (h : r.checkArtifact a = .ok ())
    (known : a.guard ∈ r.guards) : r.registerArtifact a = (.ok 0, r) := by
  rw [registerArtifact, h]
  exact if_pos (List.contains_iff_mem.2 known)

theorem registerArtifact_of_not_mem {a : Artifact} (h : r.checkArtifact a = .ok ())
    (fresh : a.guard ∉ r.guards) :
    r.registerArtifact a = { r with guards := a.guard :: r.guards }.registerNew a.classes := by
  rw [registerArtifact, h]
  exact if_neg (fun known => fresh (List.contains_iff_mem.1 known))

/-- A trapped artifact is refused when its guard is registered already. -/
theorem Trapped.registerArtifact (h : r.Consistent) {a : Artifact} (ha : r.Trapped a) :
    (∃ e, (r.registerArtifact a).1 = .error e) ∧
      (r.registerArtifact a).2.guards = a.guard :: r.guards := by
  have checked := (trapped_iff.1 ha).1
  rw [registerArtifact_of_not_mem checked ha.fresh]
  have h' : ({ r with guards := a.guard :: r.guards } : Registry).Consistent :=
    h.of_grown (.single (.guard a.guard))
  exact ⟨(registerNew_error_iff h' ha.valid).2 ha.cycle, guards_of_registerNew _⟩

/-- Any other artifact is either registered or leaves the registry as it was. -/
theorem registerArtifact_of_not_trapped (h : r.Consistent) {a : Artifact} (ha : ¬ r.Trapped a)
    (failed : ∃ e, (r.registerArtifact a).1 = .error e) : (r.registerArtifact a).2 = r := by
  cases checked : r.checkArtifact a with
  | error e => rw [registerArtifact_of_error checked]
  | ok _ =>
    by_cases known : a.guard ∈ r.guards
    · rw [registerArtifact_of_mem checked known]
    · rw [registerArtifact_of_not_mem checked known] at failed
      have h' : ({ r with guards := a.guard :: r.guards } : Registry).Consistent :=
        h.of_grown (.single (.guard a.guard))
      have valid : ∀ t ∈ a.classes, t.validate = .ok () :=
        fun t ht => ((checkArtifact_eq_ok_iff.1 checked).2 t ht).1
      exact absurd (trapped_iff.2 ⟨checked, known, (registerNew_error_iff h' valid).1 failed⟩) ha

/-! ## Main theorem -/

/-- After every run of registrations, a failing registration of an artifact, given as such or as a
text, changes nothing, unless the artifact is trapped. The registration of a trapped artifact always
fails and leaves its guard behind. -/
theorem failed_registration_changes_nothing_iff [Json.Library] (calls : List Call) :
    let r := ({} : Registry).run calls
    (∀ a, ((∃ e, (r.registerArtifact a).1 = .error e) → (r.registerArtifact a).2 = r) ↔
      ¬ r.Trapped a) ∧
    (∀ s, ((∃ e, (r.registerText s).1 = .error e) → (r.registerText s).2 = r) ↔
      ∀ a, Artifact.ofText s = .ok a → ¬ r.Trapped a) ∧
    (∀ a, r.Trapped a → (∃ e, (r.registerArtifact a).1 = .error e) ∧
      (r.registerArtifact a).2.guards = a.guard :: r.guards) := by
  intro r
  have h : r.Consistent := consistent_run calls
  have artifact : ∀ a, ((∃ e, (r.registerArtifact a).1 = .error e) →
      (r.registerArtifact a).2 = r) ↔ ¬ r.Trapped a := by
    intro a
    refine ⟨fun unchanged trapped => ?_, fun ha => registerArtifact_of_not_trapped h ha⟩
    obtain ⟨failed, guards⟩ := trapped.registerArtifact h
    rw [unchanged failed] at guards
    exact List.cons_ne_self _ _ guards.symm
  refine ⟨artifact, fun s => ?_, fun a ha => ha.registerArtifact h⟩
  rw [registerText]
  cases Artifact.ofText s with
  | error e =>
    constructor
    · intro _ a ha
      cases ha
    · intro _ _
      rfl
  | ok a =>
    rw [artifact a]
    constructor
    · intro ha b hb
      cases hb
      exact ha
    · intro ha
      exact ha a rfl

/-- A table without members. -/
def bareTable (name : String) (base : Option String) : ClassTable where
  className := 0
  superClass := base.map fun _ => 1
  strings := name :: base.toList
  classInfo := []
  methods := []
  properties := []
  enums := []

/-- `A` is known to derive from `B`. An artifact that declares `A` again, as a root class, hides this
from the checks of its `B`, which derives from `A`. The registration fails at `B`, when the guard and
the class `C` are in place already. -/
theorem redefinition_hides_cycle :
    let r := ({} : Registry).run [.table (bareTable "A" (some "B"))]
    let a := Artifact.ofTables "s.h" "G"
      [bareTable "C" none, bareTable "A" none, bareTable "B" (some "A")]
    (r.registerArtifact a).1 = .error (.invalidTable "B" .cyclicInheritance) ∧
      r.guards = [] ∧ (r.registerArtifact a).2.guards = ["G"] ∧
      r.classes.map (·.name) = ["A"] ∧
      (r.registerArtifact a).2.classes.map (·.name) = ["A", "C"] := by
  decide

end Reflection.Registry

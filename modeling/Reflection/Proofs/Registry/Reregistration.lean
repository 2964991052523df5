import Reflection.Proofs.Registry.Atomicity
/-!
# Registering an artifact again

An artifact is recognised by its guard, but the guard is looked at only when the artifact has passed
its checks, and the check for cycles lets the bases that the artifact declares count before those that
are registered. Where a class of the artifact was passed over, because its name was known, the two
may differ, and what is registered later can close a cycle with them. So an artifact that was taken
can be refused the next time. `registering_again_changes_nothing` says what holds: the registry stays
as it is, and the artifact is taken exactly if its own bases close no cycle with what is registered.
-/

namespace Reflection.Registry

open Relation (ReflTransGen TransGen)

/-- No class of an artifact is led back to by its declared bases, those in the artifact first. -/
def Clear (r : Registry) (a : Artifact) : Prop :=
  ∀ t ∈ a.classes, ∀ b, t.superName? = some b → ¬ ReflTransGen (r.Declares (pendingOf a)) b t.name

/-- All classes of an artifact are registered, with the bases that it declares. -/
def Holds (r : Registry) (a : Artifact) : Prop :=
  ∀ t ∈ a.classes, ∃ c, r.get? t.name = some c ∧ c.superName? = t.superName?

variable {r r' : Registry} {a : Artifact}

/-! ## Classes that a registration added -/

theorem Holds.of_grown (h : r.Holds a) (grown : r.Grown r') : r'.Holds a := by
  intro t ht
  obtain ⟨c, known, base⟩ := h t ht
  exact ⟨c, get?_of_grown grown known, base⟩

/-- A registration counts each table at most once, and when it counts all of them their classes are
there. -/
theorem registered_of_registerNew {ts : List ClassTable} {n : ℕ}
    (h : (r.registerNew ts).1 = .ok n) :
    n ≤ ts.length ∧ (n = ts.length →
      ∀ t ∈ ts, ∃ c, (r.registerNew ts).2.get? t.name = some c ∧ c.superName? = t.superName?) := by
  induction ts generalizing r n with
  | nil =>
    cases h
    exact ⟨Nat.le_refl 0, fun _ t ht => (nomatch ht)⟩
  | cons t ts ih =>
    rw [registerNew] at h ⊢
    split at h
    · -- A table whose name is known is not counted.
      rename_i known
      rw [if_pos known]
      have bound := (ih h).1
      exact ⟨Nat.le_succ_of_le bound, fun full => by rw [List.length_cons] at full; omega⟩
    · rename_i unknown
      rw [if_neg unknown]
      cases taken : r.registerTable t with
      | error e =>
        rw [taken] at h
        cases h
      | ok added =>
        obtain ⟨c, r'⟩ := added
        rw [taken] at h
        obtain ⟨m, hm, rfl⟩ := map_eq_ok_iff.1 h
        obtain ⟨bound, all⟩ := ih hm
        refine ⟨Nat.succ_le_succ bound, fun full => ?_⟩
        have named : r'.get? t.name = some c ∧ c.superName? = t.superName? := by
          rcases registerTable_eq_ok_iff.1 taken with ⟨known, -⟩ | ⟨admissible, he⟩
          · rw [contains, known] at unknown
            exact absurd rfl unknown
          · have := get?_add admissible.free t.name
            rw [if_pos rfl, he] at this
            have new : (r.add t).1 = c := congrArg Prod.fst he
            exact ⟨this, new ▸ MetaClass.superName?_linked ..⟩
        intro u hu
        rcases List.mem_cons.1 hu with rfl | hu
        · exact ⟨c, get?_of_grown (grown_registerNew ts) named.1, named.2⟩
        · exact all (by rw [List.length_cons] at full; omega) u hu

/-- A registration that added all classes of an artifact leaves them there as it declares them. -/
theorem holds_of_added_all (added : (r.registerArtifact a).1 = .ok a.classes.length) :
    (r.registerArtifact a).2.Holds a := by
  cases checked : r.checkArtifact a with
  | error e =>
    rw [registerArtifact_of_error checked] at added
    cases added
  | ok _ =>
    by_cases known : a.guard ∈ r.guards
    · rw [registerArtifact_of_mem checked known] at added
      have none : a.classes = [] := List.length_eq_zero_iff.1 (Except.ok.inj added).symm
      intro t ht
      rw [none] at ht
      cases ht
    · rw [registerArtifact_of_not_mem checked known] at added ⊢
      exact (registered_of_registerNew added).2 rfl

/-! ## The check for cycles -/

/-- Where all classes of an artifact are registered as it declares them, its bases are theirs. -/
theorem Holds.declares (h : r.Holds a) : r.Declares (pendingOf a) = r.Declares [] := by
  funext x y
  rw [Declares, Declares, declaredBase?_nil, declaredBase?]
  split
  · rename_i base found
    have mem : (x, base) ∈ pendingOf a := by
      obtain ⟨before, after, e, -⟩ := List.lookup_eq_some_iff.1 found
      rw [← List.mem_reverse, e]
      simp
    obtain ⟨t, ht, e⟩ := List.mem_map.1 mem
    obtain ⟨c, known, hc⟩ := h t ht
    cases e
    rw [known, ← hc]
    rfl
  · rfl

theorem Holds.clear (h : r.Holds a) (consistent : r.Consistent) : r.Clear a := by
  intro t ht b hb chain
  rw [h.declares] at chain
  obtain ⟨c, known, hc⟩ := h t ht
  have step : r.Declares [] t.name b := by
    rw [Declares, declaredBase?_nil, known, ← hb, ← hc]
    rfl
  exact consistent.acyclic t.name (.head' step chain)

/-- The checks of an artifact that is in order for itself can only find a cycle. -/
theorem cycle_of_checkArtifact {e : RegistrationError} (version : a.version = formatVersion)
    (valid : ∀ t ∈ a.classes, t.validate = .ok ()) (refused : r.checkArtifact a = .error e) :
    ∃ t ∈ a.classes, e = .invalidTable t.name .cyclicInheritance := by
  rw [checkArtifact, if_neg (not_not_intro version)] at refused
  obtain ⟨t, ht, refused⟩ := error_of_forM refused
  refine ⟨t, ht, ?_⟩
  rw [checkTable_eq_ok_iff.2 (valid t ht)] at refused
  change checkInheritance .. = _ at refused
  rw [checkInheritance] at refused
  split at refused
  · cases refused
    rfl
  · cases refused

/-! ## After the first registration -/

/-- A registration that succeeds has made sure that the artifact is in order for itself, and its guard
is registered afterwards. -/
theorem accepted_of_registerArtifact {n : ℕ} (accepted : (r.registerArtifact a).1 = .ok n) :
    a.version = formatVersion ∧ (∀ t ∈ a.classes, t.validate = .ok ()) ∧
      a.guard ∈ (r.registerArtifact a).2.guards := by
  cases checked : r.checkArtifact a with
  | error e =>
    rw [registerArtifact_of_error checked] at accepted
    cases accepted
  | ok _ =>
    obtain ⟨version, tables⟩ := checkArtifact_eq_ok_iff.1 checked
    refine ⟨version, fun t ht => (tables t ht).1, ?_⟩
    by_cases known : a.guard ∈ r.guards
    · rw [registerArtifact_of_mem checked known]
      exact known
    · rw [registerArtifact_of_not_mem checked known, guards_of_registerNew]
      exact List.mem_cons_self

theorem guard_mem_of_grown {g : String} (h : r.Grown r') (known : g ∈ r.guards) : g ∈ r'.guards := by
  induction h with
  | refl => exact known
  | tail _ step ih =>
    cases step with
    | guard g' => exact List.mem_cons_of_mem _ ih
    | add _ => exact ih

/-- What comes after a registration grows from what it left. -/
theorem grown_run_after [Json.Library] (before between : List Call) (a : Artifact) :
    ((({} : Registry).run before).registerArtifact a).2.Grown
      (({} : Registry).run (before ++ .artifact a :: between)) := by
  rw [run_append]
  exact grown_run between

/-! ## Main theorem -/

/-- An artifact was registered with success, and any registrations came before and after. When it is
registered again

* the registry stays as it is;
* it succeeds, without adding a class, exactly if the bases that the artifact declares close no cycle
  with those that are registered;
* otherwise it is refused for cyclic inheritance of one of its classes;
* it succeeds if all classes of the artifact are registered with the bases that it declares, and so if
  the first registration added all of them. -/
theorem registering_again_changes_nothing [Json.Library] (before between : List Call) (a : Artifact) (n : ℕ)
    (accepted : ((({} : Registry).run before).registerArtifact a).1 = .ok n) :
    let r := ({} : Registry).run (before ++ .artifact a :: between)
    (r.registerArtifact a).2 = r ∧
      ((r.registerArtifact a).1 = .ok 0 ↔ r.Clear a) ∧
      (¬ r.Clear a → ∃ t ∈ a.classes,
        (r.registerArtifact a).1 = .error (.invalidTable t.name .cyclicInheritance)) ∧
      (r.Holds a → (r.registerArtifact a).1 = .ok 0) ∧
      (n = a.classes.length → (r.registerArtifact a).1 = .ok 0) := by
  intro r
  obtain ⟨version, valid, guard⟩ := accepted_of_registerArtifact accepted
  have grown : (_ : Registry).Grown r := grown_run_after before between a
  have known : a.guard ∈ r.guards := guard_mem_of_grown grown guard
  have passes : r.checkArtifact a = .ok () ↔ r.Clear a :=
    checkArtifact_eq_ok_iff.trans
      ⟨fun h t ht => (h.2 t ht).2, fun clear => ⟨version, fun t ht => ⟨valid t ht, clear t ht⟩⟩⟩
  have taken : r.Clear a → r.registerArtifact a = (.ok 0, r) :=
    fun clear => registerArtifact_of_mem (passes.2 clear) known
  have refused : ¬ r.Clear a → ∃ t ∈ a.classes,
      r.registerArtifact a = (.error (.invalidTable t.name .cyclicInheritance), r) := by
    intro blocked
    cases checked : r.checkArtifact a with
    | ok _ => exact absurd (passes.1 checked) blocked
    | error e =>
      obtain ⟨t, ht, rfl⟩ := cycle_of_checkArtifact version valid checked
      exact ⟨t, ht, registerArtifact_of_error checked⟩
  have held : r.Holds a → (r.registerArtifact a).1 = .ok 0 :=
    fun holds => congrArg Prod.fst (taken (holds.clear (consistent_run _)))
  refine ⟨?_, ⟨?_, fun clear => congrArg Prod.fst (taken clear)⟩, ?_, held, ?_⟩
  · by_cases clear : r.Clear a
    · rw [taken clear]
    · obtain ⟨t, -, h⟩ := refused clear
      rw [h]
  · intro h
    by_contra blocked
    obtain ⟨t, -, h'⟩ := refused blocked
    rw [h'] at h
    cases h
  · intro blocked
    obtain ⟨t, ht, h⟩ := refused blocked
    exact ⟨t, ht, congrArg Prod.fst h⟩
  · intro all
    exact held ((holds_of_added_all (all ▸ accepted)).of_grown grown)

/-- The artifact's only class was added. Another artifact is refused, and a class below it comes: when
the artifact is registered again, nothing is added. -/
theorem registering_again_after_others :
    let a := Artifact.ofTables "a.h" "G" [bareTable "A" (some "B")]
    let between : List Call := [.artifact (Artifact.ofTables "b.h" "H" [bareTable "B" (some "A")]),
      .table (bareTable "C" (some "A"))]
    let r := ({} : Registry).run ([] ++ .artifact a :: between)
    ((({} : Registry).run []).registerArtifact a).1 = .ok 1 ∧ (r.registerArtifact a).1 = .ok 0 ∧
      (r.registerArtifact a).2 = r := by
  have again := registering_again_changes_nothing []
    [.artifact (Artifact.ofTables "b.h" "H" [bareTable "B" (some "A")]),
      .table (bareTable "C" (some "A"))]
    (Artifact.ofTables "a.h" "G" [bareTable "A" (some "B")]) 1 (by decide)
  exact ⟨by decide, again.2.2.2.2 rfl, again.1⟩

/-- `A` is known as a root class, so the `A` of an artifact, which derives from `B`, is passed over. Then
`B` comes, which derives from `A`. Now the artifact is refused, although its guard is registered. -/
theorem accepted_artifact_is_refused_later :
    let a := Artifact.ofTables "s.h" "G" [bareTable "A" (some "B")]
    let before : List Call := [.table (bareTable "A" none)]
    let r := ({} : Registry).run (before ++ .artifact a :: [.table (bareTable "B" (some "A"))])
    ((({} : Registry).run before).registerArtifact a).1 = .ok 0 ∧ r.guards = ["G"] ∧
      (r.registerArtifact a).1 = .error (.invalidTable "A" .cyclicInheritance) := by
  decide

end Reflection.Registry

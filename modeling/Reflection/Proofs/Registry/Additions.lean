import Reflection.Proofs.Registry.Atomicity
/-!
# What a registration adds

The tables of an artifact are gone through in order. The first of each unknown name becomes a class, linked
to its declared base if that is known by then, and all others are passed over (`Adds`). So it is for one
table after the other (`Adds.pass`, `Adds.add`), and for an artifact that is registered with success
(`registered_artifact_adds_unknown_classes`).
-/

namespace Reflection.Registry

/-- A class was made of the first table of its name, which was free. It is linked to its declared base if
that was known, or is the name of an earlier table. -/
structure MadeFrom (r r' : Registry) (before : List ClassTable) (c : MetaClass) : Prop where
  free : r.get? c.name = none
  first : c.name ∉ before.map (·.name)
  linked : ∀ p, c.parent? = some p ↔
    ∃ b, c.superName? = some b ∧ r'.get? b = some p ∧ (r.contains b ∨ b ∈ before.map (·.name))

/-- Classes were added for tables, and nothing else is different. -/
structure Adds (r : Registry) (ts : List ClassTable) (added : List MetaClass) (r' : Registry) : Prop where
  whole : r' = { r with classes := r.classes ++ added }
  nodup : (added.map (·.name)).Nodup
  names : ∀ name, name ∈ added.map (·.name) ↔ r.get? name = none ∧ name ∈ ts.map (·.name)
  made : ∀ c ∈ added, ∃ before after, ts = before ++ c.table :: after ∧ r.MadeFrom r' before c

variable {r r' : Registry} {t : ClassTable} {ts before : List ClassTable} {added : List MetaClass}
  {c : MetaClass}

/-! ## One table -/

theorem contains_iff {name : String} : r.contains name ↔ r.get? name ≠ none := by
  rw [contains, Option.isSome_iff_ne_none]

theorem contains_add (free : r.get? t.name = none) (name : String) :
    (r.add t).2.contains name ↔ r.contains name ∨ name = t.name := by
  rw [contains_iff, contains_iff, get?_add free]
  by_cases same : name = t.name <;> simp [same]

theorem Adds.nil (r : Registry) : r.Adds [] [] r where
  whole := by simp
  nodup := .nil
  names := by simp
  made _ h := nomatch h

/-- A table whose name is known adds nothing. -/
theorem Adds.pass (h : r.Adds ts added r') (known : r.contains t.name) : r.Adds (t :: ts) added r' where
  whole := h.whole
  nodup := h.nodup
  names name := by
    rw [h.names, List.map_cons, List.mem_cons]
    refine and_congr_right fun free => (or_iff_right ?_).symm
    rintro rfl
    exact contains_iff.1 known free
  made c hc := by
    obtain ⟨before, after, split, made⟩ := h.made c hc
    have other : c.name ≠ t.name := fun e => contains_iff.1 known (e ▸ made.free)
    refine ⟨t :: before, after, by rw [split, List.cons_append], made.free, ?_, fun p => ?_⟩
    · rw [List.map_cons, List.mem_cons, not_or]
      exact ⟨other, made.first⟩
    · rw [made.linked p]
      refine exists_congr fun b => and_congr_right fun _ => and_congr_right fun _ => ?_
      rw [List.map_cons, List.mem_cons]
      refine ⟨Or.imp_right .inr, ?_⟩
      rintro (there | rfl | there)
      · exact .inl there
      · exact .inl known
      · exact .inr there

/-- A table that may be added comes first. -/
theorem Adds.add (admissible : r.Admissible t) (h : (r.add t).2.Adds ts added r') :
    r.Adds (t :: ts) ((r.add t).1 :: added) r' := by
  have free := admissible.free
  have name : (r.add t).1.name = t.name := MetaClass.name_linked _ _
  have base : (r.add t).1.superName? = t.superName? := MetaClass.superName?_linked _ _
  have look_up := get?_add free
  constructor
  case whole =>
    rw [h.whole]
    simp [Registry.add]
  case nodup =>
    rw [List.map_cons, List.nodup_cons, name]
    refine ⟨fun again => ?_, h.nodup⟩
    have unknown := ((h.names _).1 again).1
    rw [look_up, if_pos rfl] at unknown
    cases unknown
  case names =>
    intro n
    rw [List.map_cons, List.mem_cons, List.map_cons, List.mem_cons, h.names, name, look_up]
    by_cases same : n = t.name
    · simp [same, free]
    · simp [same]
  case made =>
    rw [List.forall_mem_cons]
    constructor
    · -- The class of the first table is linked to what was known before.
      refine ⟨[], ts, by rw [List.nil_append]; exact congrArg (· :: ts) (MetaClass.table_linked _ _).symm,
        name ▸ free, by simp, fun p => ?_⟩
      show (MetaClass.linked t (t.superName?.bind r.get?)).parent? = some p ↔ _
      rw [MetaClass.parent?_linked, Option.bind_eq_some_iff, base]
      refine exists_congr fun b => and_congr_right fun _ => ?_
      have stays (p : MetaClass) (known : r.get? b = some p) : r'.get? b = some p := by
        rw [h.whole]
        show ((r.add t).2.classes ++ added).find? _ = _
        rw [List.find?_append]
        show ((r.add t).2.get? b).or _ = _
        rw [get?_of_grown (.single (.add admissible)) known, Option.some_or]
      constructor
      · exact fun known => ⟨stays p known, .inl (contains_iff.2 (known ▸ Option.some_ne_none p))⟩
      · rintro ⟨later, known | none⟩
        · obtain ⟨p', known⟩ := Option.ne_none_iff_exists'.1 (contains_iff.1 known)
          rw [known, ← stays p' known, later]
        · simp at none
    · intro c hc
      obtain ⟨before, after, split, made⟩ := h.made c hc
      have unknown := made.free
      rw [look_up] at unknown
      split at unknown
      · cases unknown
      · rename_i other
        refine ⟨t :: before, after, by rw [split, List.cons_append], unknown, ?_, fun p => ?_⟩
        · rw [List.map_cons, List.mem_cons, not_or]
          exact ⟨other, made.first⟩
        · rw [made.linked p]
          refine exists_congr fun b => and_congr_right fun _ => and_congr_right fun _ => ?_
          rw [contains_add free, List.map_cons, List.mem_cons, or_assoc]

/-- An added class is found by its name. -/
theorem Adds.get?_name (h : r.Adds ts added r') (hc : c ∈ added) : r'.get? c.name = some c := by
  have before : r.get? c.name = none := ((h.names _).1 (List.mem_map_of_mem hc)).1
  have among : ({ classes := added } : Registry).get? c.name = some c := get?_of_nodup h.nodup hc
  rw [h.whole]
  show (r.classes ++ added).find? _ = _
  rw [List.find?_append]
  show (r.get? c.name).or _ = _
  rw [before, Option.none_or]
  exact among

/-! ## All tables of an artifact -/

theorem adds_of_registerNew {n : Nat} (taken : (r.registerNew ts).1 = .ok n) :
    ∃ added, added.length = n ∧ r.Adds ts added (r.registerNew ts).2 := by
  induction ts generalizing r n with
  | nil =>
    cases taken
    exact ⟨[], rfl, .nil r⟩
  | cons t ts ih =>
    rw [registerNew] at taken ⊢
    split at taken
    · rename_i known
      rw [if_pos known]
      obtain ⟨added, count, adds⟩ := ih taken
      exact ⟨added, count, adds.pass known⟩
    · rename_i unknown
      rw [if_neg unknown]
      cases registered : r.registerTable t with
      | error e =>
        rw [registered] at taken
        cases taken
      | ok p =>
        obtain ⟨c, r₁⟩ := p
        rw [registered] at taken
        obtain ⟨m, others, rfl⟩ := map_eq_ok_iff.1 taken
        rcases registerTable_eq_ok_iff.1 registered with ⟨known, -⟩ | ⟨admissible, new⟩
        · rw [contains, known] at unknown
          exact absurd rfl unknown
        · obtain ⟨added, rfl, adds⟩ := ih others
          have first : r₁ = (r.add t).2 := (congrArg Prod.snd new).symm
          rw [first] at adds ⊢
          exact ⟨_ :: added, rfl, adds.add admissible⟩

/-! ## Main theorem -/

/-- Let an artifact be registered with success, with whatever is registered already. If its guard is known,
nothing is counted and nothing changes. Otherwise its guard is registered then, and classes are added, as
many as are counted. Their names are those of the tables that were unknown, each once, and what was known
stays. Each is the class of the first table of its name. It is linked if it declares a base that was known
before the call or is the name of an earlier table, and then to the class of that name. -/
theorem registered_artifact_adds_unknown_classes (r : Registry) (a : Artifact) (n : Nat)
    (taken : (r.registerArtifact a).1 = .ok n) :
    let r' := (r.registerArtifact a).2
    (a.guard ∈ r.guards → n = 0 ∧ r' = r) ∧
    (a.guard ∉ r.guards → r'.guards = a.guard :: r.guards ∧
      ∃ added, added.length = n ∧ r'.classes = r.classes ++ added ∧ (added.map (·.name)).Nodup ∧
        (∀ name, name ∈ added.map (·.name) ↔ r.get? name = none ∧ name ∈ a.classes.map (·.name)) ∧
        ∀ c ∈ added, r'.get? c.name = some c ∧
          ∃ before after, a.classes = before ++ c.table :: after ∧ c.name ∉ before.map (·.name) ∧
            ∀ p, c.parent? = some p ↔
              ∃ b, c.superName? = some b ∧ r'.get? b = some p ∧
                (r.contains b ∨ b ∈ before.map (·.name))) := by
  intro r'
  have checked : r.checkArtifact a = .ok () := by
    cases checked : r.checkArtifact a with
    | ok _ => rfl
    | error e =>
      rw [registerArtifact_of_error checked] at taken
      cases taken
  constructor
  · intro known
    have same := registerArtifact_of_mem checked known
    rw [same] at taken
    exact ⟨(Except.ok.inj taken).symm, congrArg Prod.snd same⟩
  · intro fresh
    let guarded : Registry := { r with guards := a.guard :: r.guards }
    have registered : r.registerArtifact a = guarded.registerNew a.classes :=
      registerArtifact_of_not_mem checked fresh
    rw [registered] at taken
    obtain ⟨added, count, adds⟩ := adds_of_registerNew taken
    have there : r' = (guarded.registerNew a.classes).2 := congrArg Prod.snd registered
    rw [← there] at adds
    refine ⟨by rw [adds.whole], added, count, by rw [adds.whole], adds.nodup, adds.names, fun c hc => ?_⟩
    obtain ⟨before, after, split, made⟩ := adds.made c hc
    exact ⟨adds.get?_name hc, before, after, split, made.first, made.linked⟩

/-- The class `A` is known, and an artifact declares `C` before its base `B`, then `B` from `A`, then `A`
anew and `C` anew. Two classes are added: `C`, which stays without a class above it, and `B`, which is
linked to the `A` that was known. -/
theorem known_and_repeated_names_are_passed_over :
    let r := ({} : Registry).run [.table (bareTable "A" none)]
    let a := Artifact.ofTables "s.h" "G"
      [bareTable "C" (some "B"), bareTable "B" (some "A"), bareTable "A" (some "D"), bareTable "C" none]
    let r' := (r.registerArtifact a).2
    (r.registerArtifact a).1 = .ok 2 ∧
      r'.classes.map (fun c => (c.name, c.parent?.map (·.name))) =
        [("A", none), ("C", none), ("B", some "A")] ∧
      ∃ added, added.length = 2 ∧ r'.classes = r.classes ++ added := by
  intro r a r'
  have taken : (r.registerArtifact a).1 = .ok 2 := by decide
  obtain ⟨-, new⟩ := registered_artifact_adds_unknown_classes r a 2 taken
  obtain ⟨-, added, count, whole, -⟩ := new (by decide)
  exact ⟨taken, by decide, added, count, whole⟩

end Reflection.Registry

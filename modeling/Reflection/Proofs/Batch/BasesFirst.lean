import Reflection.Proofs.Batch.FileOrder
import Reflection.Proofs.Batch.Loading
/-!
# Bases first in an artifact

The classes of a batch are ordered by number, but a table declares its base by name. A table may so stand
before one whose name it declares in two ways only (`Mistaken`): its first base stands for the first class
of that name and the other table belongs to a class that repeats it, or its first base stands for no class
and more than one double colon was taken from its front. Where a file gives no cause for either
(`OwnNames`), its artifact has bases first, and registering it alone links each class to its declared base
if the artifact has one of that name (`artifact_has_bases_first`).
-/

namespace Reflection

open Relation (TransGen)

/-! ## Tables with bases first -/

namespace Registry

/-- No table stands before one whose name it declares as its base. -/
def BasesFirst (ts : List ClassTable) : Prop :=
  ts.Pairwise fun t u => t.superName? ≠ some u.name

variable {ts front back : List ClassTable} {t u : ClassTable}

/-- A declared base that is among the tables stands in front. -/
theorem BasesFirst.mem_front (h : BasesFirst (front ++ t :: back)) (own : t.superName? ≠ some t.name)
    (hu : u ∈ front ++ t :: back) (base : t.superName? = some u.name) : u ∈ front := by
  rcases List.mem_append.1 hu with before | here
  · exact before
  · rcases List.mem_cons.1 here with rfl | after
    · exact absurd base own
    · exact absurd base ((List.pairwise_cons.1 (List.pairwise_append.1 h).2.1).1 u after)

/-- The names of declared bases lead to the front. -/
theorem BasesFirst.idxOf_lt (h : BasesFirst ts) (own : ∀ t ∈ ts, t.superName? ≠ some t.name)
    (names : (ts.map (·.name)).Nodup) {a b : String} (derives : DeclaredIn ts a b)
    (there : b ∈ ts.map (·.name)) : (ts.map (·.name)).idxOf b < (ts.map (·.name)).idxOf a := by
  obtain ⟨t, ht, rfl, base⟩ := derives
  obtain ⟨u, hu, rfl⟩ := List.mem_map.1 there
  obtain ⟨front, back, rfl⟩ := List.append_of_mem ht
  have before : u.name ∈ front.map (·.name) := List.mem_map_of_mem (h.mem_front (own t ht) hu base)
  rw [List.map_append, List.map_cons] at names ⊢
  have fresh : t.name ∉ front.map (·.name) := fun again =>
    (List.nodup_append.1 names).2.2 _ again _ List.mem_cons_self rfl
  rw [List.idxOf_append_of_mem before, List.idxOf_append_of_notMem fresh, List.idxOf_cons_self, Nat.add_zero]
  exact List.idxOf_lt_length_of_mem before

/-- Where bases come first, they do not run in a circle. -/
theorem BasesFirst.acyclic (h : BasesFirst ts) (own : ∀ t ∈ ts, t.superName? ≠ some t.name)
    (names : (ts.map (·.name)).Nodup) (name : String) : ¬ TransGen (DeclaredIn ts) name name := by
  have declares : ∀ {a b}, DeclaredIn ts a b → a ∈ ts.map (·.name) := by
    rintro _ b ⟨t, ht, rfl, -⟩
    exact List.mem_map_of_mem ht
  have descends : ∀ {a b}, TransGen (DeclaredIn ts) a b → b ∈ ts.map (·.name) →
      (ts.map (·.name)).idxOf b < (ts.map (·.name)).idxOf a := by
    intro a b chain there
    induction chain with
    | single step => exact h.idxOf_lt own names step there
    | tail _ step ih => exact Nat.lt_trans (h.idxOf_lt own names step there) (ih (declares step))
  intro circle
  obtain ⟨b, first, -⟩ := TransGen.head'_iff.1 circle
  exact Nat.lt_irrefl _ (descends circle (declares first))

end Registry

/-! ## Names and numbers -/

namespace ClassIndex

variable {x : ClassIndex} {order : List Nat} {file i j k : Nat}

/-- The table of class `i` declares the name of class `j` as its base, but `j` is none of its bases. -/
inductive Mistaken (x : ClassIndex) (i j : Nat) : Prop
  /-- The first base stands for the first class of the name, which `j` repeats. -/
  | repeated (d : ClassDeclaration) (k : Nat) (here : x.get? i = some d) (first : x.firstBase? d = some k)
      (earlier : k < j) (name : x.nameOf k = x.nameOf j)
  /-- The first base stands for no class, and more than one double colon was taken from its front. -/
  | stripped (d : ClassDeclaration) (base : String) (here : x.get? i = some d)
      (first : d.bases.head? = some base) (unknown : x.resolve? d base = none)
      (colons : "::::".toList <+: base.toList)

/-- No class of a file has the name of an earlier class of the batch, and no first base of one is written
with more than one double colon in front. -/
structure OwnNames (x : ClassIndex) (file : Nat) : Prop where
  new : ∀ i < x.size, x.fileOf? i = some file → x.find? (x.nameOf i) = some i
  plain : ∀ e ∈ x.entries, e.file = file → ∀ base ∈ e.declaration.bases.head?,
    ¬ "::::".toList <+: base.toList

/-- The class that is found under a name is the first one that has it. -/
theorem le_of_find? {name : String} (found : x.find? name = some k) (hj : j < x.size)
    (same : x.nameOf j = name) : k ≤ j := by
  obtain ⟨_, _, fresh⟩ := List.findIdx?_eq_some_iff_getElem.1 found
  by_contra earlier
  rw [nameOf_eq (List.getElem?_eq_getElem hj)] at same
  exact fresh j (Nat.lt_of_not_le earlier) (decide_eq_true same)

/-- A class whose name is declared as a base is one of the bases, or the name is mistaken. -/
theorem mem_basesOf_or_mistaken {e : IndexedClass} (he : x.entries[i]? = some e) (hj : j < x.size)
    (named : x.superName? e.declaration = some (x.nameOf j)) : j ∈ x.basesOf i ∨ x.Mistaken i j := by
  have here : x.get? i = some e.declaration := by rw [get?, he]; rfl
  obtain ⟨base, head, named⟩ := Option.map_eq_some_iff.1 named
  cases found : x.resolve? e.declaration base with
  | some k =>
    have first : x.firstBase? e.declaration = some k := by rw [firstBase?, head]; exact found
    simp only [found] at named
    obtain ⟨name, -, known⟩ := resolve?_eq_some_iff.1 found
    have le := le_of_find? known hj (named.symm.trans (nameOf_of_find? known))
    rcases Nat.eq_or_lt_of_le le with rfl | earlier
    · exact .inl (mem_basesOf_of_firstBase? he first)
    · exact .inr (.repeated e.declaration k here first earlier named)
  | none =>
    simp only [found] at named
    refine .inr (.stripped e.declaration base here head found ?_)
    -- Otherwise the name has been looked up, and class `j` has it.
    by_contra plain
    have tried := dropGlobal_mem_candidates e.declaration.scope base plain
    obtain ⟨k, known⟩ := exists_find?_nameOf hj
    rw [← named] at known
    have unknown := List.findSome?_eq_none_iff.1 found _ tried
    rw [known] at unknown
    cases unknown

/-- In a file that repeats no name and strips no base, no name is mistaken. -/
theorem OwnNames.not_mistaken (own : x.OwnNames file) (hi : x.fileOf? i = some file) (hj : j < x.size)
    (there : x.fileOf? j = some file) : ¬ x.Mistaken i j := by
  rintro (⟨d, k, -, -, earlier, name⟩ | ⟨d, base, here, head, -, colons⟩)
  · have le := le_of_find? (own.new j hj there) (Nat.lt_trans earlier hj) name
    omega
  · obtain ⟨e, he, rfl⟩ := Option.map_eq_some_iff.1 here
    rw [fileOf?, he] at hi
    exact own.plain e (List.mem_of_getElem? he) (Option.some.inj hi) base head colons

theorem fileOf?_of_mem_numbersOf (h : i ∈ x.numbersOf order file) : x.fileOf? i = some file := by
  simpa using (List.mem_filter.1 h).2

end ClassIndex

namespace Batch

open Registry (BasesFirst Loadable)

variable {x : ClassIndex} {order : List Nat} {compiled : List CompiledFile} {k : Nat} {f : CompiledFile}
  {a : Artifact}

/-! ## One artifact -/

/-- One table comes from a class that mistakes the class of the other for its base, in the same file. -/
def Mistakes (x : ClassIndex) (file : Nat) (t u : ClassTable) : Prop :=
  ∃ i j, x.Compiles i t ∧ x.Compiles j u ∧ x.fileOf? i = some file ∧ x.fileOf? j = some file ∧ x.Mistaken i j

theorem pairwise_mistakes (ordered : x.order = .ok order)
    (tables : List.Forall₂ x.Compiles (x.numbersOf order k) a.classes) :
    a.classes.Pairwise fun t u => t.superName? = some u.name → Mistakes x k t u := by
  have sorted := (ClassIndex.placed_order ordered).1.sorted.filter (x.fileOf? · = some k)
  refine (pairwise_of_forall₂ tables sorted).imp ?_
  rintro t u ⟨i, j, hi, hj, made, made', apart⟩ base
  obtain ⟨e, he, ok⟩ := id made
  rw [ClassIndex.superName?_tableOf ok, made'.name] at base
  have mistaken := (ClassIndex.mem_basesOf_or_mistaken he made'.lt base).resolve_left apart
  exact ⟨i, j, made, made', ClassIndex.fileOf?_of_mem_numbersOf hi,
    ClassIndex.fileOf?_of_mem_numbersOf hj, mistaken⟩

theorem basesFirst_of_ownNames (ordered : x.order = .ok order)
    (tables : List.Forall₂ x.Compiles (x.numbersOf order k) a.classes) (own : x.OwnNames k) :
    BasesFirst a.classes := by
  refine (pairwise_mistakes ordered tables).imp fun {t u} mistakes base => ?_
  obtain ⟨i, j, -, made, hi, hj, mistaken⟩ := mistakes base
  exact own.not_mistaken hi made.lt hj mistaken

/-- A class that is found under its name does not name itself as its base. -/
theorem superName?_ne_name (ordered : x.order = .ok order)
    (tables : List.Forall₂ x.Compiles (x.numbersOf order k) a.classes) (own : x.OwnNames k) :
    ∀ t ∈ a.classes, t.superName? ≠ some t.name := by
  intro t ht base
  obtain ⟨i, hi, made⟩ := exists_left_of_mem tables t ht
  have here := ClassIndex.fileOf?_of_mem_numbersOf hi
  obtain ⟨e, he, ok⟩ := id made
  rw [ClassIndex.superName?_tableOf ok, made.name] at base
  have itself := (ClassIndex.mem_basesOf_or_mistaken he made.lt base).resolve_right
    (own.not_mistaken here made.lt here)
  exact (ClassIndex.placed_order ordered).1.acyclic (List.mem_filter.1 hi).1 (.single itself)

theorem names_nodup_of_ownNames (ordered : x.order = .ok order)
    (tables : List.Forall₂ x.Compiles (x.numbersOf order k) a.classes) (own : x.OwnNames k) :
    (a.classes.map (·.name)).Nodup := by
  have numbers := (ClassIndex.placed_order ordered).1.nodup.filter (x.fileOf? · = some k)
  rw [map_name_of_compiles tables]
  refine numbers.map_on fun i hi j hj same => ?_
  have found : ∀ l ∈ x.numbersOf order k, x.find? (x.nameOf l) = some l := by
    intro l hl
    obtain ⟨t, -, made⟩ := exists_right_of_mem tables l hl
    exact own.new l made.lt (ClassIndex.fileOf?_of_mem_numbersOf hl)
  have first := found i hi
  rw [same, found j hj] at first
  exact (Option.some.inj first).symm

/-- The tables of such a file load, whatever else is in the batch. -/
theorem loadable_of_ownNames (ordered : x.order = .ok order)
    (tables : List.Forall₂ x.Compiles (x.numbersOf order k) a.classes) (own : x.OwnNames k)
    (fits : ∀ t ∈ a.classes, t.strings.length < 2 ^ 32) : Loadable a.classes := by
  have names := names_nodup_of_ownNames ordered tables own
  refine ⟨names, fun t ht => ?_, (basesFirst_of_ownNames ordered tables own).acyclic
    (superName?_ne_name ordered tables own) names⟩
  obtain ⟨i, -, e, -, made⟩ := exists_left_of_mem tables t ht
  have few := Nat.le_of_lt (fits t ht)
  exact ClassIndex.validate_tableOf made few (Nat.le_trans (ClassIndex.length_methods_le made few) few)

/-- An artifact of a batch: where a table stands before another one whose name it declares as its base, the
name is mistaken. In the artifact of a file that repeats no name of the batch and strips no base this does
not happen. If no table of it has more strings than can be numbered, it can then be registered alone. This
adds a class for each table and links it to its declared base, if the artifact has one of that name, and
otherwise to none. -/
theorem artifact_has_bases_first (o : Options) (files : List SourceFile) (compiled : List CompiledFile)
    (ok : compile o files = .ok compiled) (k : Nat) (f : CompiledFile) (a : Artifact)
    (there : compiled[k]? = some f) (result : f.result = .ok a) :
    (a.classes.Pairwise fun t u => t.superName? = some u.name → Mistakes (indexOf files) k t u) ∧
    ((indexOf files).OwnNames k → BasesFirst a.classes ∧
      ((∀ t ∈ a.classes, t.strings.length < 2 ^ 32) →
        let registered := ({} : Registry).registerArtifact a
        registered.1 = .ok a.classes.length ∧
        ∀ t ∈ a.classes, ∃ c, registered.2.get? t.name = some c ∧ c.table = t ∧
          ∀ p, c.parent? = some p ↔
            ∃ u ∈ a.classes, t.superName? = some u.name ∧ registered.2.get? u.name = some p)) := by
  obtain ⟨order, ordered, tabulates⟩ := compileAs_eq_ok ok
  obtain ⟨version, tables⟩ := tabulates k f a there result
  rw [Nat.zero_add] at tables
  refine ⟨pairwise_mistakes ordered tables, fun own => ?_⟩
  have first := basesFirst_of_ownNames ordered tables own
  refine ⟨first, fun fits => ?_⟩
  have loadable := loadable_of_ownNames ordered tables own fits
  have registered : ({} : Registry).registerArtifact a = _ :=
    Registry.registerArtifact_of_loadable version List.not_mem_nil loadable
  rw [registered]
  refine ⟨rfl, fun t ht => ?_⟩
  obtain ⟨front, back, split⟩ := List.append_of_mem ht
  have names := loadable.names_nodup
  rw [split] at names
  obtain ⟨c, known, table, parent⟩ := Registry.linked_addAll (r := {}) names
  rw [← split] at known parent
  refine ⟨c, known, table, fun p => (parent p).trans ?_⟩
  constructor
  · rintro ⟨u, hu, base, above⟩
    exact ⟨u, split ▸ List.mem_append_left _ hu, base, above⟩
  · rintro ⟨u, hu, base, above⟩
    rw [split] at first hu
    exact ⟨u, first.mem_front (superName?_ne_name ordered tables own t ht) hu base, base, above⟩

/-- Declares a class after the one that derives from it. -/
def towerAndBell : SourceFile :=
  ⟨"tower.h", "class Tower : Bell { H_OBJECT }; class Bell { H_OBJECT };"⟩

/-- On its own the file has its base first, so `Tower` is linked to `Bell`. -/
theorem tower_is_linked_to_own_bell :
    ∃ compiled f a, compile {} [towerAndBell] = .ok compiled ∧ compiled[0]? = some f ∧ f.result = .ok a ∧
      a.classes.map (·.name) = ["Bell", "Tower"] ∧ BasesFirst a.classes ∧
      (({} : Registry).registerArtifact a).1 = .ok 2 := by
  have made : (compile {} [towerAndBell]).map (fun compiled => compiled.map fun f => f.result.toOption.map
      fun a => a.classes.map fun t => (t.name, t.strings.length)) =
        .ok [some [("Bell", 1), ("Tower", 2)]] := by
    decide +kernel
  have own : (indexOf [towerAndBell]).OwnNames 0 := by
    refine ⟨?_, ?_⟩ <;> decide +kernel
  obtain ⟨compiled, ok, made⟩ := map_eq_ok_iff.1 made
  obtain ⟨f, _, rfl, made, rest⟩ := List.map_eq_cons_iff.1 made
  obtain ⟨a, result, tables⟩ := Option.map_eq_some_iff.1 made
  have result := toOption_eq_some_iff.1 result
  have fits : ∀ t ∈ a.classes, t.strings.length < 2 ^ 32 := by
    intro t ht
    have small : ∀ p ∈ a.classes.map (fun t => (t.name, t.strings.length)), p.2 < 2 ^ 32 := by
      rw [tables]
      decide
    exact small _ (List.mem_map_of_mem ht)
  have names : a.classes.map (·.name) = ["Bell", "Tower"] := by
    have names := congrArg (List.map Prod.fst) tables
    rwa [List.map_map] at names
  have length : a.classes.length = 2 := by simpa using congrArg List.length tables
  obtain ⟨first, alone⟩ := (artifact_has_bases_first {} _ _ ok 0 f a rfl result).2 own
  obtain ⟨added, -⟩ := alone fits
  rw [length] at added
  exact ⟨_, f, a, ok, rfl, result, names, first, added⟩

/-- Behind another file that declares `Bell` too, `Tower` derives from that one, and stands before the own
class of the file. Registered alone, the artifact leaves `Tower` without its base. -/
theorem tower_stands_before_own_bell :
    ∃ compiled a, compile {} [⟨"bell.h", "class Bell { H_OBJECT };"⟩, towerAndBell] = .ok compiled ∧
      a ∈ artifactsOf compiled ∧ a.classes.map (fun t => (t.name, t.superName?)) =
        [("Tower", some "Bell"), ("Bell", none)] ∧
      ¬ BasesFirst a.classes ∧
      (({} : Registry).registerArtifact a).1 = .ok 2 ∧
      ∃ c, (({} : Registry).registerArtifact a).2.get? "Tower" = some c ∧ c.parent? = none := by
  have made : (compile {} [⟨"bell.h", "class Bell { H_OBJECT };"⟩, towerAndBell]).map (fun compiled =>
      (artifactsOf compiled)[1]?.map fun a => (a.classes.map (fun t => (t.name, t.superName?)),
        (({} : Registry).registerArtifact a).1.toOption,
        ((({} : Registry).registerArtifact a).2.get? "Tower").map (·.parent?.isNone))) =
      .ok (some ([("Tower", some "Bell"), ("Bell", none)], some 2, some true)) := by
    decide +kernel
  obtain ⟨compiled, ok, made⟩ := map_eq_ok_iff.1 made
  obtain ⟨a, there, made⟩ := Option.map_eq_some_iff.1 made
  simp only [Prod.mk.injEq] at made
  obtain ⟨tables, added, above⟩ := made
  obtain ⟨c, known, root⟩ := Option.map_eq_some_iff.1 above
  refine ⟨compiled, a, ok, List.mem_of_getElem? there, tables, ?_, toOption_eq_some_iff.1 added, c, known,
    Option.isNone_iff_eq_none.1 root⟩
  intro first
  obtain ⟨t, _, split, ht, rest⟩ := List.map_eq_cons_iff.1 tables
  obtain ⟨u, _, rfl, hu, -⟩ := List.map_eq_cons_iff.1 rest
  simp only [Prod.mk.injEq] at ht hu
  rw [split] at first
  apply (List.pairwise_cons.1 first).1 u List.mem_cons_self
  rw [ht.2, hu.1]

end Batch
end Reflection

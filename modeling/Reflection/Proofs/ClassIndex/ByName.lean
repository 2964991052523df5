import Mathlib.Data.List.Nodup
import Mathlib.Data.List.Perm.Basic
import Reflection.ClassIndex.Tables
import Reflection.Proofs.ClassIndex.Order
/-!
# Classes by name

The numbers of classes are a matter of the order of the files. What a batch says about a class depends
only on which class it finds under which name (`byName?`): batches of one size that agree on that give
the same table to a class (`Agrees.tableOf`), and have an order or have none together
(`Agrees.exists_order_iff`).
-/

namespace Reflection.ClassIndex

open Relation (TransGen)

variable {x y : ClassIndex} {d : ClassDeclaration} {name base : String} {i j n : Nat}

/-! ## Names instead of numbers -/

theorem declarations_entriesOf (first : Nat) (files : List (List ClassDeclaration)) :
    (entriesOf first files).map (·.declaration) = files.flatten := by
  induction files generalizing first with
  | nil => rfl
  | cons classes files ih => simp [entriesOf, ih, Function.comp_def]

/-- The first class with a name. -/
def byName? (x : ClassIndex) (name : String) : Option ClassDeclaration :=
  (x.find? name).bind x.get?

theorem byName?_eq (x : ClassIndex) (name : String) :
    x.byName? name = (x.entries.map (·.declaration)).find? (·.name = name) := by
  unfold byName? find? get?
  rw [List.find?_map, Function.comp_def, List.find?_eq_bind_findIdx?_getElem?]
  cases x.entries.findIdx? (·.declaration.name = name) <;> rfl

/-- What is found under a name has it. -/
theorem nameOf_of_find? (h : x.find? name = some i) : x.nameOf i = name := by
  obtain ⟨lt, same, -⟩ := List.findIdx?_eq_some_iff_getElem.1 h
  rw [nameOf, get?, List.getElem?_eq_getElem lt]
  simpa using same

theorem exists_find?_of_byName? (h : x.byName? name = some d) :
    ∃ i, x.find? name = some i ∧ x.get? i = some d :=
  Option.bind_eq_some_iff.1 h

theorem exists_byName?_of_find? (h : x.find? name = some i) :
    ∃ d, x.get? i = some d ∧ x.byName? name = some d := by
  obtain ⟨lt, -, -⟩ := List.findIdx?_eq_some_iff_getElem.1 h
  have there : x.get? i = some x.entries[i].declaration := by
    rw [get?, List.getElem?_eq_getElem lt]
    rfl
  exact ⟨_, there, by rw [byName?, h]; exact there⟩

theorem isSome_find? (x : ClassIndex) (name : String) : (x.find? name).isSome = (x.byName? name).isSome := by
  cases found : x.find? name with
  | none => rw [byName?, found]; rfl
  | some i =>
    obtain ⟨d, -, known⟩ := exists_byName?_of_find? found
    rw [known]
    rfl

/-- The name of the class that a base written in a class stands for. -/
def baseName? (x : ClassIndex) (d : ClassDeclaration) (base : String) : Option String :=
  (candidates d.scope base).find? fun name => (x.byName? name).isSome

theorem resolve?_eq (x : ClassIndex) (d : ClassDeclaration) (base : String) :
    x.resolve? d base = (x.baseName? d base).bind x.find? := by
  unfold resolve? baseName?
  induction candidates d.scope base with
  | nil => rfl
  | cons name names ih =>
    rw [List.findSome?_cons, List.find?_cons, ← isSome_find?]
    cases found : x.find? name with
    | none => exact ih
    | some i => exact found.symm

/-- A base that stands for a class is found under the name of that class. -/
theorem resolve?_eq_some_iff :
    x.resolve? d base = some i ↔ ∃ name, x.baseName? d base = some name ∧ x.find? name = some i := by
  rw [resolve?_eq, Option.bind_eq_some_iff]

theorem exists_find?_of_baseName? (h : x.baseName? d base = some name) : ∃ i, x.find? name = some i := by
  have known := List.find?_some h
  exact Option.isSome_iff_exists.1 (by rwa [isSome_find?])

theorem superName?_eq (x : ClassIndex) (d : ClassDeclaration) :
    x.superName? d = d.bases.head?.map fun base =>
      (x.baseName? d base).getD (String.ofList (dropGlobal base.toList)) := by
  unfold superName?
  congr 1
  funext base
  rw [resolve?_eq]
  cases named : x.baseName? d base with
  | none => rfl
  | some name =>
    obtain ⟨i, found⟩ := exists_find?_of_baseName? named
    rw [Option.bind_some, found]
    exact nameOf_of_find? found

/-- The name of the class that the first base of a class stands for. -/
def firstName? (x : ClassIndex) (d : ClassDeclaration) : Option String :=
  d.bases.head?.bind (x.baseName? d)

theorem firstBase?_eq (x : ClassIndex) (d : ClassDeclaration) :
    x.firstBase? d = (x.firstName? d).bind x.find? := by
  unfold firstBase? firstName?
  rw [Option.bind_assoc]
  congr 1
  funext base
  exact x.resolve?_eq d base

theorem exists_find?_of_firstName? (h : x.firstName? d = some name) : ∃ i, x.find? name = some i := by
  obtain ⟨base, -, named⟩ := Option.bind_eq_some_iff.1 h
  exact exists_find?_of_baseName? named

/-! ## Batches that agree -/

/-- Two batches of one size find the same class under each name. -/
structure Agrees (x y : ClassIndex) : Prop where
  size : x.size = y.size
  byName : ∀ name, x.byName? name = y.byName? name

theorem agrees_of_eq (same : x.entries.map (·.declaration) = y.entries.map (·.declaration)) : x.Agrees y := by
  constructor
  · simpa [size] using congrArg List.length same
  · intro name
    rw [byName?_eq, byName?_eq, same]

/-- Where names differ, the order of the classes does not matter. -/
theorem agrees_of_perm (perm : (x.entries.map (·.declaration)).Perm (y.entries.map (·.declaration)))
    (names : (x.entries.map (·.declaration.name)).Nodup) : x.Agrees y := by
  constructor
  · simpa [size] using perm.length_eq
  · intro name
    rw [byName?_eq, byName?_eq]
    have nodup : ((x.entries.map (·.declaration)).map (·.name)).Nodup := by
      rwa [List.map_map, Function.comp_def]
    -- A class is found just if it is there, as no other one has its name.
    have found : ∀ {ds : List ClassDeclaration}, (ds.map (·.name)).Nodup → ∀ d,
        ds.find? (·.name = name) = some d ↔ d ∈ ds ∧ d.name = name := by
      intro ds nodup d
      refine ⟨fun h => ⟨List.mem_of_find?_eq_some h, by simpa using List.find?_some h⟩, ?_⟩
      rintro ⟨mem, rfl⟩
      obtain ⟨d', h⟩ := Option.isSome_iff_exists.1
        (List.find?_isSome (p := (·.name = d.name)).2 ⟨d, mem, by simp⟩)
      rw [h, List.inj_on_of_nodup_map nodup (List.mem_of_find?_eq_some h) mem (by simpa using List.find?_some h)]
    have nodup' := (perm.map _).nodup_iff.1 nodup
    exact Option.ext fun d => by rw [found nodup, found nodup', perm.mem_iff]

namespace Agrees

theorem baseName? (h : x.Agrees y) (d : ClassDeclaration) (base : String) :
    x.baseName? d base = y.baseName? d base := by
  unfold ClassIndex.baseName?
  congr 1
  funext name
  rw [h.byName]

theorem superName? (h : x.Agrees y) (d : ClassDeclaration) : x.superName? d = y.superName? d := by
  rw [superName?_eq, superName?_eq]
  congr 1
  funext base
  rw [h.baseName?]

theorem firstName? (h : x.Agrees y) (d : ClassDeclaration) : x.firstName? d = y.firstName? d := by
  unfold ClassIndex.firstName?
  congr 1
  funext base
  exact h.baseName? d base

/-- A class has one number in each batch. -/
theorem exists_numbers (h : x.Agrees y) (known : x.find? name = some i) :
    ∃ j d, y.find? name = some j ∧ x.get? i = some d ∧ y.get? j = some d := by
  obtain ⟨d, here, named⟩ := exists_byName?_of_find? known
  rw [h.byName] at named
  obtain ⟨j, known', there⟩ := exists_find?_of_byName? named
  exact ⟨j, d, known', here, there⟩

/-- The classes along first bases are the same ones, whatever their numbers. -/
theorem any_ancestorsFrom (h : x.Agrees y) (p : Option ClassDeclaration → Bool) {seen seen' : List Nat}
    (same : ∀ name i j, x.find? name = some i → y.find? name = some j → (i ∈ seen ↔ j ∈ seen')) :
    (x.ancestorsFrom n seen d).any (fun i => p (x.get? i)) =
      (y.ancestorsFrom n seen' d).any (fun j => p (y.get? j)) := by
  induction n generalizing seen seen' d with
  | zero => rfl
  | succ n ih =>
    unfold ancestorsFrom
    rw [firstBase?_eq, firstBase?_eq, ← h.firstName? d]
    cases first : x.firstName? d with
    | none => rfl
    | some name =>
      obtain ⟨i, known⟩ := exists_find?_of_firstName? first
      obtain ⟨j, base, known', here, there⟩ := h.exists_numbers known
      have both : seen.contains i = seen'.contains j := by
        rw [Bool.eq_iff_iff, List.contains_iff_mem, List.contains_iff_mem]
        exact same name i j known known'
      simp only [Option.bind_some, known, known', both, here, there]
      split
      · rfl
      · rw [List.any_cons, List.any_cons, here, there]
        congr 1
        apply ih
        intro name' i' j' known₁ known₂
        -- The new number stands for the same name in both.
        have new : i' = i ↔ j' = j := by
          constructor
          · rintro rfl
            obtain rfl : name = name' := (nameOf_of_find? known).symm.trans (nameOf_of_find? known₁)
            exact Option.some.inj (known₂.symm.trans known')
          · rintro rfl
            obtain rfl : name = name' := (nameOf_of_find? known').symm.trans (nameOf_of_find? known₂)
            exact Option.some.inj (known₁.symm.trans known)
        rw [List.mem_cons, List.mem_cons, new, same name' i' j' known₁ known₂]

theorem inheritsSignal (h : x.Agrees y) (d : ClassDeclaration) (name : String) :
    x.inheritsSignal d name = y.inheritsSignal d name := by
  have this := h.byName d.name
  unfold byName? at this
  unfold ClassIndex.inheritsSignal ancestors
  rw [this, h.size]
  cases (y.find? d.name).bind y.get? with
  | none => rfl
  | some self =>
    exact h.any_ancestorsFrom (·.any fun a => (a.signal? name).isSome) fun _ _ _ _ _ =>
      iff_of_false List.not_mem_nil List.not_mem_nil

/-- A class has the same table in both. -/
theorem tableOf (h : x.Agrees y) (d : ClassDeclaration) : x.tableOf d = y.tableOf d := by
  have notify : x.notifyIndex? = y.notifyIndex? := by
    funext b d p
    unfold notifyIndex?
    cases p.notify with
    | none => rfl
    | some name =>
      dsimp only
      rw [h.inheritsSignal]
  have property : x.addProperty = y.addProperty := by
    funext d b p
    unfold addProperty
    rw [notify]
  unfold ClassIndex.tableOf
  rw [h.superName?, property]

end Agrees

/-! ## Orders -/

/-- Numbers, names and bases of classes do not depend on their files. -/
theorem order_congr (same : x.entries.map (·.declaration) = y.entries.map (·.declaration)) :
    x.order = y.order := by
  have get (i : Nat) : x.get? i = y.get? i := by
    rw [get?, get?, ← List.getElem?_map, ← List.getElem?_map, same]
  have find (name : String) : x.find? name = y.find? name := by
    have found : ∀ z : ClassIndex, z.find? name =
        (z.entries.map (·.declaration)).findIdx? (·.name = name) := fun z => by
      rw [List.findIdx?_map]
      rfl
    rw [found, found, same]
  have bases : x.basesOf = y.basesOf := by
    funext i
    unfold basesOf resolve?
    rw [get, funext find]
  have names : x.nameOf = y.nameOf := by
    funext i
    unfold nameOf
    rw [get]
  have length : x.size = y.size := by simpa [size] using congrArg List.length same
  unfold order
  rw [bases, names, length]

/-- A name stands for a class that has a base which stands for a class of the other name. -/
def DerivesByName (x : ClassIndex) (a b : String) : Prop :=
  ∃ d, x.byName? a = some d ∧ ∃ base ∈ d.bases, x.baseName? d base = some b

theorem Agrees.derivesByName (h : x.Agrees y) : x.DerivesByName = y.DerivesByName := by
  funext a b
  unfold DerivesByName
  simp only [h.byName, h.baseName?]

/-- From a class that is found under its name, bases lead as names do. -/
theorem transGen_names (known : x.find? (x.nameOf i) = some i)
    (chain : TransGen (fun i j => j ∈ x.basesOf i) i j) :
    TransGen x.DerivesByName (x.nameOf i) (x.nameOf j) ∧ x.find? (x.nameOf j) = some j := by
  have step : ∀ {i j : Nat}, x.find? (x.nameOf i) = some i → j ∈ x.basesOf i →
      x.DerivesByName (x.nameOf i) (x.nameOf j) ∧ x.find? (x.nameOf j) = some j := by
    intro i j known derives
    obtain ⟨d, here, base, mem, found⟩ := mem_basesOf_iff.1 derives
    obtain ⟨name, named, found⟩ := resolve?_eq_some_iff.1 found
    obtain rfl := nameOf_of_find? found
    exact ⟨⟨d, by rw [byName?, known]; exact here, base, mem, named⟩, found⟩
  induction chain with
  | single derives => exact (step known derives).imp_left .single
  | tail _ derives ih => exact (step ih.2 derives).imp_left ih.1.tail

/-- Where names lead, bases do. -/
theorem transGen_numbers {a b : String} (chain : TransGen x.DerivesByName a b) (known : x.find? a = some i) :
    ∃ j, x.find? b = some j ∧ TransGen (fun i j => j ∈ x.basesOf i) i j := by
  have step : ∀ {a b : String} {i : Nat}, x.DerivesByName a b → x.find? a = some i →
      ∃ j, x.find? b = some j ∧ j ∈ x.basesOf i := by
    rintro a b i ⟨d, named, base, mem, found⟩ known
    obtain ⟨j, there⟩ := exists_find?_of_baseName? found
    rw [byName?, known] at named
    exact ⟨j, there, mem_basesOf_iff.2 ⟨d, named, base, mem, resolve?_eq_some_iff.2 ⟨b, found, there⟩⟩⟩
  induction chain with
  | single derives =>
    obtain ⟨j, there, derives⟩ := step derives known
    exact ⟨j, there, .single derives⟩
  | tail _ derives ih =>
    obtain ⟨j, there, chain⟩ := ih
    obtain ⟨k, there, derives⟩ := step derives there
    exact ⟨k, there, chain.tail derives⟩

/-- A batch has an order just if no name leads back to itself. -/
theorem exists_order_iff (x : ClassIndex) : (∃ l, x.order = .ok l) ↔ ∀ a, ¬ TransGen x.DerivesByName a a := by
  constructor
  · rintro ⟨l, ok⟩ a circle
    obtain ⟨placed, perm⟩ := placed_order ok
    obtain ⟨b, ⟨d, named, -⟩, -⟩ := TransGen.head'_iff.1 circle
    obtain ⟨i, known, here⟩ := exists_find?_of_byName? named
    obtain ⟨j, known', circle⟩ := transGen_numbers circle known
    obtain rfl : i = j := Option.some.inj (known.symm.trans known')
    exact placed.acyclic (perm.mem_iff.2 (List.mem_range.2 (lt_of_get? here))) circle
  · intro acyclic
    cases ok : x.order with
    | ok l => exact ⟨l, rfl⟩
    | error c =>
      obtain ⟨cycle, -, circle⟩ := circle_order ok
      obtain ⟨i, circle⟩ := circle.transGen
      -- The class is a base of the one before it in the circle, so it is found under its name.
      obtain ⟨k, -, last⟩ := TransGen.tail'_iff.1 circle
      obtain ⟨d, -, base, -, found⟩ := mem_basesOf_iff.1 last
      obtain ⟨name, -, found⟩ := resolve?_eq_some_iff.1 found
      obtain rfl := nameOf_of_find? found
      exact absurd (transGen_names found circle).1 (acyclic _)

theorem Agrees.exists_order_iff (h : x.Agrees y) : (∃ l, x.order = .ok l) ↔ ∃ l, y.order = .ok l := by
  rw [x.exists_order_iff, y.exists_order_iff, h.derivesByName]

end Reflection.ClassIndex

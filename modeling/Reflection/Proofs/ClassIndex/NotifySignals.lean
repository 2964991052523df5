import Mathlib.Data.List.Perm.Subperm
import Reflection.Proofs.ClassIndex.Order
import Reflection.Proofs.ClassIndex.Tables
import Reflection.Proofs.Table.Interning
/-!
# Signals that tell of changes

A property may name a signal that tells of its changes. The signal is looked for in the class and then in
the classes along first bases. Without circles these are finitely many (`Line`, `line_ancestors`), and
they are the classes that first bases lead to (`Line.mem_iff`). In the table of the class, the place of
the signal is that of the method of its first declaration (`notify_signals_are_resolved`).
-/

namespace Reflection

open Relation (ReflTransGen TransGen)

/-- A class declares a signal of the name. -/
def ClassDeclaration.DeclaresSignal (d : ClassDeclaration) (name : String) : Prop :=
  ∃ f ∈ d.methods, f.kind = .signal ∧ f.name = name

theorem ClassDeclaration.isSome_signal?_iff {d : ClassDeclaration} {name : String} :
    (d.signal? name).isSome ↔ d.DeclaresSignal name := by
  simp [signal?, DeclaresSignal, List.find?_isSome]

namespace ClassIndex

variable {x : ClassIndex} {d base : ClassDeclaration} {t : ClassTable} {i j n : Nat} {seen is : List Nat}

/-! ## Classes along first bases -/

/-- The first base of a class stands for a class of the batch. -/
def FirstBase (x : ClassIndex) (i j : Nat) : Prop :=
  ∃ d, x.get? i = some d ∧ x.firstBase? d = some j

/-- First bases lead from a class through these classes, and then out of the batch. -/
inductive Line (x : ClassIndex) : ClassDeclaration → List Nat → Prop
  | done {d : ClassDeclaration} (out : x.firstBase? d = none) : Line x d []
  | next {d base : ClassDeclaration} {i : Nat} {is : List Nat} (first : x.firstBase? d = some i)
      (there : x.get? i = some base) (rest : Line x base is) : Line x d (i :: is)

theorem exists_get?_of_firstBase? (h : x.firstBase? d = some i) : ∃ base, x.get? i = some base := by
  obtain ⟨written, -, resolved⟩ := Option.bind_eq_some_iff.1 h
  obtain ⟨name, -, found⟩ := List.exists_of_findSome?_eq_some resolved
  have lt := lt_of_find? found
  exact ⟨_, by rw [get?, List.getElem?_eq_getElem lt]; rfl⟩

theorem derivesFrom_of_firstBase (h : x.FirstBase i j) : x.DerivesFrom i j := by
  obtain ⟨d, there, first⟩ := h
  obtain ⟨written, head, resolved⟩ := Option.bind_eq_some_iff.1 first
  exact ⟨d, there, written, List.mem_of_mem_head? head, resolved⟩

/-- The classes in a line are those that first bases lead to. -/
theorem Line.mem_iff (h : x.Line d is) (there : x.get? i = some d) :
    j ∈ is ↔ TransGen x.FirstBase i j := by
  induction h generalizing i with
  | done out =>
    refine iff_of_false List.not_mem_nil fun chain => ?_
    obtain ⟨k, ⟨d', there', first⟩, -⟩ := TransGen.head'_iff.1 chain
    rw [there, Option.some.injEq] at there'
    rw [there', first] at out
    cases out
  | @next d base k is first known _ ih =>
    have step : ∀ k', x.FirstBase i k' ↔ k' = k := by
      intro k'
      constructor
      · rintro ⟨d', there', first'⟩
        rw [there, Option.some.injEq] at there'
        rw [← there', first] at first'
        exact (Option.some.inj first').symm
      · rintro rfl
        exact ⟨d, there, first⟩
    have chain : TransGen x.FirstBase i j ↔ ReflTransGen x.FirstBase k j := by
      simp only [TransGen.head'_iff, step, exists_eq_left]
    rw [List.mem_cons, ih known, chain, Relation.reflTransGen_iff_eq_or_transGen]

/-- The walk along first bases is a whole line: no class comes twice, so its bound is not reached. -/
theorem line_ancestorsFrom (acyclic : ∀ i, ¬ TransGen x.DerivesFrom i i) (path : List Nat)
    (there : x.get? i = some d) (walked : ∀ j ∈ path, ReflTransGen x.DerivesFrom j i) (nodup : path.Nodup)
    (within : ∀ j ∈ path, j < x.size) (earlier : seen ⊆ path) (bound : x.size < n + path.length) :
    x.Line d (x.ancestorsFrom n seen d) := by
  induction n generalizing i d seen path with
  | zero =>
    have short : path.length ≤ (List.range x.size).length :=
      (List.subperm_of_subset nodup fun j hj => List.mem_range.2 (within j hj)).length_le
    rw [List.length_range] at short
    omega
  | succ n ih =>
    rw [ancestorsFrom]
    cases first : x.firstBase? d with
    | none => exact .done first
    | some j =>
      obtain ⟨base, known⟩ := exists_get?_of_firstBase? first
      have derives : x.DerivesFrom i j := derivesFrom_of_firstBase ⟨d, there, first⟩
      have new : j ∉ path := fun again => acyclic j (.tail' (walked j again) derives)
      have unseen : ¬ seen.contains j := fun again => new (earlier (List.contains_iff_mem.1 again))
      dsimp only
      rw [if_neg unseen, known]
      refine .next first known (ih (j :: path) known ?_ (List.nodup_cons.2 ⟨new, nodup⟩) ?_ ?_ ?_)
      · rw [List.forall_mem_cons]
        exact ⟨.refl, fun k hk => (walked k hk).tail derives⟩
      · exact List.forall_mem_cons.2 ⟨lt_of_get? known, within⟩
      · exact List.cons_subset_cons j earlier
      · rw [List.length_cons]
        omega

theorem line_ancestors (acyclic : ∀ i, ¬ TransGen x.DerivesFrom i i) (there : x.get? i = some d) :
    x.Line d (x.ancestors d) :=
  line_ancestorsFrom acyclic [i] there (by simp [ReflTransGen.refl]) (List.nodup_singleton i)
    (by simpa using lt_of_get? there) (List.nil_subset _) (Nat.lt_succ_self _)

/-- Where names differ, a class is found under its own. -/
theorem find?_name (names : (x.entries.map (·.declaration.name)).Nodup) (there : x.get? i = some d) :
    x.find? d.name = some i := by
  obtain ⟨e, known, rfl⟩ := Option.map_eq_some_iff.1 there
  obtain ⟨lt, rfl⟩ := List.getElem?_eq_some_iff.1 known
  rw [find?, List.findIdx?_eq_some_iff_getElem]
  refine ⟨lt, decide_eq_true rfl, fun j hj same => ?_⟩
  have apart := List.pairwise_iff_getElem.1 (List.pairwise_map.1 names) j i (hj.trans lt) lt hj
  exact apart (of_decide_eq_true same)

theorem inheritsSignal_iff (names : (x.entries.map (·.declaration.name)).Nodup)
    (acyclic : ∀ i, ¬ TransGen x.DerivesFrom i i) (there : x.get? i = some d) {name : String} :
    x.inheritsSignal d name = true ↔
      ∃ j a, TransGen x.FirstBase i j ∧ x.get? j = some a ∧ a.DeclaresSignal name := by
  have line := line_ancestors acyclic there
  rw [inheritsSignal, find?_name names there, Option.bind_some, there]
  simp only [List.any_eq_true, Option.any_eq_true, ClassDeclaration.isSome_signal?_iff, line.mem_iff there]
  exact ⟨fun ⟨j, chain, a, known, declares⟩ => ⟨j, a, chain, known, declares⟩,
    fun ⟨j, a, chain, known, declares⟩ => ⟨j, chain, a, known, declares⟩⟩

/-- A signal is declared in a class or in one that first bases lead to. -/
def KnowsSignal (x : ClassIndex) (i : Nat) (name : String) : Prop :=
  ∃ j a, ReflTransGen x.FirstBase i j ∧ x.get? j = some a ∧ a.DeclaresSignal name

theorem knowsSignal_iff (there : x.get? i = some d) {name : String} :
    x.KnowsSignal i name ↔ d.DeclaresSignal name ∨
      ∃ j a, TransGen x.FirstBase i j ∧ x.get? j = some a ∧ a.DeclaresSignal name := by
  simp only [KnowsSignal, Relation.reflTransGen_iff_eq_or_transGen]
  constructor
  · rintro ⟨j, a, rfl | chain, known, declares⟩
    · rw [there, Option.some.injEq] at known
      exact .inl (known ▸ declares)
    · exact .inr ⟨j, a, chain, known, declares⟩
  · rintro (declares | ⟨j, a, chain, known, declares⟩)
    · exact ⟨i, d, .inl rfl, there, declares⟩
    · exact ⟨j, a, .inr chain, known, declares⟩

/-- Looking for the signal of a property succeeds just if it is declared somewhere, and what it yields is
the place of the first declaration in the class itself, if there is one. -/
theorem notifyIndex?_eq (names : (x.entries.map (·.declaration.name)).Nodup)
    (acyclic : ∀ i, ¬ TransGen x.DerivesFrom i i) (there : x.get? i = some d) (b : TableBuilder)
    {p : PropertyDeclaration} {name : String} (notify : p.notify = some name) :
    (x.KnowsSignal i name → x.notifyIndex? b d p = .ok ((d.signal? name).bind fun f => b.findMethod? f.canonical)) ∧
    (¬ x.KnowsSignal i name → x.notifyIndex? b d p = .error ⟨p.line, .unknownNotifySignal name p.name d.name⟩) := by
  rw [knowsSignal_iff there, ← inheritsSignal_iff names acyclic there, ← ClassDeclaration.isSome_signal?_iff]
  unfold notifyIndex?
  rw [notify]
  dsimp only
  cases d.signal? name with
  | some f => simp
  | none => cases x.inheritsSignal d name <;> simp

/-! ## Places in the table -/

/-- The method is a signal of the name as it is declared, with all its parameters. -/
def isSignal (name : String) (m : MethodSpec) : Bool :=
  m.kind = .signal && !m.cloned && m.name = name

/-- The first declaration of a signal is found by its signature, at the place of the first signal of its
name. -/
theorem findIdx?_signal {ms : List MethodSpec} {isDeclared : String → Bool}
    (lists : Lists isDeclared d.functionsByKind ms) {name : String} {f : FunctionDeclaration}
    (first : d.signal? name = some f) :
    ∃ k, ms[k]? = some f.fullSpec ∧ ms.findIdx? (isSignal name) = some k ∧
      ms.findIdx? (·.signature.canonical = f.canonical) = some k := by
  -- Signals come first among the functions, and functions among what is not cloned.
  have found : ms.find? (isSignal name) = some f.fullSpec := by
    have own : ms.find? (isSignal name) =
        (ms.filter (!·.cloned)).find? fun m => m.kind = .signal && m.name = name := by
      rw [List.find?_filter]
      congr 1
      funext m
      cases cloned : m.cloned <;> simp [isSignal, cloned]
    have signals : (d.methods.filter (·.kind = .signal)).find?
        ((fun m : MethodSpec => m.kind = .signal && m.name = name) ∘ (·.fullSpec)) = some f := by
      rw [List.find?_filter, ← first]
      unfold ClassDeclaration.signal?
      congr 1
      funext g
      by_cases kind : g.kind = .signal <;>
        simp [FunctionDeclaration.fullSpec, FunctionDeclaration.spec, kind]
    rw [own, lists.functions, List.find?_map]
    unfold ClassDeclaration.functionsByKind
    rw [List.flatMap_cons, List.find?_append, signals, Option.some_or, Option.map_some]
  obtain ⟨isFirst, k, lt, there, before⟩ := List.find?_eq_some_iff_getElem.1 found
  refine ⟨k, List.getElem?_eq_some_iff.2 ⟨lt, there⟩, ?_, ?_⟩
  · rw [List.findIdx?_eq_some_iff_getElem]
    exact ⟨lt, there ▸ isFirst, fun j hj => by simpa using before j hj⟩
  · rw [List.findIdx?_eq_some_iff_getElem]
    refine ⟨lt, by rw [there]; exact decide_eq_true rfl, fun j hj same => ?_⟩
    have apart := List.pairwise_iff_getElem.1 (List.pairwise_map.1 lists.nodup) j k (hj.trans lt) lt hj
    rw [there] at apart
    exact apart (of_decide_eq_true same)

/-! ## The calls that make a table -/

open TableBuilder (run)

variable {className : String} {superName : Option String} {calls : List TableBuilder.Call} {b : TableBuilder}

/-- A property is added as it is declared, with the place that was found for its signal when those before
it were there. -/
def AddedFor (x : ClassIndex) (d : ClassDeclaration) (className : String) (superName : Option String)
    (calls : List TableBuilder.Call) (specs : List PropertySpec) (s : PropertySpec) (p : PropertyDeclaration) :
    Prop :=
  s.name = p.name ∧ s.type = p.type ∧ s.flags = p.flags ∧ ∃ earlier, earlier <+: specs ∧
    x.notifyIndex? (run className superName (calls ++ earlier.map .property)) d p = .ok s.notify

theorem run_of_foldlM_addProperty {ps : List PropertyDeclaration}
    (h : ps.foldlM (x.addProperty d) (run className superName calls) = .ok b) :
    ∃ specs : List PropertySpec, b = run className superName (calls ++ specs.map .property) ∧
      List.Forall₂ (x.AddedFor d className superName calls specs) specs ps := by
  induction ps generalizing calls with
  | nil => exact ⟨[], by simpa using (Except.ok.inj h).symm, .nil⟩
  | cons p ps ih =>
    rw [List.foldlM_cons] at h
    obtain ⟨b₁, added, h⟩ := bind_eq_ok_iff.1 h
    obtain ⟨notify, found, eq⟩ := bind_eq_ok_iff.1 added
    let s : PropertySpec := ⟨p.name, p.type, p.flags, notify⟩
    have first : b₁ = run className superName (calls ++ [.property s]) := by
      rw [TableBuilder.run_concat]
      exact (Except.ok.inj eq).symm
    rw [first] at h
    obtain ⟨specs, rfl, rest⟩ := ih h
    refine ⟨s :: specs, by rw [List.append_assoc]; rfl, .cons ?_ (rest.imp fun s' p' there => ?_)⟩
    · exact ⟨rfl, rfl, rfl, [], List.nil_prefix, by simpa using found⟩
    · obtain ⟨name, type, flags, earlier, front, found⟩ := there
      refine ⟨name, type, flags, s :: earlier, List.cons_prefix_cons.2 ⟨rfl, front⟩, ?_⟩
      rw [← found, List.append_assoc]
      rfl

theorem run_of_foldlM_addEnum {rs : List EnumRegistration}
    (h : rs.foldlM (addEnum d) (run className superName calls) = .ok b) :
    ∃ enums : List EnumSpec, b = run className superName (calls ++ enums.map .enumeration) := by
  induction rs generalizing calls with
  | nil => exact ⟨[], by simpa using (Except.ok.inj h).symm⟩
  | cons r rs ih =>
    rw [List.foldlM_cons] at h
    obtain ⟨b₁, added, h⟩ := bind_eq_ok_iff.1 h
    unfold addEnum at added
    split at added
    · rename_i e _
      let s : EnumSpec := ⟨e.name, r.isFlag, e.isScoped, e.keys⟩
      have first : b₁ = run className superName (calls ++ [.enumeration s]) := by
        rw [TableBuilder.run_concat]
        exact (Except.ok.inj added).symm
      rw [first] at h
      obtain ⟨enums, rfl⟩ := ih h
      exact ⟨s :: enums, by rw [List.append_assoc]; rfl⟩
    · cases added

/-- The calls that add the notes and methods of a class. -/
def methodCalls (d : ClassDeclaration) (ms : List MethodSpec) : List TableBuilder.Call :=
  d.classInfo.map .note ++ ms.map .method

theorem run_methodCalls (x : ClassIndex) (d : ClassDeclaration) (ms : List MethodSpec) :
    run d.name (x.superName? d) (methodCalls d ms) = ms.foldl TableBuilder.addMethod (x.notesOf d) := by
  rw [methodCalls, run, List.foldl_append, List.foldl_map, List.foldl_map]
  rfl

/-- The table of a class is made by calls: notes and methods first, then properties and enumerations. -/
theorem run_of_tableOf (h : x.tableOf d = .ok t) :
    ∃ (ms : List MethodSpec) (specs : List PropertySpec) (enums : List EnumSpec), d.methodSpecs = .ok ms ∧
      t = (run d.name (x.superName? d)
        (methodCalls d ms ++ specs.map .property ++ enums.map .enumeration)).table ∧
      List.Forall₂ (x.AddedFor d d.name (x.superName? d) (methodCalls d ms) specs) specs d.properties := by
  unfold tableOf at h
  obtain ⟨ms, specs, h⟩ := bind_eq_ok_iff.1 h
  obtain ⟨b₁, properties, h⟩ := bind_eq_ok_iff.1 h
  obtain ⟨b₂, enums, h⟩ := bind_eq_ok_iff.1 h
  have start := run_methodCalls x d ms
  unfold notesOf at start
  rw [← start] at properties
  obtain ⟨added, rfl, resolved⟩ := run_of_foldlM_addProperty properties
  obtain ⟨registered, rfl⟩ := run_of_foldlM_addEnum enums
  exact ⟨ms, added, registered, specs, (Except.ok.inj h).symm, resolved⟩

theorem methodsOf_methodCalls (d : ClassDeclaration) (ms : List MethodSpec) (specs : List PropertySpec)
    (enums : List EnumSpec) :
    TableBuilder.methodsOf (methodCalls d ms ++ specs.map .property ++ enums.map .enumeration) = ms := by
  simp [TableBuilder.methodsOf, methodCalls, List.filterMap_map]

theorem propertiesOf_methodCalls (d : ClassDeclaration) (ms : List MethodSpec) (specs : List PropertySpec)
    (enums : List EnumSpec) :
    TableBuilder.propertiesOf (methodCalls d ms ++ specs.map .property ++ enums.map .enumeration) = specs := by
  simp [TableBuilder.propertiesOf, methodCalls, List.filterMap_map]

/-- Distinct signatures are no more than there are strings. -/
theorem length_le_of_describes {strings : List String} {es : List MethodEntry} {ms : List MethodSpec}
    (h : List.Forall₂ (·.Describes strings ·) es ms) (nodup : (ms.map (·.signature.canonical)).Nodup) :
    ms.length ≤ strings.length := by
  have sub : ms.map (·.signature.canonical) ⊆ strings := by
    intro canonical mem
    obtain ⟨m, hm, rfl⟩ := List.mem_map.1 mem
    obtain ⟨n, there⟩ := List.getElem?_of_mem hm
    obtain ⟨e, -, describes⟩ := exists_getElem?_of_forall₂ h there
    exact List.mem_of_getElem? describes.signature
  have le := (List.subperm_of_subset nodup sub).length_le
  rwa [List.length_map] at le

/-- The entry of a property has the place at which the first declaration of its signal is found by its
signature. -/
theorem notify_of_tableOf (names : (x.entries.map (·.declaration.name)).Nodup)
    (acyclic : ∀ i, ¬ TransGen x.DerivesFrom i i) (there : x.get? i = some d) (h : x.tableOf d = .ok t)
    (fits : t.strings.length ≤ UInt32.size) :
    ∃ ms, List.Forall₂ (·.Describes t.strings ·) t.methods ms ∧
      Lists (d.methods.map (·.canonical)).contains d.functionsByKind ms ∧
      ∀ p name, d.properties[n]? = some p → p.notify = some name →
        x.KnowsSignal i name ∧ ∃ e, t.properties[n]? = some e ∧ Spells t.strings e.name p.name ∧
          e.notify = ((d.signal? name).bind fun f =>
            ms.findIdx? (·.signature.canonical = f.canonical)).map UInt32.ofNat := by
  obtain ⟨ms, specs, enums, listed, rfl, added⟩ := run_of_tableOf h
  have tells := TableBuilder.tells_run fits
  have lists : Lists (d.methods.map (·.canonical)).contains d.functionsByKind ms := by
    obtain ⟨ms', listed', -, lists⟩ | ⟨f, refused, -⟩ := d.methodSpecs_cases
    · cases listed.symm.trans listed'
      exact lists
    · cases listed.symm.trans refused
  have methods := tells.methods
  rw [methodsOf_methodCalls] at methods
  have properties := tells.properties
  rw [propertiesOf_methodCalls] at properties
  refine ⟨ms, methods, lists, fun p name declared notify => ?_⟩
  obtain ⟨s, added, same, -, -, earlier, ⟨later, rfl⟩, found⟩ := exists_getElem?_of_forall₂ added declared
  obtain ⟨e, entry, describes⟩ := exists_getElem?_of_forall₂ properties added
  obtain ⟨resolves, refuses⟩ := notifyIndex?_eq names acyclic there
    (run d.name (x.superName? d) (methodCalls d ms ++ earlier.map .property)) notify
  by_cases known : x.KnowsSignal i name
  case neg =>
    rw [refuses known] at found
    cases found
  refine ⟨known, e, entry, same ▸ describes.name, ?_⟩
  rw [resolves known] at found
  rw [describes.notify, ← Except.ok.inj found]
  -- The methods were all there when the signal was looked up.
  have look (canonical : String) :
      (run d.name (x.superName? d) (methodCalls d ms ++ earlier.map .property)).findMethod? canonical =
        ms.findIdx? (·.signature.canonical = canonical) := by
    have grows := (@TableBuilder.adds_run d.name (x.superName? d) (methodCalls d ms ++ earlier.map .property)
      (later.map .property ++ enums.map .enumeration)).strings.length_le
    have fits' := Nat.le_trans grows (by simpa using fits)
    have methods := (TableBuilder.tells_run fits').methods
    have none := methodsOf_methodCalls d ms earlier []
    rw [List.map_nil, List.append_nil] at none
    rw [none] at methods
    exact TableBuilder.findMethod?_eq fits' methods canonical
  simp only [look]

/-! ## Main statement -/

/-- The names of the classes of a batch are distinct and no class derives from itself.

Then the walk along first bases from a class ends outside the batch, whatever the number of classes, and
goes through all classes that first bases lead to. A property with a signal that tells of its changes is
accepted just if the class or one of these declares a signal of this name. In the table the entry of the
property has no place for it if the class does not declare it itself. If it does, the place is that of the
first signal of this name in the table that is not cloned, and this is the first one that is declared. -/
theorem notify_signals_are_resolved (x : ClassIndex) (names : (x.entries.map (·.declaration.name)).Nodup)
    (acyclic : ∀ i, ¬ TransGen x.DerivesFrom i i) (i : Nat) (d : ClassDeclaration) (there : x.get? i = some d) :
    (x.Line d (x.ancestors d) ∧ ∀ j, j ∈ x.ancestors d ↔ TransGen x.FirstBase i j) ∧
    ∀ (n : Nat) (p : PropertyDeclaration) (name : String), d.properties[n]? = some p → p.notify = some name →
      (∀ b, (∃ place, x.notifyIndex? b d p = .ok place) ↔ x.KnowsSignal i name) ∧
      (∀ b, ¬ x.KnowsSignal i name →
        x.notifyIndex? b d p = .error ⟨p.line, .unknownNotifySignal name p.name d.name⟩) ∧
      ∀ t, x.tableOf d = .ok t → t.strings.length < 2 ^ 32 →
        x.KnowsSignal i name ∧ ∃ e : PropertyEntry, t.properties[n]? = some e ∧ t.string e.name = p.name ∧
          (¬ d.DeclaresSignal name → e.notify = none) ∧
          ∀ f, d.methods.find? (fun f => f.kind = .signal && f.name = name) = some f →
            ∃ (k : UInt32) (m : MethodEntry), e.notify = some k ∧
              t.methods.findIdx? (fun m => m.kind = .signal && !m.cloned && t.string m.name = name) =
                some k.toNat ∧
              t.methods[k.toNat]? = some m ∧ m.Describes t.strings f.fullSpec := by
  have line := line_ancestors acyclic there
  refine ⟨⟨line, fun j => line.mem_iff there⟩, fun n p name declared notify => ?_⟩
  have resolved := fun b => notifyIndex?_eq names acyclic there b notify
  refine ⟨fun b => ⟨fun ⟨place, found⟩ => ?_, fun known => ⟨_, (resolved b).1 known⟩⟩,
    fun b => (resolved b).2, fun t ok fits => ?_⟩
  · by_contra unknown
    rw [(resolved b).2 unknown] at found
    cases found
  have fits := Nat.le_of_lt fits
  obtain ⟨ms, describes, lists, entries⟩ := notify_of_tableOf names acyclic there ok fits
  obtain ⟨known, e, entry, spells, place⟩ := entries p name declared notify
  refine ⟨known, e, entry, spells.string, fun absent => ?_, fun f first => ?_⟩
  · have none : d.signal? name = none := by
      rw [← Option.not_isSome_iff_eq_none, ClassDeclaration.isSome_signal?_iff]
      exact absent
    rw [place, none, Option.bind_none, Option.map_none]
  · obtain ⟨k, method, isFirst, found⟩ := findIdx?_signal lists first
    have own : d.signal? name = some f := first
    rw [own, Option.bind_some, found, Option.map_some] at place
    have small : k < UInt32.size := by
      have lt := (List.getElem?_eq_some_iff.1 method).1
      exact Nat.lt_of_lt_of_le lt (Nat.le_trans (length_le_of_describes describes lists.nodup) fits)
    obtain ⟨m, method, describesIt⟩ := exists_getElem?_of_forall₂ describes method
    refine ⟨.ofNat k, m, place, ?_, ?_, describesIt⟩
    · rw [UInt32.toNat_ofNat_of_lt' small, ← isFirst]
      refine findIdx?_eq_of_forall₂ (describes.imp fun e m describes => ?_)
      rw [isSignal, describes.kind, describes.cloned, describes.name.string]
    · rw [UInt32.toNat_ofNat_of_lt' small]
      exact method

/-- A batch that has an order has no circle. -/
theorem acyclic_of_order {l : List Nat} (h : x.order = .ok l) (i : Nat) : ¬ TransGen x.DerivesFrom i i := by
  intro circle
  obtain ⟨placed, perm⟩ := placed_order h
  obtain ⟨j, ⟨d, there, -⟩, -⟩ := TransGen.head'_iff.1 circle
  rw [derivesFrom_eq] at circle
  exact placed.acyclic (perm.mem_iff.2 (List.mem_range.2 (lt_of_get? there))) circle

/-- A class with two signals `changed`, of which the first may be called with one parameter less. -/
def dial : ClassDeclaration where
  name := "ui::Dial"
  scope := "ui"
  bases := ["Panel"]
  line := 5
  methods :=
    [⟨"changed", "void", [], .slot, .isPublic, false, 6⟩,
      ⟨"moved", "void", [⟨"int", none, some "0"⟩], .signal, .isPublic, false, 7⟩,
      ⟨"changed", "void", [⟨"int", some "from", none⟩, ⟨"int", some "to", some "0"⟩], .signal, .isPublic,
        false, 8⟩,
      ⟨"changed", "void", [⟨"double", none, none⟩], .signal, .isPublic, false, 9⟩]
  properties :=
    [{ name := "level", type := "int", notify := "changed", line := 10 },
      { name := "open", type := "bool", notify := "closed", line := 11 }]

/-- Its base, which has a signal `closed`. -/
def panel : ClassDeclaration where
  name := "ui::Panel"
  scope := "ui"
  bases := []
  line := 1
  methods := [⟨"closed", "void", [], .signal, .isPublic, false, 2⟩]

def panels : ClassIndex :=
  ⟨[⟨0, dial⟩, ⟨1, panel⟩]⟩

/-- The place of the first of the two signals is that behind `moved(int)` and `moved()`. The signal of the
base has no place. -/
theorem dial_notifies :
    (∃ j a, ReflTransGen panels.FirstBase 0 j ∧ panels.get? j = some a ∧ a.DeclaresSignal "closed") ∧
      ∃ t, panels.tableOf dial = .ok t ∧
        t.methods.map t.signature =
          ["moved(int)", "moved()", "changed(int,int)", "changed(int)", "changed(double)", "changed()"] ∧
        t.properties.map (·.notify) = [some 2, none] ∧
        ∃ m, t.methods[2]? = some m ∧ m.Describes t.strings dial.methods[2].fullSpec := by
  have made : (panels.tableOf dial).map (fun t =>
      (t.strings.length, t.methods.map t.signature, t.properties.map (·.notify))) =
        .ok (19, ["moved(int)", "moved()", "changed(int,int)", "changed(int)", "changed(double)", "changed()"],
          [some 2, none]) := by decide +kernel
  cases h : panels.tableOf dial with
  | error e =>
    rw [h] at made
    cases made
  | ok t =>
    rw [h] at made
    obtain ⟨strings, rest⟩ := Prod.mk.inj (Except.ok.inj made)
    obtain ⟨methods, notifies⟩ := Prod.mk.inj rest
    have fits : t.strings.length < 2 ^ 32 := by
      rw [strings]
      decide
    have ordered : panels.order = .ok [1, 0] := by decide +kernel
    obtain ⟨-, resolves⟩ := notify_signals_are_resolved panels (by decide) (acyclic_of_order ordered) 0 dial rfl
    obtain ⟨-, -, own⟩ := resolves 0 _ "changed" rfl rfl
    obtain ⟨-, e, entry, -, -, own⟩ := own t h fits
    obtain ⟨k, m, place, -, method, describes⟩ := own dial.methods[2] (by decide)
    obtain ⟨known, -⟩ := (resolves 1 _ "closed" rfl rfl).2.2 t h fits
    have same : k = 2 := by
      have there := congrArg (·[0]?) notifies
      simp only [List.getElem?_map, entry, Option.map_some, place] at there
      simpa using there
    subst same
    exact ⟨known, t, rfl, methods, notifies, m, method, describes⟩

end ClassIndex
end Reflection

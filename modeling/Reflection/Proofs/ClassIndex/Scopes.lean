import Mathlib.Data.List.Induction
import Reflection.Proofs.ClassIndex.ByName
import Reflection.Proofs.Lists
import Reflection.Signature.TypeText
/-!
# Bases are looked up scope by scope

The scopes that enclose a class are peeled off its scope one by one, the innermost first, until there is
none (`candidates_eq`). So a base stands for the class in the innermost scope that has one of this name,
and of several classes of this name for the first (`bases_resolve_in_innermost_scope`).
-/

namespace Reflection.ClassIndex

variable {x : ClassIndex} {scopes : List String} {base name : String} {i : Nat}

/-! ## Peeling scopes -/

/-- A name in scopes, the outermost scope first. -/
def scopedName (scopes : List String) (name : String) : String :=
  "::".intercalate (scopes ++ [name])

theorem outerScope?_of_not_mem {s : List Char} (plain : ':' ∉ s) : outerScope? s = none := by
  induction s with
  | nil => rfl
  | cons c s ih =>
    obtain ⟨first, rest⟩ := not_or.1 (List.mem_cons.not.1 plain)
    rw [outerScope?, ih rest]
    simp [Ne.symm first]

/-- The last double colon is the one in front of the last scope. -/
theorem outerScope?_append (outer : List Char) {s : List Char} (plain : ':' ∉ s) :
    outerScope? (outer ++ "::".toList ++ s) = some outer := by
  induction outer with
  | nil =>
    have single : outerScope? (':' :: s) = none := by
      rw [outerScope?, outerScope?_of_not_mem plain]
      cases s with
      | nil => rfl
      | cons c s => simp [Ne.symm (List.ne_of_not_mem_cons plain)]
    show outerScope? (':' :: ':' :: s) = some []
    rw [outerScope?, single]
    simp
  | cons c outer ih =>
    show outerScope? (c :: (outer ++ "::".toList ++ s)) = some (c :: outer)
    rw [outerScope?, ih]

theorem not_mem_of_isIdentifier {s : List Char} (h : TypeText.isIdentifier s) : ':' ∉ s := by
  intro colon
  cases s with
  | nil => cases colon
  | cons c s =>
    simp only [TypeText.isIdentifier, Bool.and_eq_true, List.all_eq_true] at h
    rcases List.mem_cons.1 colon with rfl | colon
    · exact absurd h.1 (by decide)
    · exact absurd (h.2 _ colon) (by decide)

/-- A scope that ends in a name is followed by the scope around it. -/
theorem scopesFrom_scopedName {s : String} (identifier : TypeText.isIdentifier s.toList) :
    scopesFrom (scopedName scopes s).toList =
      (scopedName scopes s).toList :: scopesFrom ("::".intercalate scopes).toList := by
  have plain := not_mem_of_isIdentifier identifier
  have start : scopesFrom [] = [] := by rw [scopesFrom, if_pos rfl]
  by_cases outermost : scopes = []
  · subst outermost
    have named : s.toList ≠ [] := by
      rintro none
      rw [none] at identifier
      cases identifier
    rw [scopedName, List.nil_append, String.intercalate_singleton, String.intercalate_nil, String.toList_empty,
      start, scopesFrom, if_neg named]
    split
    · rename_i peeled
      rw [outerScope?_of_not_mem plain] at peeled
      cases peeled
    · rfl
  · have spelled : (scopedName scopes s).toList =
        ("::".intercalate scopes).toList ++ "::".toList ++ s.toList := by
      rw [scopedName, String.intercalate_append_of_ne_nil outermost (List.cons_ne_nil _ _),
        String.intercalate_singleton, String.toList_append, String.toList_append]
    have nonempty : (scopedName scopes s).toList ≠ [] := by simp [spelled]
    have peeled : outerScope? (scopedName scopes s).toList = some ("::".intercalate scopes).toList := by
      rw [spelled]
      exact outerScope?_append _ plain
    rw [scopesFrom, if_neg nonempty]
    split
    · rename_i outer peeled'
      rw [Option.some.inj (peeled.symm.trans peeled')]
    · rename_i none
      rw [peeled] at none
      cases none

/-- The names are tried from the innermost scope to the global one. -/
theorem candidates_eq (names : ∀ s ∈ scopes, TypeText.isIdentifier s.toList)
    (unqualified : ¬ "::".toList <+: base.toList) :
    candidates ("::".intercalate scopes) base =
      (List.range (scopes.length + 1)).reverse.map fun k => scopedName (scopes.take k) base := by
  have tried (scope : String) : candidates scope base =
      (scopesFrom scope.toList).map (fun s => String.ofList s ++ "::" ++ base) ++ [base] := by
    unfold candidates
    split
    · rename_i name e
      exact absurd ⟨name, e.symm⟩ unqualified
    · rfl
  have global : scopedName [] base = base := String.intercalate_singleton
  induction scopes using List.reverseRecOn with
  | nil =>
    rw [tried, String.intercalate_nil, String.toList_empty, scopesFrom, if_pos rfl]
    simp [global]
  | append_singleton scopes s ih =>
    have outer := ih fun s hs => names s (List.mem_append_left _ hs)
    have inner : scopedName (scopes ++ [s]) base = scopedName scopes s ++ "::" ++ base := by
      rw [scopedName, String.intercalate_append_of_ne_nil (by simp) (List.cons_ne_nil _ _),
        String.intercalate_singleton]
      rfl
    have numbers : (List.range ((scopes ++ [s]).length + 1)).reverse =
        (scopes.length + 1) :: (List.range (scopes.length + 1)).reverse := by
      rw [List.length_append, List.length_singleton]
      conv_lhs => rw [List.range_succ, List.reverse_concat]
    rw [tried] at outer ⊢
    show (scopesFrom (scopedName scopes s).toList).map _ ++ [base] = _
    rw [scopesFrom_scopedName (names s (List.mem_append_right _ (List.mem_singleton_self s))), List.map_cons,
      List.cons_append, outer, numbers, List.map_cons]
    congr 1
    · rw [List.take_of_length_le (by simp), inner, String.ofList_toList]
    · refine List.map_congr_left fun k hk => ?_
      have within : k ≤ scopes.length := Nat.lt_succ_iff.1 (List.mem_range.1 (List.mem_reverse.1 hk))
      rw [List.take_append_of_le_length within]

/-! ## Classes of a name -/

/-- A class of a batch has a name, and none before it does. -/
structure FirstNamed (x : ClassIndex) (name : String) (i : Nat) : Prop where
  named : ∃ d, x.get? i = some d ∧ d.name = name
  first : ∀ j < i, ∀ d, x.get? j = some d → d.name ≠ name

/-- Some class of a batch has a name. -/
def Names (x : ClassIndex) (name : String) : Prop :=
  ∃ i d, x.get? i = some d ∧ d.name = name

theorem find?_eq_some_iff : x.find? name = some i ↔ x.FirstNamed name i := by
  have there {j : Nat} (lt : j < x.entries.length) : x.get? j = some x.entries[j].declaration := by
    rw [get?, List.getElem?_eq_getElem lt, Option.map_some]
  have within {j : Nat} {d : ClassDeclaration} (h : x.get? j = some d) :
      ∃ lt : j < x.entries.length, x.entries[j].declaration = d := by
    have lt := lt_of_get? h
    exact ⟨lt, Option.some.inj ((there lt).symm.trans h)⟩
  rw [find?, List.findIdx?_eq_some_iff_getElem]
  constructor
  · rintro ⟨lt, named, first⟩
    refine ⟨⟨_, there lt, of_decide_eq_true named⟩, fun j hj d hd => ?_⟩
    obtain ⟨lt', rfl⟩ := within hd
    simpa using first j hj
  · rintro ⟨⟨d, hd, named⟩, first⟩
    obtain ⟨lt, rfl⟩ := within hd
    refine ⟨lt, decide_eq_true named, fun j hj => ?_⟩
    simpa using first j hj _ (there (Nat.lt_trans hj lt))

theorem find?_eq_none_iff : x.find? name = none ↔ ¬ x.Names name := by
  constructor
  · rintro none ⟨i, d, hd, named⟩
    obtain ⟨e, he, rfl⟩ := Option.map_eq_some_iff.1 hd
    have other := List.findIdx?_eq_none_iff.1 none e (List.mem_of_getElem? he)
    exact of_decide_eq_false other named
  · intro h
    refine Option.eq_none_iff_forall_ne_some.2 fun i found => h ?_
    obtain ⟨⟨d, hd, named⟩, -⟩ := find?_eq_some_iff.1 found
    exact ⟨i, d, hd, named⟩

/-! ## The innermost scope -/

/-! ## Main theorem -/

/-- A base is written in a class whose scope is made of names. With a double colon in front it stands for
the class that has the rest as its name. Otherwise it stands for the class of this name in the innermost of
the scopes that has one, among which is the global scope, and for none if no scope has one. Of several
classes of one name it is the first; a batch has its classes in the order of its files. -/
theorem bases_resolve_in_innermost_scope (x : ClassIndex) (d : ClassDeclaration) (scopes : List String)
    (scope : d.scope = "::".intercalate scopes) (names : ∀ s ∈ scopes, TypeText.isIdentifier s.toList)
    (base : String) :
    (∀ name, base = "::" ++ name →
      (∀ i, x.resolve? d base = some i ↔ x.FirstNamed name i) ∧
      (x.resolve? d base = none ↔ ¬ x.Names name)) ∧
    (¬ "::".toList <+: base.toList →
      (∀ i, x.resolve? d base = some i ↔
        ∃ k ≤ scopes.length, x.FirstNamed (scopedName (scopes.take k) base) i ∧
          ∀ j, k < j → j ≤ scopes.length → ¬ x.Names (scopedName (scopes.take j) base)) ∧
      (x.resolve? d base = none ↔
        ∀ k ≤ scopes.length, ¬ x.Names (scopedName (scopes.take k) base))) ∧
    ∀ files, x = ofFiles files → ∀ i, x.get? i = files.flatten[i]? := by
  refine ⟨?_, fun unqualified => ?_, ?_⟩
  · rintro name rfl
    have global : x.resolve? d ("::" ++ name) = x.find? name := by
      have colons : ("::" ++ name).toList = ':' :: ':' :: name.toList := String.toList_append
      rw [resolve?, candidates, colons]
      simp only [String.ofList_toList, List.findSome?_cons, List.findSome?_nil]
      cases x.find? name <;> rfl
    rw [global]
    exact ⟨fun i => find?_eq_some_iff, find?_eq_none_iff⟩
  · have tried : x.resolve? d base =
        (List.range (scopes.length + 1)).reverse.findSome? fun k =>
          x.find? (scopedName (scopes.take k) base) := by
      rw [resolve?, scope, candidates_eq names unqualified, List.findSome?_map]
      rfl
    rw [tried]
    refine ⟨fun i => ?_, ?_⟩
    · simp only [findSome?_range_reverse, find?_eq_some_iff, find?_eq_none_iff]
    · simp only [List.findSome?_eq_none_iff, List.mem_reverse, List.mem_range, find?_eq_none_iff,
        Nat.lt_succ_iff]
  · rintro files rfl i
    rw [get?, ← List.getElem?_map, ofFiles, declarations_entriesOf]

/-- A class in two namespaces. -/
def chapelBell : ClassDeclaration :=
  { name := "a::b::Bell", scope := "a::b", bases := ["Ring"], line := 1 }

/-- A ring outside all namespaces, and two of one name in the outer namespace. -/
def chapel : ClassIndex :=
  let ring (name : String) : ClassDeclaration := { name, scope := "", bases := [], line := 1 }
  ofFiles [[ring "Ring"], [ring "a::Ring", chapelBell, ring "a::Ring"]]

theorem ring_of_outer_namespace_is_found :
    chapelBell.scope = "::".intercalate ["a", "b"] ∧
      (∀ s ∈ ["a", "b"], TypeText.isIdentifier s.toList) ∧
      chapel.resolve? chapelBell "Ring" = some 1 ∧ chapel.resolve? chapelBell "::Ring" = some 0 ∧
      chapel.resolve? chapelBell "b::Ring" = none := by
  have scope : chapelBell.scope = "::".intercalate ["a", "b"] := by decide
  have names : ∀ s ∈ ["a", "b"], TypeText.isIdentifier s.toList := by decide
  have resolved := bases_resolve_in_innermost_scope chapel chapelBell ["a", "b"] scope names
  refine ⟨scope, names, ?_, ?_, ?_⟩
  · refine (((resolved "Ring").2.1 (by decide)).1 1).2 ⟨1, by decide, find?_eq_some_iff.1 (by decide), ?_⟩
    intro j inner within
    obtain rfl : j = 2 := Nat.le_antisymm within inner
    exact find?_eq_none_iff.1 (by decide)
  · exact (((resolved "::Ring").1 "Ring" (by decide)).1 0).2 (find?_eq_some_iff.1 (by decide))
  · refine ((resolved "b::Ring").2.1 (by decide)).2.2 fun k within => find?_eq_none_iff.1 ?_
    revert k
    decide

end Reflection.ClassIndex

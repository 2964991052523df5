import Mathlib.Data.List.Chain
import Mathlib.Data.List.Nodup
import Mathlib.Data.List.Perm.Subperm
import Reflection.ClassIndex.Order
/-!
# The order of a batch

`ClassIndex.order` visits the classes depth first. `Visits` describes the same search without a bound
on its depth, and `visits_foldlM` says that the bound of the code is never reached. What the search
finds is then proved by induction on `Visits`: it places each class after its bases (`Visits.placed`)
or ends in a circle (`Visits.circle`).
-/

namespace Reflection.ClassIndex

open Relation (TransGen)

/-! ## The search -/

/-- A depth-first search that goes on with the classes `is`, in this order, where `path` leads to them
and `order` holds the classes that are placed already. -/
inductive Visits (bases : Nat → List Nat) :
    List Nat → List Nat → List Nat → Except (List Nat) (List Nat) → Prop
  | done (path order : List Nat) : Visits bases path order [] (.ok order)
  | skip {path order is : List Nat} {i : Nat} {r : Except (List Nat) (List Nat)}
      (placed : i ∈ order) (rest : Visits bases path order is r) : Visits bases path order (i :: is) r
  | close {path order is : List Nat} {i : Nat} (new : i ∉ order) (onPath : i ∈ path) :
      Visits bases path order (i :: is) (.error (path.dropWhile (· ≠ i) ++ [i]))
  | place {path order order' is : List Nat} {i : Nat} {r : Except (List Nat) (List Nat)}
      (new : i ∉ order) (off : i ∉ path)
      (below : Visits bases (path ++ [i]) order (bases i) (.ok order'))
      (rest : Visits bases path (order' ++ [i]) is r) : Visits bases path order (i :: is) r
  | fail {path order is cycle : List Nat} {i : Nat} (new : i ∉ order) (off : i ∉ path)
      (below : Visits bases (path ++ [i]) order (bases i) (.error cycle)) :
      Visits bases path order (i :: is) (.error cycle)

variable {bases : Nat → List Nat} {path order order' is : List Nat} {i : Nat} {size n : Nat}

theorem visit_of_mem (h : i ∈ order) : visit bases n path order i = .ok order := by
  cases n with
  | zero => rfl
  | succ n => rw [visit, if_pos (List.contains_iff_mem.2 h)]

theorem visit_of_mem_path (new : i ∉ order) (h : i ∈ path) :
    visit bases (n + 1) path order i = .error (path.dropWhile (· ≠ i) ++ [i]) := by
  rw [visit, if_neg (by simpa using new), if_pos (List.contains_iff_mem.2 h)]

theorem visit_of_not_mem (new : i ∉ order) (off : i ∉ path) :
    visit bases (n + 1) path order i =
      ((bases i).foldlM (visit bases n (path ++ [i])) order).map (· ++ [i]) := by
  rw [visit, if_neg (by simpa using new), if_neg (by simpa using off)]

/-- The search of the code is this search: no class is on a path twice, so a path never gets longer
than the bound allows. -/
theorem visits_foldlM (inside : ∀ i, ∀ j ∈ bases i, j < size) (bound : size < n + path.length)
    (nodup : path.Nodup) (within : ∀ j ∈ path, j < size) (his : ∀ i ∈ is, i < size) :
    Visits bases path order is (is.foldlM (visit bases n path) order) := by
  induction n generalizing path order is with
  | zero =>
    have short : path.length ≤ (List.range size).length :=
      (List.subperm_of_subset nodup fun j hj => List.mem_range.2 (within j hj)).length_le
    rw [List.length_range] at short
    omega
  | succ n ih =>
    induction is generalizing order with
    | nil => exact .done path order
    | cons i is siblings =>
      obtain ⟨hi, his⟩ := List.forall_mem_cons.1 his
      rw [List.foldlM_cons]
      by_cases placed : i ∈ order
      · rw [visit_of_mem placed]
        exact .skip placed (siblings his)
      by_cases onPath : i ∈ path
      · rw [visit_of_mem_path placed onPath]
        exact .close placed onPath
      rw [visit_of_not_mem placed onPath]
      have longer : size < n + (path ++ [i]).length := by
        rw [List.length_append, List.length_singleton]
        omega
      have nodup' : (path ++ [i]).Nodup := List.concat_eq_append ▸ nodup.concat onPath
      have within' : ∀ j ∈ path ++ [i], j < size := by
        simpa [or_imp, forall_and] using ⟨within, hi⟩
      have below : Visits bases (path ++ [i]) order (bases i)
          ((bases i).foldlM (visit bases n (path ++ [i])) order) :=
        ih longer nodup' within' (inside i)
      cases h : (bases i).foldlM (visit bases n (path ++ [i])) order with
      | error cycle => exact .fail placed onPath (h ▸ below)
      | ok order' => exact .place placed onPath (h ▸ below) (siblings his)

/-! ## Orders -/

/-- No class is placed twice, and each is placed after its bases. -/
structure Placed (bases : Nat → List Nat) (order : List Nat) : Prop where
  nodup : order.Nodup
  before : ∀ front i back, order = front ++ i :: back → ∀ j ∈ bases i, j ∈ front

theorem Placed.nil : Placed bases [] where
  nodup := .nil
  before front i back h := by simp at h

theorem Placed.concat (h : Placed bases order) (new : i ∉ order) (below : ∀ j ∈ bases i, j ∈ order) :
    Placed bases (order ++ [i]) where
  nodup := List.concat_eq_append ▸ h.nodup.concat new
  before front k back e j hj := by
    rcases List.append_eq_append_iff.1 e with ⟨mid, e₁, e₂⟩ | ⟨mid, e₁, e₂⟩
    · -- The class is the one that was placed last.
      cases mid with
      | nil =>
        cases e₂
        rw [e₁, List.append_nil]
        exact below j hj
      | cons k' mid =>
        simp at e₂
    · cases mid with
      | nil =>
        cases e₂
        rw [List.append_nil] at e₁
        exact e₁ ▸ below j hj
      | cons k' mid =>
        cases e₂
        exact h.before front k mid e₁ j hj

/-- What a search places that finds no circle. -/
theorem Visits.placed {r : Except (List Nat) (List Nat)} (h : Visits bases path order is r)
    (hr : r = .ok order') (placed : Placed bases order) (apart : ∀ i ∈ path, i ∉ order) :
    Placed bases order' ∧ order ⊆ order' ∧ is ⊆ order' ∧ ∀ i ∈ path, i ∉ order' := by
  induction h generalizing order' with
  | done path order =>
    cases hr
    exact ⟨placed, List.Subset.refl _, List.nil_subset _, apart⟩
  | skip mem _ ih =>
    obtain ⟨placed', kept, all, apart'⟩ := ih hr placed apart
    exact ⟨placed', kept, List.cons_subset.2 ⟨kept mem, all⟩, apart'⟩
  | close => cases hr
  | @place path order mid is i r new off _ _ below rest =>
    have apart_i : ∀ j ∈ path ++ [i], j ∉ order := by
      simpa [or_imp, forall_and] using ⟨apart, new⟩
    obtain ⟨placed₁, kept₁, all₁, apart₁⟩ := below rfl placed apart_i
    have new' : i ∉ mid := apart₁ i (by simp)
    have apart' : ∀ j ∈ path, j ∉ mid ++ [i] := by
      intro j hj
      have ne : j ≠ i := fun e => off (e ▸ hj)
      simpa [ne] using apart₁ j (List.mem_append_left _ hj)
    obtain ⟨placed₂, kept₂, all₂, apart₂⟩ := rest hr (placed₁.concat new' all₁) apart'
    refine ⟨placed₂, fun j hj => kept₂ (List.mem_append_left _ (kept₁ hj)),
      List.cons_subset.2 ⟨kept₂ (by simp), all₂⟩, apart₂⟩
  | fail => cases hr

/-- Only what is searched for and what comes below it is placed. -/
theorem Visits.within {r : Except (List Nat) (List Nat)} (h : Visits bases path order is r)
    (inside : ∀ i, ∀ j ∈ bases i, j < size) (hr : r = .ok order') (ho : ∀ j ∈ order, j < size)
    (his : ∀ i ∈ is, i < size) : ∀ j ∈ order', j < size := by
  induction h generalizing order' with
  | done path order =>
    cases hr
    exact ho
  | skip _ _ ih => exact ih hr ho (List.forall_mem_cons.1 his).2
  | close => cases hr
  | @place path order mid is i r _ _ _ _ below rest =>
    obtain ⟨hi, his⟩ := List.forall_mem_cons.1 his
    refine rest hr ?_ his
    simpa [or_imp, forall_and] using ⟨below rfl ho (inside i), hi⟩
  | fail => cases hr

/-- No class comes before one that it derives from. -/
theorem Placed.sorted (h : Placed bases order) : order.Pairwise fun i j => j ∉ bases i := by
  rw [List.pairwise_iff_forall_sublist]
  intro i j sub base
  obtain ⟨front, mid, rfl, mem, later⟩ := List.cons_sublist_iff.1 sub
  obtain ⟨a, b, rfl⟩ := List.append_of_mem mem
  have before := h.before a i (b ++ mid) (by simp) j base
  have after : j ∈ mid := List.singleton_sublist.1 later
  exact (List.nodup_append.1 h.nodup).2.2 j (List.mem_append_left _ before) j after rfl

/-- In such an order, what a class derives from is further to the front. -/
theorem Placed.idxOf_lt (h : Placed bases order) {j : Nat} (hi : i ∈ order) (hj : j ∈ bases i) :
    j ∈ order ∧ order.idxOf j < order.idxOf i := by
  obtain ⟨front, back, e⟩ := List.append_of_mem hi
  have mem := h.before front i back e j hj
  have fresh : i ∉ front := by
    have nodup := h.nodup
    rw [e] at nodup
    exact fun hi => (List.nodup_append.1 nodup).2.2 i hi i List.mem_cons_self rfl
  refine ⟨e ▸ List.mem_append_left _ mem, ?_⟩
  rw [e, List.idxOf_append_of_mem mem, List.idxOf_append_of_notMem fresh, List.idxOf_cons_self,
    Nat.add_zero]
  exact List.idxOf_lt_length_of_mem mem

/-- Classes that are placed after their bases do not derive from each other in a circle. -/
theorem Placed.acyclic (h : Placed bases order) (hi : i ∈ order) :
    ¬ TransGen (fun a b => b ∈ bases a) i i := by
  have descends : ∀ j, TransGen (fun a b => b ∈ bases a) i j →
      j ∈ order ∧ order.idxOf j < order.idxOf i := by
    intro j hj
    induction hj with
    | single hj => exact h.idxOf_lt hi hj
    | tail _ hj ih =>
      obtain ⟨mem, lt⟩ := h.idxOf_lt ih.1 hj
      exact ⟨mem, Nat.lt_trans lt ih.2⟩
  intro circle
  exact Nat.lt_irrefl _ (descends i circle).2

/-! ## Circles -/

/-- Classes in a row of which each derives from the next and the last is the first. -/
structure Circle (bases : Nat → List Nat) (cycle : List Nat) : Prop where
  closed : ∃ i mid, cycle = i :: mid ++ [i]
  chain : cycle.IsChain fun a b => b ∈ bases a

/-- A search that ends in an error has found a circle. -/
theorem Visits.circle {r : Except (List Nat) (List Nat)} (h : Visits bases path order is r)
    {cycle : List Nat} (hr : r = .error cycle)
    (leads : ∀ i ∈ is, (path ++ [i]).IsChain fun a b => b ∈ bases a) : Circle bases cycle := by
  have goesOn : ∀ {path : List Nat} {i : Nat}, ((path ++ [i]).IsChain fun a b => b ∈ bases a) →
      ∀ j ∈ bases i, ((path ++ [i]) ++ [j]).IsChain fun a b => b ∈ bases a := by
    intro path i chain j hj
    rw [List.append_assoc]
    exact List.isChain_split.2 ⟨chain, List.isChain_pair.2 hj⟩
  induction h with
  | done => cases hr
  | skip _ _ ih => exact ih hr (List.forall_mem_cons.1 leads).2
  | @close path order is i new onPath =>
    cases hr
    -- The part of the path from the class on, and the class again.
    have chain := (List.forall_mem_cons.1 leads).1
    obtain ⟨front, back, e, fresh⟩ := List.eq_append_cons_of_mem onPath
    have cut : path.dropWhile (· ≠ i) = i :: back := by
      rw [e, List.dropWhile_append_of_pos (by simpa using fun j hj (e : j = i) => fresh (e ▸ hj))]
      simp
    rw [cut]
    refine ⟨⟨i, back, rfl⟩, ?_⟩
    rw [e, List.append_assoc] at chain
    exact (List.isChain_split.1 chain).2
  | place _ _ _ _ _ rest => exact rest hr (List.forall_mem_cons.1 leads).2
  | fail _ _ _ below =>
    exact below hr (goesOn (List.forall_mem_cons.1 leads).1)

theorem Circle.transGen {cycle : List Nat} (h : Circle bases cycle) :
    ∃ i, TransGen (fun a b => b ∈ bases a) i i := by
  obtain ⟨⟨i, mid, rfl⟩, chain⟩ := h
  refine ⟨i, ?_⟩
  have along : ∀ (mid : List Nat) (i k : Nat), ((i :: mid ++ [k]).IsChain fun a b => b ∈ bases a) →
      TransGen (fun a b => b ∈ bases a) i k := by
    intro mid
    induction mid with
    | nil => exact fun i k chain => .single (List.isChain_pair.1 chain)
    | cons j mid ih =>
      intro i k chain
      obtain ⟨first, rest⟩ := List.isChain_cons_cons.1 chain
      exact .head first (ih j k rest)
  exact along mid i i chain

/-- All classes of a circle are bases of others in it. -/
theorem Circle.within {cycle : List Nat} (h : Circle bases cycle)
    (inside : ∀ i, ∀ j ∈ bases i, j < size) : ∀ j ∈ cycle, j < size := by
  obtain ⟨⟨i, mid, rfl⟩, chain⟩ := h
  have along : ∀ (later : List Nat) (i : Nat), ((i :: later).IsChain fun a b => b ∈ bases a) →
      ∀ j ∈ later, j < size := by
    intro later
    induction later with
    | nil => exact fun _ _ => List.forall_mem_nil _
    | cons k later ih =>
      intro i chain
      obtain ⟨first, rest⟩ := List.isChain_cons_cons.1 chain
      exact List.forall_mem_cons.2 ⟨inside i k first, ih k rest⟩
  have later := along (mid ++ [i]) i chain
  exact List.forall_mem_cons.2 ⟨later i (by simp), later⟩

/-! ## Batches -/

variable {x : ClassIndex}

/-- A class has a base that stands for a class of the batch, which may be the class itself. -/
def DerivesFrom (x : ClassIndex) (i j : Nat) : Prop :=
  ∃ d, x.get? i = some d ∧ ∃ base ∈ d.bases, x.resolve? d base = some j

theorem mem_basesOf_iff {j : Nat} : j ∈ x.basesOf i ↔ x.DerivesFrom i j := by
  unfold basesOf DerivesFrom
  cases x.get? i with
  | none => simp
  | some d => simp [List.mem_filterMap]

theorem derivesFrom_eq (x : ClassIndex) : x.DerivesFrom = fun i j => j ∈ x.basesOf i := by
  funext i j
  exact propext mem_basesOf_iff.symm

theorem lt_of_get? {d : ClassDeclaration} (h : x.get? i = some d) : i < x.size := by
  obtain ⟨e, he, -⟩ := Option.map_eq_some_iff.1 h
  exact (List.getElem?_eq_some_iff.1 he).1

theorem lt_of_find? {name : String} (h : x.find? name = some i) : i < x.size :=
  (List.findIdx?_eq_some_iff_getElem.1 h).1

/-- What a class of the batch derives from is in the batch. -/
theorem lt_of_mem_basesOf (x : ClassIndex) (i : Nat) : ∀ j ∈ x.basesOf i, j < x.size := by
  intro j hj
  obtain ⟨d, -, base, -, h⟩ := mem_basesOf_iff.1 hj
  obtain ⟨name, -, found⟩ := List.exists_of_findSome?_eq_some h
  exact lt_of_find? found

/-- The search through the whole batch. -/
theorem visits_batch (x : ClassIndex) :
    Visits x.basesOf [] [] (List.range x.size)
      ((List.range x.size).foldlM (visit x.basesOf (x.size + 1) []) []) :=
  visits_foldlM (x.lt_of_mem_basesOf ·) (Nat.lt_succ_self _) .nil (List.forall_mem_nil _)
    fun _ => List.mem_range.1

/-- Classes of which none comes before what it derives from are left as they are. -/
theorem foldlM_visit_of_sorted (sorted : ∀ i, ∀ j ∈ bases i, j < i) (k : Nat) :
    (List.range k).foldlM (visit bases (n + 1) []) [] = .ok (List.range k) := by
  induction k with
  | zero => rfl
  | succ k ih =>
    have below : (bases k).foldlM (visit bases n ([] ++ [k])) (List.range k) = .ok (List.range k) := by
      have placed : ∀ j ∈ bases k, j ∈ List.range k := fun j hj => List.mem_range.2 (sorted k j hj)
      generalize bases k = is at placed
      induction is with
      | nil => rfl
      | cons j is ih =>
        obtain ⟨hj, his⟩ := List.forall_mem_cons.1 placed
        rw [List.foldlM_cons, visit_of_mem hj]
        exact ih his
    rw [List.range_succ, List.foldlM_append, ih]
    show [k].foldlM (visit bases (n + 1) []) (List.range k) = _
    rw [List.foldlM_cons, visit_of_not_mem (by simp) (by simp), below]
    rfl

theorem order_eq_ok_iff {l : List Nat} :
    x.order = .ok l ↔ (List.range x.size).foldlM (visit x.basesOf (x.size + 1) []) [] = .ok l := by
  unfold order
  cases (List.range x.size).foldlM (visit x.basesOf (x.size + 1) []) [] with
  | error => exact ⟨nofun, nofun⟩
  | ok l' => exact ⟨fun h => Except.ok.inj h ▸ rfl, fun h => Except.ok.inj h ▸ rfl⟩

/-- An order of a batch has each class once, after the classes that it derives from. -/
theorem placed_order {l : List Nat} (h : x.order = .ok l) :
    Placed x.basesOf l ∧ l.Perm (List.range x.size) := by
  have search := x.visits_batch
  rw [order_eq_ok_iff.1 h] at search
  obtain ⟨placed, -, all, -⟩ := search.placed rfl .nil (List.forall_mem_nil _)
  have within := search.within (x.lt_of_mem_basesOf ·) rfl (List.forall_mem_nil _) fun _ => List.mem_range.1
  refine ⟨placed, (List.perm_ext_iff_of_nodup placed.nodup List.nodup_range).2 fun i => ?_⟩
  exact ⟨fun hi => List.mem_range.2 (within i hi), fun hi => all hi⟩

/-- A batch has no order only if classes of it derive from each other in a circle, which is named. -/
theorem circle_order {c : DependencyCycle} (h : x.order = .error c) :
    ∃ cycle, c.names = cycle.map x.nameOf ∧ Circle x.basesOf cycle := by
  have search := x.visits_batch
  unfold order at h
  cases found : (List.range x.size).foldlM (visit x.basesOf (x.size + 1) []) [] with
  | ok l =>
    rw [found] at h
    cases h
  | error cycle =>
    rw [found] at h search
    cases h
    exact ⟨cycle, rfl, search.circle rfl fun i _ => List.isChain_singleton i⟩

end Reflection.ClassIndex

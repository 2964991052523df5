import Mathlib.Data.List.Perm.Subperm
import Mathlib.Logic.Relation
import Reflection.Proofs.Checks
import Reflection.Registry
/-!
# Declared bases

Each class declares at most one base, so the declared bases form chains. `Registry.leadsTo` walks such
a chain up to a bound; `leadsTo_iff` says that the bound is never what ends it: the walk finds a class
exactly when the chain reaches it.
-/

namespace Reflection.Registry

open Relation (ReflTransGen TransGen)

/-- One class declares another as its base. What is pending counts before what is registered. -/
def Declares (r : Registry) (pending : Pending) (a b : String) : Prop :=
  r.declaredBase? pending a = some b

variable {r : Registry} {pending : Pending} {a b c : String}

/-! ## Chains -/

theorem Declares.unique {b' : String} (h : r.Declares pending a b) (h' : r.Declares pending a b') :
    b = b' :=
  Option.some.inj (h.symm.trans h')

/-- A chain does not leave what is closed under declared bases. -/
theorem mem_of_closed {names : List String} (closed : ∀ x ∈ names, ∀ y, r.Declares pending x y → y ∈ names)
    (chain : ReflTransGen (r.Declares pending) a c) (ha : a ∈ names) : c ∈ names := by
  induction chain with
  | refl => exact ha
  | tail _ step ih => exact closed _ ih _ step

theorem declaredBase?_nil (a : String) : r.declaredBase? [] a = (r.get? a).bind (·.superName?) :=
  rfl

/-- What declares a base is pending or registered. -/
theorem mem_names_of_declares (h : r.Declares pending a b) :
    a ∈ pending.map (·.1) ++ r.classes.map (·.name) := by
  rw [Declares, declaredBase?] at h
  rw [List.mem_append]
  split at h
  · rename_i base hl
    obtain ⟨before, after, hl, -⟩ := List.lookup_eq_some_iff.1 hl
    left
    have : (a, base) ∈ pending := List.mem_reverse.1 (by rw [hl]; simp)
    exact List.mem_map_of_mem this
  · obtain ⟨c, hc, -⟩ := Option.bind_eq_some_iff.1 h
    right
    have named : c.name = a := by simpa using List.find?_some hc
    exact named ▸ List.mem_map_of_mem (List.mem_of_find?_eq_some hc)

/-! ## The bounded walk -/

theorem reaches_of_leadsTo {n : Nat} {seen : List String} {next : Option String}
    (h : r.leadsTo pending c n seen next = true) :
    ∃ a, next = some a ∧ ReflTransGen (r.Declares pending) a c := by
  induction n generalizing seen next with
  | zero => simp [leadsTo] at h
  | succ n ih =>
    cases next with
    | none => simp [leadsTo] at h
    | some a =>
      refine ⟨a, rfl, ?_⟩
      rw [leadsTo] at h
      split at h
      · rename_i same
        rw [same]
      · split at h
        · cases h
        · obtain ⟨b, hb, chain⟩ := ih h
          exact .head hb chain

/-- The names walked through so far are distinct, none is the one looked for, and each but the last
declares the next. So the walk goes on as long as the chain does. -/
theorem leadsTo_of_reaches {n : Nat} {seen : List String} (distinct : seen.Nodup)
    (passed : ∀ x ∈ seen, x ≠ c ∧ ∃ y, r.Declares pending x y ∧ (y ∈ seen ∨ y = a))
    (bound : r.classes.length + pending.length < n + seen.length)
    (chain : ReflTransGen (r.Declares pending) a c) :
    r.leadsTo pending c n seen (some a) = true := by
  -- The walk is bounded by the names that there are, and those walked through are distinct.
  induction n generalizing seen a with
  | zero =>
    have known : seen ⊆ pending.map (·.1) ++ r.classes.map (·.name) := by
      intro x hx
      obtain ⟨-, y, hy, -⟩ := passed x hx
      exact mem_names_of_declares hy
    have := (distinct.subperm known).length_le
    simp only [List.length_append, List.length_map] at this
    omega
  | succ n ih =>
    rw [leadsTo]
    by_cases same : a = c
    · rw [if_pos same]
    · rw [if_neg same]
      -- Back at a name passed before, the chain would go round among `seen` and never reach `c`.
      have fresh : a ∉ seen := by
        intro ha
        have closed : ∀ x ∈ seen, ∀ y, r.Declares pending x y → y ∈ seen := by
          intro x hx y hy
          obtain ⟨-, y', hy', h⟩ := passed x hx
          rw [hy.unique hy']
          exact h.elim id fun e => e ▸ ha
        exact (passed c (mem_of_closed closed chain ha)).1 rfl
      rcases ReflTransGen.cases_head chain with e | ⟨b, hb, rest⟩
      · exact absurd e same
      · have hb' : r.declaredBase? pending a = some b := hb
        rw [if_neg (by simpa using fresh), hb']
        refine ih (List.nodup_cons.2 ⟨fresh, distinct⟩) ?_ (by simp only [List.length_cons]; omega) rest
        intro x hx
        rcases List.mem_cons.1 hx with rfl | hx
        · exact ⟨same, b, hb, .inr rfl⟩
        · obtain ⟨ne, y, hy, h⟩ := passed x hx
          refine ⟨ne, y, hy, .inl ?_⟩
          rcases h with h | rfl
          · exact List.mem_cons_of_mem _ h
          · exact List.mem_cons_self

/-- The walk finds a class exactly when the chain of declared bases reaches it. -/
theorem leadsTo_iff {next : Option String} :
    r.leadsTo pending c (r.classes.length + pending.length + 2) [] next = true ↔
      ∃ a, next = some a ∧ ReflTransGen (r.Declares pending) a c := by
  refine ⟨reaches_of_leadsTo, ?_⟩
  rintro ⟨a, rfl, chain⟩
  exact leadsTo_of_reaches .nil (fun _ h => (nomatch h)) (by simp only [List.length_nil]; omega) chain

/-- The inheritance check lets a table through exactly when the chain of declared bases does not lead
back to it. -/
theorem checkInheritance_eq_ok_iff {t : ClassTable} :
    r.checkInheritance pending t = .ok () ↔
      ∀ a, t.superName? = some a → ¬ ReflTransGen (r.Declares pending) a t.name := by
  unfold checkInheritance
  split
  · rename_i found
    obtain ⟨a, ha, chain⟩ := leadsTo_iff.1 found
    exact ⟨fun h => (nomatch h), fun h => absurd chain (h a ha)⟩
  · rename_i clear
    exact ⟨fun _ a ha chain => clear (leadsTo_iff.2 ⟨a, ha, chain⟩), fun _ => rfl⟩

end Reflection.Registry

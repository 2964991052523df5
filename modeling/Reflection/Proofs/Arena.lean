import Reflection.Arena
/-!
# Keys are given out once

No two values of an arena have the same key, and a key that was given out is never given out again:
the versions of a place only grow (`Issued`).
-/

namespace Reflection.Arena

variable {α : Type} {a : Arena α} {k : Key} {x : α}

theorem mem_keys : k ∈ a.keys ↔ ∃ x, a.get? k = some x := by
  rw [keys, List.mem_map]
  constructor
  · rintro ⟨⟨k, x⟩, h, rfl⟩
    exact ⟨x, mem_toList.1 h⟩
  · rintro ⟨x, h⟩
    exact ⟨(k, x), mem_toList.2 h, rfl⟩

theorem nodup_keys (a : Arena α) : a.keys.Nodup := by
  have places : a.cells.zipIdx.Pairwise fun p q => p.2 ≠ q.2 := by
    rw [← List.pairwise_map (R := (· ≠ ·)), List.zipIdx_map_snd]
    exact List.nodup_range'
  rw [keys, toList, List.Nodup, List.pairwise_map, List.pairwise_filterMap]
  refine places.imp fun {p q} ne => ?_
  intro b hb b' hb' e
  obtain ⟨x, -, rfl⟩ := Option.map_eq_some_iff.1 hb
  obtain ⟨x', -, rfl⟩ := Option.map_eq_some_iff.1 hb'
  exact ne (congrArg Key.place e)

theorem erase_of_none (h : a.get? k = none) : a.erase k = a := by
  unfold erase
  split
  · rfl
  · rename_i y hy
    rw [h] at hy
    cases hy

/-! ## Keys that were given out -/

/-- A key that was given out, or was passed over when its place became vacant. -/
def Issued (a : Arena α) (k : Key) : Prop :=
  ∃ c, a.cells[k.place]? = some c ∧ k.version ≤ c.version

theorem issued_of_get? (h : a.get? k = some x) : a.Issued k :=
  ⟨_, get?_eq_some_iff.1 h, Nat.le_refl _⟩

/-- A new key was not given out before. -/
theorem not_issued_insert (a : Arena α) (x : α) : ¬ a.Issued (a.insert x).1 := by
  unfold Issued insert
  split
  · rintro ⟨c, hc, -⟩
    rw [List.getElem?_eq_none (Nat.le_refl _)] at hc
    cases hc
  · rintro ⟨c, hc, le⟩
    dsimp only at hc le
    rw [hc] at le
    exact Nat.not_succ_le_self _ le

/-- Storing, changing and removing values takes nothing back. -/
theorem issued_set {cells : List (Cell α)} {i : Nat} {c : Cell α} (h : a.Issued k)
    (grows : ∀ old, a.cells[i]? = some old → old.version ≤ c.version)
    (hc : cells = a.cells.set i c) : ∃ c, cells[k.place]? = some c ∧ k.version ≤ c.version := by
  obtain ⟨old, ho, le⟩ := h
  by_cases e : i = k.place
  · subst e
    obtain ⟨lt, -⟩ := List.getElem?_eq_some_iff.1 ho
    exact ⟨c, by rw [hc, List.getElem?_set_self lt], Nat.le_trans le (grows old ho)⟩
  · exact ⟨old, by rw [hc, List.getElem?_set_ne e, ho], le⟩

theorem Issued.insert (h : a.Issued k) (x : α) : (a.insert x).2.Issued k := by
  unfold Arena.insert
  split
  · obtain ⟨c, hc, le⟩ := h
    obtain ⟨lt, -⟩ := List.getElem?_eq_some_iff.1 hc
    exact ⟨c, by rw [List.getElem?_append_left lt, hc], le⟩
  · refine issued_set h (fun old ho => ?_) rfl
    rw [ho]
    exact Nat.le_succ _

theorem Issued.erase (h : a.Issued k) (k' : Key) : (a.erase k').Issued k := by
  unfold Arena.erase
  split
  · exact h
  · rename_i y hy
    refine issued_set h (fun old ho => ?_) rfl
    cases (get?_eq_some_iff.1 hy).symm.trans ho
    exact Nat.le_succ _

theorem Issued.modify (h : a.Issued k) (k' : Key) (f : α → α) : (a.modify k' f).Issued k := by
  unfold Arena.modify
  split
  · exact h
  · rename_i y hy
    refine issued_set h (fun old ho => ?_) rfl
    cases (get?_eq_some_iff.1 hy).symm.trans ho
    exact Nat.le_refl _

end Reflection.Arena

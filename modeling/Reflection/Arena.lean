/-!
# Arenas

Storage that gives out keys. A key is a place and a version of that place. A place that becomes
vacant is used again, the one vacated last first, but each use has a new version, so a key that was
given out never finds a later value.

Versions are natural numbers here. Storage whose versions are words of a fixed width keeps to this as
long as no place is used more often than there are versions, which is assumed. What is proved about
objects, connections and handlers rests on keys being new when they are given out, and on nothing else
about how places are chosen.
-/

namespace Reflection

/-- The name of a stored value. -/
structure Key where
  /-- The place, counted from 0. -/
  place : Nat
  /-- The version of the place. The first is 1. -/
  version : Nat
deriving DecidableEq, Repr, Inhabited

namespace Key

/-- A key that is never given out. -/
def null : Key :=
  ⟨0, 0⟩

/-- The text of a key. Places count from 1 here. -/
def text (k : Key) : String :=
  s!"{k.place + 1}v{k.version}"

end Key

/-- A place: the version of its present or last use, or of the vacancy since then, and the value. -/
structure Cell (α : Type) where
  version : Nat
  value : Option α
deriving DecidableEq, Repr

/-- Values under keys that are never given out twice. -/
structure Arena (α : Type) where
  cells : List (Cell α)
  /-- The vacant places, the one vacated last first. -/
  free : List Nat
  vacant_of_free : ∀ i ∈ free, ∃ v, cells[i]? = some ⟨v, none⟩
  nodup_free : free.Nodup
deriving Repr

namespace Arena

variable {α : Type}

/-- No values. -/
def empty : Arena α where
  cells := []
  free := []
  vacant_of_free _ h := nomatch h
  nodup_free := .nil

instance : Inhabited (Arena α) :=
  ⟨empty⟩

/-! ## Views -/

/-- The value under a key. -/
def get? (a : Arena α) (k : Key) : Option α :=
  match a.cells[k.place]? with
  | some ⟨v, x⟩ => if v = k.version then x else none
  | none => none

/-- Is there a value under a key? -/
def contains (a : Arena α) (k : Key) : Bool :=
  (a.get? k).isSome

/-- The keys and values, in the order of places. -/
def toList (a : Arena α) : List (Key × α) :=
  a.cells.zipIdx.filterMap fun (c, i) => c.value.map fun x => (⟨i, c.version⟩, x)

/-- The keys, in the order of places. -/
def keys (a : Arena α) : List Key :=
  a.toList.map (·.1)

/-- The number of values. -/
def size (a : Arena α) : Nat :=
  a.toList.length

/-! ## Changes -/

/-- Stores a value at a place. -/
def setCell (a : Arena α) (i : Nat) (c : Cell α) (h : i ∉ a.free) : Arena α where
  cells := a.cells.set i c
  free := a.free
  vacant_of_free j hj := by
    have ne : i ≠ j := fun e => h (e ▸ hj)
    simpa [List.getElem?_set_ne ne] using a.vacant_of_free j hj
  nodup_free := a.nodup_free

/-- Stores a value under a new key. -/
def insert (a : Arena α) (x : α) : Key × Arena α :=
  match hf : a.free with
  | [] =>
    (⟨a.cells.length, 1⟩,
      { cells := a.cells ++ [⟨1, some x⟩]
        free := []
        vacant_of_free := fun _ h => nomatch h
        nodup_free := .nil })
  | i :: rest =>
    let version := (a.cells[i]?.elim 0 (·.version)) + 1
    (⟨i, version⟩,
      { cells := a.cells.set i ⟨version, some x⟩
        free := rest
        vacant_of_free := fun j hj => by
          have distinct := hf ▸ a.nodup_free
          have ne : i ≠ j := fun e => (List.nodup_cons.1 distinct).1 (e ▸ hj)
          simpa [List.getElem?_set_ne ne] using a.vacant_of_free j (by simp [hf, hj])
        nodup_free := (List.nodup_cons.1 (hf ▸ a.nodup_free)).2 })

/-- A place in use is not free. -/
theorem not_mem_free_of_get? {a : Arena α} {k : Key} {x : α} (h : a.get? k = some x) :
    k.place ∉ a.free := by
  intro hk
  obtain ⟨v, hv⟩ := a.vacant_of_free _ hk
  simp [get?, hv] at h

/-- Replaces the value under a key by its image. Nothing changes if there is none. -/
def modify (a : Arena α) (k : Key) (f : α → α) : Arena α :=
  match h : a.get? k with
  | none => a
  | some x => a.setCell k.place ⟨k.version, some (f x)⟩ (not_mem_free_of_get? h)

/-- Removes the value under a key. Nothing changes if there is none. -/
def erase (a : Arena α) (k : Key) : Arena α :=
  match h : a.get? k with
  | none => a
  | some _ =>
    { cells := a.cells.set k.place ⟨k.version + 1, none⟩
      free := k.place :: a.free
      vacant_of_free := fun j hj => by
        by_cases e : k.place = j
        · have lt : k.place < a.cells.length := by
            by_cases lt : k.place < a.cells.length
            · exact lt
            · simp [get?, List.getElem?_eq_none (Nat.le_of_not_lt lt)] at h
          exact ⟨k.version + 1, by rw [← e]; simp [lt]⟩
        · have hj : j ∈ a.free := by
            rcases List.mem_cons.1 hj with rfl | hj
            · exact absurd rfl e
            · exact hj
          simpa [List.getElem?_set_ne e] using a.vacant_of_free j hj
      nodup_free := List.nodup_cons.2 ⟨not_mem_free_of_get? h, a.nodup_free⟩ }

/-! ## What the changes do to the view -/

@[simp] theorem get?_empty (k : Key) : (empty : Arena α).get? k = none := by
  simp [get?, empty]

theorem get?_eq_some_iff {a : Arena α} {k : Key} {x : α} :
    a.get? k = some x ↔ a.cells[k.place]? = some ⟨k.version, some x⟩ := by
  unfold get?
  constructor
  · intro h
    split at h
    · rename_i v y hc
      split at h
      · rename_i hv
        rw [hc, hv, h]
      · cases h
    · cases h
  · intro h
    simp [h]

/-- A place out of use has no value in any version. -/
theorem get?_of_mem_free {a : Arena α} {k : Key} (h : k.place ∈ a.free) : a.get? k = none := by
  obtain ⟨v, hv⟩ := a.vacant_of_free _ h
  simp [get?, hv]

/-- Storing gives out a key that had no value. -/
theorem get?_key_insert (a : Arena α) (x : α) : a.get? (a.insert x).1 = none := by
  unfold insert
  split
  · simp [get?]
  · rename_i i rest hf
    exact get?_of_mem_free (by simp [hf])

@[simp] theorem get?_insert_self (a : Arena α) (x : α) :
    (a.insert x).2.get? (a.insert x).1 = some x := by
  unfold insert
  split
  · simp [get?]
  · rename_i i rest hf
    obtain ⟨v, hv⟩ := a.vacant_of_free i (by simp [hf])
    obtain ⟨lt, -⟩ := List.getElem?_eq_some_iff.1 hv
    simp [get?, lt]

theorem get?_insert_of_ne (a : Arena α) (x : α) {k : Key} (h : k ≠ (a.insert x).1) :
    (a.insert x).2.get? k = a.get? k := by
  obtain ⟨place, version⟩ := k
  unfold insert at h ⊢
  split at h
  · rcases Nat.lt_trichotomy place a.cells.length with lt | rfl | gt
    · simp [get?, List.getElem?_append_left lt]
    · have : ¬1 = version := fun e => h (by simp [e])
      simp [get?, this]
    · have grown : (a.cells ++ [⟨1, some x⟩])[place]? = none :=
        List.getElem?_eq_none (by rw [List.length_append]; exact gt)
      have old : a.cells[place]? = none := List.getElem?_eq_none (Nat.le_of_lt gt)
      simp only [get?, grown, old]
  · rename_i i rest hf
    by_cases hi : i = place
    · subst hi
      obtain ⟨v, hv⟩ := a.vacant_of_free i (by simp [hf])
      obtain ⟨lt, hv⟩ := List.getElem?_eq_some_iff.1 hv
      have : ¬v + 1 = version := fun e => h (by simp [hv, lt, ← e])
      simp [get?, hv, lt, this]
    · simp [get?, List.getElem?_set_ne hi]

theorem get?_modify (a : Arena α) (k k' : Key) (f : α → α) :
    (a.modify k f).get? k' = if k' = k then (a.get? k).map f else a.get? k' := by
  obtain ⟨place, version⟩ := k'
  unfold modify
  split
  · rename_i hn
    split
    · rename_i e
      rw [e, hn]
      rfl
    · rfl
  · rename_i x hx
    obtain ⟨lt, hc⟩ := List.getElem?_eq_some_iff.1 (get?_eq_some_iff.1 hx)
    by_cases hp : k.place = place
    · subst hp
      by_cases hv : k.version = version
      · subst hv
        simp [setCell, get?, lt, hc]
      · have : (⟨k.place, version⟩ : Key) ≠ k := fun e => hv (by rw [← e])
        simp [setCell, get?, lt, hc, hv, this]
    · have : (⟨place, version⟩ : Key) ≠ k := fun e => hp (by rw [← e])
      simp [setCell, get?, List.getElem?_set_ne hp, this]

theorem get?_erase (a : Arena α) (k k' : Key) :
    (a.erase k).get? k' = if k' = k then none else a.get? k' := by
  obtain ⟨place, version⟩ := k'
  unfold erase
  split
  · rename_i hn
    split
    · rename_i e
      rw [e, hn]
    · rfl
  · rename_i x hx
    obtain ⟨lt, hc⟩ := List.getElem?_eq_some_iff.1 (get?_eq_some_iff.1 hx)
    by_cases hp : k.place = place
    · subst hp
      by_cases hv : k.version = version
      · subst hv
        simp [get?, lt]
      · have : (⟨k.place, version⟩ : Key) ≠ k := fun e => hv (by rw [← e])
        simp [get?, lt, hc, hv]
    · have : (⟨place, version⟩ : Key) ≠ k := fun e => hp (by rw [← e])
      simp [get?, List.getElem?_set_ne hp, this]

/-- The list holds each value under the key that finds it. -/
theorem mem_toList {a : Arena α} {k : Key} {x : α} : (k, x) ∈ a.toList ↔ a.get? k = some x := by
  rw [get?_eq_some_iff]
  simp only [toList, List.mem_filterMap, Option.map_eq_some_iff]
  constructor
  · rintro ⟨⟨⟨v, y⟩, i⟩, hm, z, hz, e⟩
    cases e
    cases hz
    exact List.mem_zipIdx_iff_getElem?.1 hm
  · intro h
    exact ⟨(⟨k.version, some x⟩, k.place), List.mem_zipIdx_iff_getElem?.2 h, x, rfl, rfl⟩

end Arena
end Reflection

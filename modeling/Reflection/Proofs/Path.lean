import Mathlib.Data.List.Basic
import Reflection.Path
/-!
# Texts between slashes

The steps of a path are the texts between its slashes that are not empty. So the last step of a path
below a folder is the name that was joined (`getLast?_steps_join`), if there is no slash in it. There is
none in the name of a file and in its stem (`not_mem_stem`).
-/

namespace Reflection.Path

/-! ## Parts -/

/-- The texts between the slashes. -/
def parts (text : List Char) : List (List Char) :=
  (splitSlashes text).1 :: (splitSlashes text).2

theorem parts_slash (rest : List Char) : parts ('/' :: rest) = [] :: parts rest := by
  simp [parts, splitSlashes]

theorem parts_cons {c : Char} (h : c ≠ '/') (rest : List Char) :
    parts (c :: rest) = (c :: (splitSlashes rest).1) :: (splitSlashes rest).2 := by
  simp [parts, splitSlashes, h]

theorem parts_append (before after : List Char) :
    parts (before ++ '/' :: after) = parts before ++ parts after := by
  induction before with
  | nil => exact parts_slash after
  | cons c before ih =>
    by_cases slash : c = '/'
    · rw [slash, List.cons_append, parts_slash, parts_slash, ih, List.cons_append]
    · rw [List.cons_append, parts_cons slash, parts_cons slash]
      simp only [parts, List.cons_append, List.cons.injEq] at ih ⊢
      simp [ih]

theorem parts_of_not_mem {text : List Char} (h : '/' ∉ text) : parts text = [text] := by
  induction text with
  | nil => rfl
  | cons c text ih =>
    have slash : c ≠ '/' := by
      rintro rfl
      exact h List.mem_cons_self
    have rest := ih fun there => h (List.mem_cons_of_mem _ there)
    simp only [parts, List.cons.injEq] at rest
    rw [parts_cons slash, rest.1, rest.2]

theorem not_mem_of_mem_parts {text part : List Char} (h : part ∈ parts text) : '/' ∉ part := by
  induction text generalizing part with
  | nil =>
    cases List.mem_singleton.1 h
    exact List.not_mem_nil
  | cons c text ih =>
    by_cases slash : c = '/'
    · rw [slash, parts_slash] at h
      rcases List.mem_cons.1 h with rfl | h
      · exact List.not_mem_nil
      · exact ih h
    · rw [parts_cons slash] at h
      rcases List.mem_cons.1 h with rfl | h
      · have first : '/' ∉ (splitSlashes text).1 := ih List.mem_cons_self
        simpa [Ne.symm slash] using first
      · exact ih (List.mem_cons_of_mem _ h)

/-! ## Names -/

theorem steps_eq (path : String) : steps path = ((parts path.toList).filter (· ≠ [])).map component :=
  rfl

theorem not_mem_of_mem_steps {path text : String} (h : .name text ∈ steps path) : '/' ∉ text.toList := by
  rw [steps_eq] at h
  obtain ⟨part, hp, e⟩ := List.mem_map.1 h
  have plain := not_mem_of_mem_parts (List.mem_filter.1 hp).1
  unfold component at e
  split at e
  · cases e
  · split at e
    · cases e
    · cases e
      rwa [String.toList_ofList]

theorem not_mem_fileName {path name : String} (h : fileName? path = some name) : '/' ∉ name.toList := by
  unfold fileName? at h
  split at h
  · rename_i text last
    cases h
    have mem := List.mem_of_getLast? last
    exact not_mem_of_mem_steps (List.mem_filter.1 mem).1
  · cases h

/-- There is no slash in a stem. -/
theorem not_mem_stem {path stem : String} (h : stem? path = some stem) : '/' ∉ stem.toList := by
  obtain ⟨name, found, e⟩ := Option.map_eq_some_iff.1 h
  have plain := not_mem_fileName found
  split at e
  · exact e ▸ plain
  · exact e ▸ plain
  · rename_i dot before _ dropped
    subst e
    have sub : before.Sublist name.toList.reverse := by
      have tail : (dot :: before).Sublist name.toList.reverse := by
        rw [← dropped]
        exact List.dropWhile_sublist _
      exact (List.sublist_cons_self dot before).trans tail
    rw [String.toList_ofList, List.mem_reverse]
    intro there
    exact plain (List.mem_reverse.1 (sub.subset there))

/-! ## Joined paths -/

/-- A name that may follow a folder in a path. -/
structure Plain (name : String) : Prop where
  noSlash : '/' ∉ name.toList
  nonempty : name.toList ≠ []
  noDots : name.toList ≠ ['.'] ∧ name.toList ≠ ['.', '.']

theorem steps_append_name {folder : List Char} {name : String} (h : Plain name) :
    (((parts (folder ++ '/' :: name.toList)).filter (· ≠ [])).map component).getLast? =
      some (.name name) := by
  rw [parts_append, parts_of_not_mem h.noSlash, List.filter_append, List.map_append]
  have kept : [name.toList].filter (· ≠ []) = [name.toList] := by simp [h.nonempty]
  rw [kept, List.map_singleton, List.getLast?_concat, component, if_neg h.noDots.1, if_neg h.noDots.2,
    String.ofList_toList]

/-- A joined path leads to the name that was joined. -/
theorem getLast?_steps_join {name : String} (h : Plain name) (path : String) :
    (steps (join path name)).getLast? = some (.name name) := by
  have relative : isAbsolute name = false := by
    unfold isAbsolute
    cases spelled : name.toList with
    | nil => rfl
    | cons c rest =>
      have ne : c ≠ '/' := by
        rintro rfl
        exact h.noSlash (spelled ▸ List.mem_cons_self)
      simpa using ne
  rw [steps_eq, join, if_neg (by simp [relative])]
  by_cases empty : path = ""
  · have alone : steps name = [.name name] := by
      rw [steps_eq, parts_of_not_mem h.noSlash]
      simp [h.nonempty, component, h.noDots]
    rw [if_pos (by simp [empty]), empty, String.empty_append, ← steps_eq, alone]
    rfl
  by_cases slash : endsWithSlash path = true
  · -- The slash that is there already stands before the name.
    have last : path.toList.getLast? = some '/' := by simpa [endsWithSlash] using slash
    obtain ⟨folder, spelled⟩ := List.getLast?_eq_some_iff.1 last
    rw [if_pos (by simp [slash]), String.toList_append, spelled, List.append_assoc,
      List.singleton_append]
    exact steps_append_name h
  · rw [if_neg (by simp [empty, slash]), String.toList_append, String.toList_append, List.append_assoc]
    exact steps_append_name h

/-- Names joined to one folder give different paths if they differ. -/
theorem join_inj {path name other : String} (h : Plain name) (h' : Plain other)
    (same : join path name = join path other) : name = other := by
  have last := getLast?_steps_join h path
  rw [same, getLast?_steps_join h' path] at last
  cases last
  rfl

end Reflection.Path

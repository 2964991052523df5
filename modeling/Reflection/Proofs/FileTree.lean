import Mathlib.Data.List.Basic
import Reflection.FileTree
import Reflection.Proofs.Checks
/-!
# What the actions on files keep

Making folders changes nothing that is there, and writing a file changes what stands at its place only
(`Keeps`). So a path leads where it led before (`Keeps.locate`), and a file that was written is read
back later (`read_of_write`, `Keeps.read`) unless another one is written to the same place.
-/

namespace Reflection.FileTree

variable {t t' t'' : FileTree} {place : List String} {e : FileEntry}

/-! ## Entries -/

theorem lookup?_put_self (h : place ≠ []) : (t.put place e).lookup? place = some e := by
  simp [lookup?, put, h]

theorem lookup?_put_of_ne {other : List String} (ne : other ≠ place) :
    (t.put place e).lookup? other = t.lookup? other := by
  have skipped : (other == place) = false := by simpa using ne
  simp only [lookup?, put, List.lookup_cons, skipped, lookup_filter_of_ne ne]

/-! ## Changes -/

/-- What was there is there still. Only files at places with `P` may have changed. -/
structure Keeps (P : List String → Prop) (t t' : FileTree) : Prop where
  workingFolder : t'.workingFolder = t.workingFolder
  folders : ∀ place, t.lookup? place = some .folder → t'.lookup? place = some .folder
  files : ∀ place bytes, ¬ P place → t.lookup? place = some (.file bytes) →
    t'.lookup? place = some (.file bytes)

namespace Keeps

variable {P Q : List String → Prop}

theorem refl (t : FileTree) : Keeps P t t :=
  ⟨rfl, fun _ => id, fun _ _ _ => id⟩

theorem trans (h : Keeps P t t') (h' : Keeps P t' t'') : Keeps P t t'' where
  workingFolder := h'.workingFolder.trans h.workingFolder
  folders place there := h'.folders place (h.folders place there)
  files place bytes apart there := h'.files place bytes apart (h.files place bytes apart there)

theorem mono (h : Keeps P t t') (le : ∀ place, P place → Q place) : Keeps Q t t' where
  workingFolder := h.workingFolder
  folders := h.folders
  files place bytes apart := h.files place bytes fun there => apart (le place there)

/-- A new folder. -/
theorem putFolder (free : t.lookup? place = none) : Keeps P t (t.put place .folder) := by
  have ne : ∀ other e, t.lookup? other = some e → other ≠ place := by
    rintro _ e there rfl
    rw [free] at there
    cases there
  refine ⟨rfl, fun other there => ?_, fun other bytes _ there => ?_⟩
  · rwa [lookup?_put_of_ne (ne other _ there)]
  · rwa [lookup?_put_of_ne (ne other _ there)]

/-- A new file, or another one in place of a file. -/
theorem putFile {bytes : ByteArray} (here : P place) (noFolder : t.lookup? place ≠ some .folder) :
    Keeps P t (t.put place (.file bytes)) := by
  refine ⟨rfl, fun other there => ?_, fun other bytes apart there => ?_⟩
  · have ne : other ≠ place := by
      rintro rfl
      exact noFolder there
    rwa [lookup?_put_of_ne ne]
  · have ne : other ≠ place := by
      rintro rfl
      exact apart here
    rwa [lookup?_put_of_ne ne]

/-! ## Paths -/

theorem enter (h : Keeps P t t') {folder folder' : List String} {step : Path.Component}
    (ok : t.enter folder step = .ok folder') : t'.enter folder step = .ok folder' := by
  cases step with
  | here => exact ok
  | up => exact ok
  | name n =>
    rw [FileTree.enter] at ok ⊢
    cases there : t.lookup? (folder ++ [n]) with
    | none =>
      rw [there] at ok
      cases ok
    | some entry =>
      cases entry with
      | file bytes =>
        rw [there] at ok
        cases ok
      | folder =>
        rw [there] at ok
        rw [h.folders _ there]
        exact ok

theorem enterAll (h : Keeps P t t') {steps : List Path.Component} {folder folder' : List String}
    (ok : steps.foldlM t.enter folder = .ok folder') : steps.foldlM t'.enter folder = .ok folder' := by
  induction steps generalizing folder with
  | nil => exact ok
  | cons step steps ih =>
    rw [List.foldlM_cons] at ok ⊢
    obtain ⟨next, first, rest⟩ := bind_eq_ok_iff.1 ok
    rw [bind_eq_ok_iff]
    exact ⟨next, h.enter first, ih rest⟩

/-- A path leads where it led before. -/
theorem locate (h : Keeps P t t') {path : String} {p : Place} (ok : t.locate path = .ok p) :
    t'.locate path = .ok p := by
  unfold FileTree.locate at ok ⊢
  rw [refuse_bind_eq_ok_iff] at ok ⊢
  obtain ⟨nonempty, ok⟩ := ok
  refine ⟨nonempty, ?_⟩
  rw [h.workingFolder]
  obtain ⟨folder, steps, last⟩ := bind_eq_ok_iff.1 ok
  rw [bind_eq_ok_iff]
  refine ⟨folder, h.enterAll steps, ?_⟩
  split at last
  · exact last
  · exact last
  · obtain ⟨folder', step, last⟩ := bind_eq_ok_iff.1 last
    rw [bind_eq_ok_iff]
    exact ⟨folder', h.enter step, last⟩

end Keeps

/-- The name that a path leads to is its last step. -/
theorem getLast?_steps_of_locate {path : String} {folder : List String} {n : String}
    (ok : t.locate path = .ok ⟨folder, some n⟩) : (Path.steps path).getLast? = some (.name n) := by
  unfold locate at ok
  rw [refuse_bind_eq_ok_iff] at ok
  obtain ⟨folder', -, last⟩ := bind_eq_ok_iff.1 ok.2
  split at last
  · cases last
  · rename_i name found
    cases last
    exact found
  · obtain ⟨_, -, last⟩ := bind_eq_ok_iff.1 last
    cases last

/-! ## Reading and writing -/

theorem read_eq_ok_iff {path text : String} :
    t.read path = .ok text ↔ ∃ folder n bytes, t.locate path = .ok ⟨folder, some n⟩ ∧
      t.lookup? (folder ++ [n]) = some (.file bytes) ∧ Path.endsWithSlash path = false ∧
      String.fromUTF8? bytes = some text := by
  unfold read
  rw [bind_eq_ok_iff]
  constructor
  · rintro ⟨⟨folder, _ | n⟩, found, ok⟩
    · cases ok
    · simp only at ok
      split at ok
      · cases ok
      · cases ok
      · rename_i bytes there
        rw [refuse_bind_eq_ok_iff, Bool.not_eq_true] at ok
        obtain ⟨plain, ok⟩ := ok
        split at ok
        · rename_i text decoded
          cases ok
          exact ⟨folder, n, bytes, found, there, plain, decoded⟩
        · cases ok
  · rintro ⟨folder, n, bytes, found, there, plain, decoded⟩
    refine ⟨_, found, ?_⟩
    simp only [there, plain, decoded]
    rfl

/-- A file is written to the place that its path leads to. -/
theorem write_eq_ok {path text : String} (ok : t.write path text = .ok t') :
    ∃ folder n, t.locate path = .ok ⟨folder, some n⟩ ∧ t.lookup? (folder ++ [n]) ≠ some .folder ∧
      Path.endsWithSlash path = false ∧ t' = t.put (folder ++ [n]) (.file text.toUTF8) := by
  unfold write at ok
  obtain ⟨⟨folder, _ | n⟩, found, ok⟩ := bind_eq_ok_iff.1 ok
  · cases ok
  · refine ⟨folder, n, found, ?_⟩
    simp only at ok
    split at ok
    · cases ok
    · rename_i bytes there
      rw [refuse_bind_eq_ok_iff, Bool.not_eq_true] at ok
      cases ok.2
      exact ⟨by rw [there]; nofun, ok.1, rfl⟩
    · rename_i free
      rw [refuse_bind_eq_ok_iff, Bool.not_eq_true] at ok
      cases ok.2
      exact ⟨by rw [free]; nofun, ok.1, rfl⟩

theorem keeps_write {P : List String → Prop} {path text : String} (ok : t.write path text = .ok t')
    (here : ∀ folder n, (Path.steps path).getLast? = some (.name n) → P (folder ++ [n])) :
    Keeps P t t' := by
  obtain ⟨folder, n, found, noFolder, -, rfl⟩ := write_eq_ok ok
  exact .putFile (here folder n (getLast?_steps_of_locate found)) noFolder

/-- A text that was written is read back. -/
theorem read_of_write {path text : String} (ok : t.write path text = .ok t') :
    t'.read path = .ok text := by
  obtain ⟨folder, n, found, noFolder, plain, rfl⟩ := write_eq_ok ok
  have keeps : Keeps (fun _ => True) t (t.put (folder ++ [n]) (.file text.toUTF8)) :=
    .putFile trivial noFolder
  have decoded : String.fromUTF8? text.toUTF8 = some text := dif_pos text.isValidUTF8
  exact read_eq_ok_iff.2 ⟨folder, n, text.toUTF8, keeps.locate found,
    lookup?_put_self (List.append_ne_nil_of_right_ne_nil _ (List.cons_ne_nil _ _)), plain, decoded⟩

/-- A file at a place that nothing was written to is read as before. -/
theorem Keeps.read {P : List String → Prop} (h : Keeps P t t') {path text : String}
    (ok : t.read path = .ok text)
    (apart : ∀ folder n, (Path.steps path).getLast? = some (.name n) → ¬ P (folder ++ [n])) :
    t'.read path = .ok text := by
  obtain ⟨folder, n, bytes, found, there, plain, decoded⟩ := read_eq_ok_iff.1 ok
  refine read_eq_ok_iff.2 ⟨folder, n, bytes, h.locate found, ?_, plain, decoded⟩
  exact h.files _ _ (apart folder n (getLast?_steps_of_locate found)) there

/-! ## Making folders -/

theorem keeps_createFolder {P : List String → Prop} {path : String}
    (ok : t.createFolder path = .ok t') : Keeps P t t' := by
  unfold createFolder at ok
  obtain ⟨⟨folder, _ | n⟩, -, ok⟩ := bind_eq_ok_iff.1 ok
  · cases ok
  · simp only at ok
    rw [refuse_bind_eq_ok_iff, Bool.not_eq_true, Option.isSome_eq_false_iff, Option.isNone_iff_eq_none] at ok
    cases ok.2
    exact .putFolder ok.1

theorem keeps_ensureFolder {P : List String → Prop} {path : String}
    (ok : t.ensureFolder path = .ok t') : Keeps P t t' := by
  unfold ensureFolder at ok
  split at ok
  · rename_i made
    cases ok
    exact keeps_createFolder made
  · split at ok
    · cases ok
      exact .refl t
    · cases ok

theorem keeps_createFolders {P : List String → Prop} (n : Nat) (path : String) (t : FileTree) :
    Keeps P t (createFolders n path t).2 := by
  induction n generalizing path t with
  | zero => exact .refl t
  | succ n ih =>
    rw [createFolders]
    split
    · exact .refl t
    · split
      · rename_i made
        exact keeps_ensureFolder made
      · split
        · exact .refl t
        · rename_i above _
          -- The folder above is made first, and a tree is returned even if that fails half way.
          have below := ih above t
          split
          · rename_i failed
            rw [failed] at below
            exact below
          · rename_i made
            rw [made] at below
            split
            · rename_i made
              exact below.trans (keeps_ensureFolder made)
            · exact below
      · exact .refl t

end Reflection.FileTree

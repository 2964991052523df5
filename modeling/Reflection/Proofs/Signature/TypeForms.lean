import Mathlib.Algebra.GroupWithZero.Nat
import Reflection.Proofs.Signature.Rendering
/-!
# Normal forms of types

The normal form of a type has no qualifier at its end, none at nesting depth zero unless a pointer is
there, and no run of builtin words that has a shorter spelling. So it is its own normal form unless it
ends in a reference (`normalizeTokens_idem`). A type gets shorter where a reference is dropped from its
end, and never longer (`weight_normalizeTokens_le`).
-/

namespace Reflection.TypeText

open Reflection.Text

/-! ## Pieces of a type -/

theorem mem_of_mem_dropEnd {p : String → Bool} {ts : List String} {t : String} (h : t ∈ dropEnd p ts) :
    t ∈ ts := by
  rw [dropEnd, List.mem_reverse] at h
  exact List.mem_reverse.1 ((List.dropWhile_sublist p).subset h)

theorem dropEnd_sublist (p : String → Bool) (ts : List String) : (dropEnd p ts).Sublist ts := by
  have := (ts.reverse.dropWhile_sublist p).reverse
  rwa [List.reverse_reverse] at this

theorem dropEnd_eq_self {p : String → Bool} {ts : List String}
    (h : ∀ t ∈ ts.getLast?, p t = false) : dropEnd p ts = ts := by
  induction ts using List.reverseRecOn with
  | nil => rfl
  | append_singleton ts t _ =>
    rw [dropEnd_concat, if_neg]
    simp [h t (by simp)]

theorem getLast?_dropEnd (p : String → Bool) (ts : List String) :
    ∀ t ∈ (dropEnd p ts).getLast?, p t = false := by
  induction ts using List.reverseRecOn with
  | nil => simp
  | append_singleton ts t ih =>
    rw [dropEnd_concat]
    split
    · exact ih
    · simpa using ‹¬ p t = true›

theorem dropQualifiers_sublist (depth : Int) (ts : List String) :
    (dropQualifiers depth ts).Sublist ts := by
  induction ts generalizing depth with
  | nil => exact .slnil
  | cons t ts ih =>
    rw [dropQualifiers]
    split
    · exact (ih depth).cons t
    · exact (ih _).cons_cons t

/-- A token that neither opens nor closes a bracket nor is a pointer. -/
def Flat (t : String) : Prop :=
  (∀ depth, depthAfter depth t = depth) ∧ t ≠ "*"

theorem hasPointer_flat {t : String} (flat : Flat t) (depth : Int) (ts : List String) :
    hasPointer depth (t :: ts) = hasPointer depth ts := by
  rw [hasPointer, flat.1]
  simp [flat.2]

theorem hasPointer_append_flat {ws : List String} (flat : ∀ w ∈ ws, Flat w) (depth : Int)
    (ts : List String) : hasPointer depth (ws ++ ts) = hasPointer depth ts := by
  induction ws with
  | nil => rfl
  | cons w ws ih =>
    rw [List.cons_append, hasPointer_flat (flat w List.mem_cons_self),
      ih fun t ht => flat t (List.mem_cons_of_mem _ ht)]

theorem flat_of_isQualifier {t : String} (h : isQualifier t) : Flat t := by
  simp only [isQualifier, Bool.or_eq_true, decide_eq_true_eq] at h
  rcases h with rfl | rfl
  · exact ⟨fun _ => by simp [depthAfter], by decide⟩
  · exact ⟨fun _ => by simp [depthAfter], by decide⟩

theorem flat_of_mem_builtinWords {t : String} (h : t ∈ builtinWords) : Flat t := by
  simp only [builtinWords, List.mem_cons, List.not_mem_nil, or_false] at h
  rcases h with rfl | rfl | rfl | rfl | rfl | rfl | rfl | rfl | rfl | rfl | rfl | rfl | rfl | rfl <;>
    exact ⟨fun _ => by simp [depthAfter], by decide⟩

theorem hasPointer_dropQualifiers (depth : Int) (ts : List String) :
    hasPointer depth (dropQualifiers depth ts) = hasPointer depth ts := by
  induction ts generalizing depth with
  | nil => rfl
  | cons t ts ih =>
    rw [dropQualifiers]
    split
    · rename_i dropped
      simp only [Bool.and_eq_true, decide_eq_true_eq] at dropped
      rw [ih, hasPointer_flat (flat_of_isQualifier dropped.2)]
    · rw [hasPointer, hasPointer, ih]

theorem dropQualifiers_idem (depth : Int) (ts : List String) :
    dropQualifiers depth (dropQualifiers depth ts) = dropQualifiers depth ts := by
  induction ts generalizing depth with
  | nil => rfl
  | cons t ts ih =>
    rw [dropQualifiers]
    split
    · exact ih depth
    · rename_i kept
      rw [dropQualifiers, if_neg kept, ih]

theorem dropQualifiers_concat {t : String} (h : isQualifier t = false) (depth : Int) (ts : List String) :
    dropQualifiers depth (ts ++ [t]) = dropQualifiers depth ts ++ [t] := by
  induction ts generalizing depth with
  | nil => simp [dropQualifiers, h]
  | cons u ts ih =>
    rw [List.cons_append, dropQualifiers, dropQualifiers]
    split
    · exact ih depth
    · rw [ih, List.cons_append]

theorem getLast?_dropQualifiers {ts : List String} (h : ∀ t ∈ ts.getLast?, isQualifier t = false)
    (depth : Int) : ∀ t ∈ (dropQualifiers depth ts).getLast?, isQualifier t = false := by
  induction ts using List.reverseRecOn with
  | nil => simp [dropQualifiers]
  | append_singleton ts t _ =>
    have last := h t (by simp)
    rw [dropQualifiers_concat last]
    simpa using last

/-! ## Runs of builtin words -/

/-- A collapsed run of builtin words: it stands behind qualifiers, and what follows it is none. -/
structure Collapses (ts qualifiers run rest : List String) (word : String) : Prop where
  split : ts = qualifiers ++ (run ++ rest)
  qualify : ∀ t ∈ qualifiers, isQualifier t
  builtin : ∀ t ∈ run, t ∈ builtinWords
  ends : ∀ t ∈ rest.head?, t ∉ builtinWords
  known : builtinAlias? run = some word
  collapsed : collapseBuiltin ts = qualifiers ++ word :: rest

theorem collapseBuiltin_cases (ts : List String) :
    collapseBuiltin ts = ts ∨ ∃ qualifiers run rest word, Collapses ts qualifiers run rest word := by
  cases found : builtinAlias? ((ts.dropWhile isQualifier).takeWhile builtinWords.contains) with
  | none => exact .inl (by rw [collapseBuiltin, found])
  | some word =>
    refine .inr ⟨ts.takeWhile isQualifier, _, (ts.dropWhile isQualifier).dropWhile builtinWords.contains,
      word, ?_, fun t ht => List.mem_takeWhile_imp ht, fun t ht => ?_, fun t ht builtin => ?_, found, ?_⟩
    · rw [List.takeWhile_append_dropWhile, List.takeWhile_append_dropWhile]
    · exact List.contains_iff_mem.1 (List.mem_takeWhile_imp (p := builtinWords.contains) ht)
    · have := List.head?_dropWhile_not builtinWords.contains (ts.dropWhile isQualifier)
      rw [Option.mem_def.1 ht] at this
      simp [builtin] at this
    · rw [collapseBuiltin, found]

theorem flat_of_mem_aliases {t : String} (h : t ∈ aliases) : Flat t := by
  simp only [aliases, List.mem_cons, List.not_mem_nil, or_false] at h
  rcases h with rfl | rfl | rfl | rfl | rfl | rfl | rfl | rfl | rfl <;>
    exact ⟨fun _ => by simp [depthAfter], by decide⟩

theorem not_isQualifier_of_mem_aliases {t : String} (h : t ∈ aliases) : isQualifier t = false := by
  revert t
  decide

theorem not_isQualifier_of_mem_builtinWords {t : String} (h : t ∈ builtinWords) :
    isQualifier t = false := by
  revert t
  decide

theorem token_of_mem_aliases {t : String} (h : t ∈ aliases) : Token t := by
  have words : ∀ t ∈ aliases, t.toList ≠ [] ∧ t.toList.all isWordChar := by decide
  exact token_of_word (words t h).1 (List.all_eq_true.1 (words t h).2)

theorem hasPointer_collapseBuiltin (depth : Int) (ts : List String) :
    hasPointer depth (collapseBuiltin ts) = hasPointer depth ts := by
  rcases collapseBuiltin_cases ts with same | ⟨qualifiers, run, rest, word, c⟩
  · rw [same]
  · have before : ∀ t ∈ qualifiers, Flat t := fun t ht => flat_of_isQualifier (c.qualify t ht)
    have inside : ∀ t ∈ run, Flat t := fun t ht => flat_of_mem_builtinWords (c.builtin t ht)
    rw [c.collapsed, c.split, hasPointer_append_flat before, hasPointer_append_flat before,
      hasPointer_append_flat inside, hasPointer_flat (flat_of_mem_aliases (mem_aliases c.known).1)]

theorem getLast?_collapseBuiltin {ts : List String} (h : ∀ t ∈ ts.getLast?, isQualifier t = false) :
    ∀ t ∈ (collapseBuiltin ts).getLast?, isQualifier t = false := by
  rcases collapseBuiltin_cases ts with same | ⟨qualifiers, run, rest, word, c⟩
  · rwa [same]
  · rw [c.collapsed, List.getLast?_append_of_ne_nil _ (List.cons_ne_nil _ _)]
    cases rest with
    | nil =>
      intro t ht
      cases ht
      exact not_isQualifier_of_mem_aliases (mem_aliases c.known).1
    | cons t rest =>
      rw [List.getLast?_cons_cons]
      rw [c.split, ← List.append_assoc, List.getLast?_append_of_ne_nil _ (List.cons_ne_nil _ _)] at h
      exact h

theorem collapseBuiltin_idem (ts : List String) :
    collapseBuiltin (collapseBuiltin ts) = collapseBuiltin ts := by
  rcases collapseBuiltin_cases ts with same | ⟨qualifiers, run, rest, word, c⟩
  · rw [same, same]
  · obtain ⟨known, -⟩ := mem_aliases c.known
    have first : (qualifiers ++ word :: rest).takeWhile isQualifier = qualifiers ∧
        (qualifiers ++ word :: rest).dropWhile isQualifier = word :: rest := by
      have stop := not_isQualifier_of_mem_aliases known
      rw [List.takeWhile_append_of_pos c.qualify, List.dropWhile_append_of_pos c.qualify]
      simp [stop]
    have alone : rest.takeWhile builtinWords.contains = [] := by
      cases rest with
      | nil => rfl
      | cons t rest =>
        have := c.ends t rfl
        simp [this]
    have none : builtinAlias? ((word :: rest).takeWhile builtinWords.contains) = none := by
      rw [List.takeWhile_cons, alone]
      revert known
      clear * -
      revert word
      decide
    rw [c.collapsed, collapseBuiltin, first.2, none]

/-- A list without qualifiers at depth zero has none after its run of builtin words is collapsed. -/
theorem dropQualifiers_collapseBuiltin {ts : List String} (h : dropQualifiers 0 ts = ts) :
    dropQualifiers 0 (collapseBuiltin ts) = collapseBuiltin ts := by
  rcases collapseBuiltin_cases ts with same | ⟨qualifiers, run, rest, word, c⟩
  · rw [same, h]
  · have keeps : ∀ (ws ts : List String), (∀ w ∈ ws, Flat w ∧ isQualifier w = false) →
        dropQualifiers 0 (ws ++ ts) = ws ++ dropQualifiers 0 ts := by
      intro ws ts flat
      induction ws with
      | nil => rfl
      | cons w ws ih =>
        have hw := flat w List.mem_cons_self
        rw [List.cons_append, dropQualifiers, if_neg (by simp [hw.2]), hw.1.1,
          ih fun t ht => flat t (List.mem_cons_of_mem _ ht), List.cons_append]
    have unqualified : qualifiers = [] := by
      cases qualifiers with
      | nil => rfl
      | cons q qualifiers =>
        have hq := c.qualify q List.mem_cons_self
        have shorter := (dropQualifiers_sublist 0 (qualifiers ++ (run ++ rest))).length_le
        rw [c.split, List.cons_append, dropQualifiers, if_pos (by simp [hq])] at h
        rw [h, List.length_cons] at shorter
        omega
    have builtin : ∀ t ∈ run, Flat t ∧ isQualifier t = false := fun t ht =>
      ⟨flat_of_mem_builtinWords (c.builtin t ht),
        not_isQualifier_of_mem_builtinWords (c.builtin t ht)⟩
    have known := (mem_aliases c.known).1
    rw [c.split, unqualified, List.nil_append, keeps run rest builtin] at h
    rw [c.collapsed, unqualified, List.nil_append]
    have := keeps [word] rest fun t ht => by
      cases List.mem_singleton.1 ht
      exact ⟨flat_of_mem_aliases known, not_isQualifier_of_mem_aliases known⟩
    rw [List.singleton_append] at this
    rw [this, List.append_cancel_left h, List.singleton_append]

/-! ## Normal forms -/

theorem getLast?_normalizeTokens (ts : List String) :
    ∀ t ∈ (normalizeTokens ts).getLast?, isQualifier t = false := by
  have last := getLast?_dropEnd isQualifier (dropEnd isReference ts)
  apply getLast?_collapseBuiltin
  split
  · exact last
  · exact getLast?_dropQualifiers last 0

/-- A normal form that does not end in a reference is its own normal form. -/
theorem normalizeTokens_idem {ts : List String}
    (h : ∀ t ∈ (normalizeTokens ts).getLast?, isReference t = false) :
    normalizeTokens (normalizeTokens ts) = normalizeTokens ts := by
  rw [normalizeTokens, dropEnd_eq_self h, dropEnd_eq_self (getLast?_normalizeTokens ts)]
  let bare := dropEnd isQualifier (dropEnd isReference ts)
  have form : normalizeTokens ts =
      collapseBuiltin (if hasPointer 0 bare then bare else dropQualifiers 0 bare) := rfl
  rw [form]
  cases pointer : hasPointer 0 bare with
  | true =>
    rw [if_pos rfl, hasPointer_collapseBuiltin, pointer, if_pos rfl, collapseBuiltin_idem]
  | false =>
    rw [if_neg Bool.false_ne_true, hasPointer_collapseBuiltin, hasPointer_dropQualifiers, pointer,
      if_neg Bool.false_ne_true, dropQualifiers_collapseBuiltin (dropQualifiers_idem 0 bare),
      collapseBuiltin_idem]

/-- Reference marks at the end do not count. -/
theorem normalizeTokens_concat_reference {t : String} (h : isReference t) (ts : List String) :
    normalizeTokens (ts ++ [t]) = normalizeTokens ts := by
  rw [normalizeTokens, dropEnd_concat, if_pos h, normalizeTokens]

theorem token_of_mem_normalizeTokens {ts : List String} (h : ∀ t ∈ ts, Token t) :
    ∀ t ∈ normalizeTokens ts, Token t := by
  have bare : ∀ t ∈ dropEnd isQualifier (dropEnd isReference ts), Token t :=
    fun t ht => h t (mem_of_mem_dropEnd (mem_of_mem_dropEnd ht))
  have core : ∀ us : List String, (∀ t ∈ us, Token t) → ∀ t ∈ collapseBuiltin us, Token t := by
    intro us hus t ht
    rcases collapseBuiltin_cases us with same | ⟨qualifiers, run, rest, word, c⟩
    · exact hus t (same ▸ ht)
    · rw [c.collapsed, List.mem_append, List.mem_cons] at ht
      rw [c.split] at hus
      rcases ht with ht | rfl | ht
      · exact hus t (List.mem_append_left _ ht)
      · exact token_of_mem_aliases (mem_aliases c.known).1
      · exact hus t (by simp [ht])
  apply core
  split
  · exact bare
  · exact fun t ht => bare t ((dropQualifiers_sublist _ _).subset ht)

/-! ## Weights -/

/-- The number of characters in tokens. -/
def weight (ts : List String) : Nat :=
  (ts.map String.length).sum

theorem weight_append (ts us : List String) : weight (ts ++ us) = weight ts + weight us := by
  simp [weight]

theorem weight_singles (ts : List String) : weight (singles ts) = weight ts := by
  induction ts with
  | nil => rfl
  | cons t ts ih =>
    by_cases e : t = "&&"
    · subst e
      have : "&&".length = "&".length + "&".length := by decide
      simp only [weight, singles_double, List.map_cons, List.sum_cons, this] at ih ⊢
      omega
    · rw [singles_cons e]
      simp only [weight, List.map_cons, List.sum_cons] at ih ⊢
      omega

theorem weight_le_of_sublist {ts us : List String} (h : ts.Sublist us) : weight ts ≤ weight us := by
  induction h with
  | slnil => exact Nat.le_refl _
  | cons t _ ih =>
    simp only [weight, List.map_cons, List.sum_cons] at ih ⊢
    omega
  | cons_cons t _ ih =>
    simp only [weight, List.map_cons, List.sum_cons] at ih ⊢
    omega

theorem weight_normalizeTokens_le (ts : List String) : weight (normalizeTokens ts) ≤ weight ts := by
  have collapsed : ∀ us, weight (collapseBuiltin us) ≤ weight us := by
    intro us
    rcases collapseBuiltin_cases us with same | ⟨qualifiers, run, rest, word, c⟩
    · rw [same]
    · have shorter := (mem_aliases c.known).2
      rw [c.collapsed, c.split, weight_append, weight_append, weight_append]
      simp only [weight, List.map_cons, List.sum_cons] at shorter ⊢
      omega
  have bare := weight_le_of_sublist ((dropEnd_sublist isQualifier _).trans (dropEnd_sublist isReference ts))
  apply (collapsed _).trans
  split
  · exact bare
  · exact (weight_le_of_sublist (dropQualifiers_sublist 0 _)).trans bare

end Reflection.TypeText

import Reflection.Proofs.Signature.TypeForms
/-!
# Qualifiers and references around a type

What stands around a type does not matter to its normal spelling if it does not change what a call means.
That is so for references and the qualifiers in front of them, and for qualifiers in front of the type
unless there is a pointer at nesting depth zero, which they do not qualify (`normalizeTokens_behind`,
`normalizeTokens_in_front`). No pointer is ever lost (`qualifiers_and_references_leave_no_trace`).
-/

namespace Reflection.TypeText

open Reflection.Text

variable {ts qs rs : List String} {q t : String} {depth : Int} {p : String → Bool}

/-! ## Pointers outside brackets -/

/-- How many more brackets are opened than closed. -/
def nesting (ts : List String) : Int :=
  ts.countP (["<", "(", "["].contains ·) - ts.countP ([">", ")", "]"].contains ·)

/-- There is a pointer outside all brackets. -/
def Points (ts : List String) : Prop :=
  ∃ before after, ts = before ++ "*" :: after ∧ nesting before = 0

theorem nesting_cons (t : String) (ts : List String) : nesting (t :: ts) = nesting [t] + nesting ts := by
  simp only [nesting, List.countP_cons, List.countP_nil]
  omega

theorem depthAfter_eq (depth : Int) (t : String) : depthAfter depth t = depth + nesting [t] := by
  unfold depthAfter nesting
  split
  · rename_i opens
    simp only [Bool.or_eq_true, decide_eq_true_eq] at opens
    rcases opens with (rfl | rfl) | rfl <;> simp
  · split
    · rename_i closes
      simp only [Bool.or_eq_true, decide_eq_true_eq] at closes
      rcases closes with (rfl | rfl) | rfl <;> simp <;> rfl
    · rename_i opens closes
      simp only [Bool.or_eq_true, decide_eq_true_eq, or_assoc] at opens closes
      simp [opens, closes]

theorem hasPointer_iff :
    hasPointer depth ts = true ↔ ∃ before after, ts = before ++ "*" :: after ∧ depth + nesting before = 0 := by
  induction ts generalizing depth with
  | nil => simp [hasPointer]
  | cons t ts ih =>
    rw [hasPointer, Bool.or_eq_true, ih, depthAfter_eq]
    constructor
    · rintro (here | ⟨before, after, rfl, zero⟩)
      · obtain ⟨zero, rfl⟩ := by simpa using here
        exact ⟨[], ts, rfl, by simpa [nesting] using zero⟩
      · exact ⟨t :: before, after, rfl, by rw [nesting_cons]; omega⟩
    · rintro ⟨before, after, split, zero⟩
      cases before with
      | nil =>
        obtain ⟨rfl, rfl⟩ := List.cons.inj split
        exact .inl (by simpa [nesting] using zero)
      | cons u before =>
        obtain ⟨rfl, rfl⟩ := List.cons.inj split
        rw [nesting_cons] at zero
        exact .inr ⟨before, after, rfl, by omega⟩

theorem hasPointer_zero_iff : hasPointer 0 ts = true ↔ Points ts := by
  simp [hasPointer_iff, Points]

theorem hasPointer_append_of_flat (flat : ∀ w ∈ qs, Flat w) : hasPointer depth (ts ++ qs) = hasPointer depth ts := by
  induction ts generalizing depth with
  | nil => simpa using hasPointer_append_flat flat depth []
  | cons t ts ih => rw [List.cons_append, hasPointer, hasPointer, ih]

/-! ## Ends -/

theorem dropEnd_append (h : ∀ t ∈ rs, p t) (ts : List String) : dropEnd p (ts ++ rs) = dropEnd p ts := by
  induction rs using List.reverseRecOn with
  | nil => rw [List.append_nil]
  | append_singleton rs t ih =>
    obtain ⟨front, last⟩ := List.forall_mem_append.1 h
    rw [← List.append_assoc, dropEnd_concat, if_pos (last t (List.mem_singleton_self t)), ih front]

/-- What is dropped from the end. -/
theorem exists_eq_dropEnd_append (p : String → Bool) (ts : List String) :
    ∃ dropped, ts = dropEnd p ts ++ dropped ∧ ∀ t ∈ dropped, p t := by
  induction ts using List.reverseRecOn with
  | nil => exact ⟨[], rfl, List.forall_mem_nil _⟩
  | append_singleton ts t ih =>
    rw [dropEnd_concat]
    split
    · rename_i drops
      obtain ⟨dropped, split, all⟩ := ih
      refine ⟨dropped ++ [t], by rw [← List.append_assoc, ← split], ?_⟩
      rw [List.forall_mem_append]
      exact ⟨all, by simpa using drops⟩
    · exact ⟨[], (List.append_nil _).symm, List.forall_mem_nil _⟩

theorem dropEnd_cons_of_ne_nil (ne : dropEnd p ts ≠ []) : dropEnd p (t :: ts) = t :: dropEnd p ts := by
  obtain ⟨dropped, split, all⟩ := exists_eq_dropEnd_append p ts
  have last : ∀ u ∈ (t :: dropEnd p ts).getLast?, p u = false := by
    obtain ⟨u, us, cons⟩ := List.exists_cons_of_ne_nil ne
    rw [cons, List.getLast?_cons_cons, ← cons]
    exact getLast?_dropEnd p ts
  calc dropEnd p (t :: ts) = dropEnd p (t :: dropEnd p ts ++ dropped) := by rw [List.cons_append, ← split]
    _ = dropEnd p (t :: dropEnd p ts) := dropEnd_append all _
    _ = t :: dropEnd p ts := dropEnd_eq_self last

theorem forall_of_dropEnd_eq_nil (none : dropEnd p ts = []) : ∀ t ∈ ts, p t := by
  obtain ⟨dropped, split, all⟩ := exists_eq_dropEnd_append p ts
  rw [none, List.nil_append] at split
  rwa [split]

theorem hasPointer_dropEnd (flat : ∀ t, p t → Flat t) : hasPointer depth (dropEnd p ts) = hasPointer depth ts := by
  obtain ⟨dropped, split, all⟩ := exists_eq_dropEnd_append p ts
  conv_rhs => rw [split]
  rw [hasPointer_append_of_flat fun t ht => flat t (all t ht)]

/-! ## Around a type -/

theorem not_isReference_of_isQualifier (h : isQualifier q) : isReference q = false := by
  simp only [isQualifier, Bool.or_eq_true, decide_eq_true_eq] at h
  rcases h with rfl | rfl <;> rfl

/-- The normal form of a type that does not end in a reference. -/
theorem normalizeTokens_of_bare (last : ∀ t ∈ ts.getLast?, isReference t = false) :
    normalizeTokens ts = collapseBuiltin (if hasPointer 0 ts then dropEnd isQualifier ts
      else dropQualifiers 0 (dropEnd isQualifier ts)) := by
  rw [normalizeTokens, dropEnd_eq_self last]
  simp only [hasPointer_dropEnd fun t => flat_of_isQualifier]

/-- References behind a type, and the qualifiers between, leave no trace. -/
theorem normalizeTokens_behind (last : ∀ t ∈ ts.getLast?, isReference t = false)
    (qualify : ∀ t ∈ qs, isQualifier t) (refer : ∀ t ∈ rs, isReference t) :
    normalizeTokens (ts ++ (qs ++ rs)) = normalizeTokens ts := by
  have bare : dropEnd isReference (ts ++ qs) = ts ++ qs := by
    refine dropEnd_eq_self fun t ht => ?_
    rw [List.getLast?_append] at ht
    cases end? : qs.getLast? with
    | none =>
      rw [end?, Option.none_or] at ht
      exact last t ht
    | some q =>
      rw [end?, Option.some_or] at ht
      cases ht
      exact not_isReference_of_isQualifier (qualify t (List.mem_of_getLast? end?))
  rw [normalizeTokens, ← List.append_assoc, dropEnd_append refer, bare, dropEnd_append qualify, normalizeTokens,
    dropEnd_eq_self last]

theorem getLast?_cons_of_isQualifier (qualify : isQualifier q) (last : ∀ t ∈ ts.getLast?, isReference t = false) :
    ∀ t ∈ (q :: ts).getLast?, isReference t = false := by
  cases ts with
  | nil =>
    intro t ht
    cases ht
    exact not_isReference_of_isQualifier qualify
  | cons u ts => rwa [List.getLast?_cons_cons]

/-- A qualifier in front of a type without pointers leaves no trace. -/
theorem normalizeTokens_in_front (none : hasPointer 0 ts = false)
    (last : ∀ t ∈ ts.getLast?, isReference t = false) (qualify : isQualifier q) :
    normalizeTokens (q :: ts) = normalizeTokens ts := by
  have same : hasPointer 0 (q :: ts) = false := by rw [hasPointer_flat (flat_of_isQualifier qualify), none]
  rw [normalizeTokens_of_bare last, normalizeTokens_of_bare (getLast?_cons_of_isQualifier qualify last), same, none]
  by_cases empty : dropEnd isQualifier ts = []
  · have all : ∀ t ∈ q :: ts, isQualifier t :=
      List.forall_mem_cons.2 ⟨qualify, forall_of_dropEnd_eq_nil empty⟩
    have gone := dropEnd_append all []
    rw [List.nil_append] at gone
    rw [gone, empty]
    rfl
  · rw [dropEnd_cons_of_ne_nil empty]
    simp [dropQualifiers, qualify]

theorem not_isReference_of_getLast?_append (qualify : ∀ q ∈ qs, isQualifier q)
    (last : ∀ t ∈ ts.getLast?, isReference t = false) : ∀ t ∈ (qs ++ ts).getLast?, isReference t = false := by
  induction qs with
  | nil => exact last
  | cons q qs ih =>
    obtain ⟨first, rest⟩ := List.forall_mem_cons.1 qualify
    exact getLast?_cons_of_isQualifier first (ih rest)

/-- What stands around a type without pointers leaves no trace. -/
theorem normalizeTokens_around {fs : List String} (none : hasPointer 0 ts = false)
    (last : ∀ t ∈ ts.getLast?, isReference t = false) (front : ∀ t ∈ fs, isQualifier t)
    (qualify : ∀ t ∈ qs, isQualifier t) (refer : ∀ t ∈ rs, isReference t) :
    normalizeTokens (fs ++ ts ++ (qs ++ rs)) = normalizeTokens ts := by
  rw [normalizeTokens_behind (not_isReference_of_getLast?_append front last) qualify refer]
  induction fs with
  | nil => rfl
  | cons f fs ih =>
    obtain ⟨first, rest⟩ := List.forall_mem_cons.1 front
    have none' : hasPointer 0 (fs ++ ts) = false := by
      rw [hasPointer_append_flat fun t ht => flat_of_isQualifier (rest t ht), none]
    rw [List.cons_append, normalizeTokens_in_front none' (not_isReference_of_getLast?_append rest last) first,
      ih rest]

theorem collapseBuiltin_cons (qualify : isQualifier q) (ts : List String) :
    collapseBuiltin (q :: ts) = q :: collapseBuiltin ts := by
  simp only [collapseBuiltin, List.takeWhile_cons_of_pos qualify, List.dropWhile_cons_of_pos qualify]
  split <;> rfl

/-- Qualifiers in front of a type with a pointer stay, as they belong to what is pointed at. -/
theorem normalizeTokens_append_of_hasPointer (pointer : hasPointer 0 ts = true)
    (last : ∀ t ∈ ts.getLast?, isReference t = false) (qualify : ∀ q ∈ qs, isQualifier q) :
    normalizeTokens (qs ++ ts) = qs ++ normalizeTokens ts := by
  have some {ts : List String} (pointer : hasPointer 0 ts = true) : dropEnd isQualifier ts ≠ [] := by
    intro none
    have kept : hasPointer 0 (dropEnd isQualifier ts) = hasPointer 0 ts :=
      hasPointer_dropEnd fun _ => flat_of_isQualifier
    rw [pointer, none] at kept
    cases kept
  induction qs with
  | nil => rw [List.nil_append, List.nil_append]
  | cons q qs ih =>
    obtain ⟨first, rest⟩ := List.forall_mem_cons.1 qualify
    have pointer' : hasPointer 0 (qs ++ ts) = true := by
      rw [hasPointer_append_flat fun t ht => flat_of_isQualifier (rest t ht), pointer]
    have last' := not_isReference_of_getLast?_append rest last
    have same : hasPointer 0 (q :: (qs ++ ts)) = true := by
      rw [hasPointer_flat (flat_of_isQualifier first), pointer']
    rw [List.cons_append, normalizeTokens_of_bare (getLast?_cons_of_isQualifier first last'), same, if_pos rfl,
      dropEnd_cons_of_ne_nil (some pointer'), collapseBuiltin_cons first, List.cons_append, ← ih rest,
      normalizeTokens_of_bare last', pointer', if_pos rfl]

/-! ## Pointers stay -/

/-- The pointers among some tokens. -/
def stars (ts : List String) : List String :=
  ts.filter (· = "*")

theorem stars_append (ts us : List String) : stars (ts ++ us) = stars ts ++ stars us :=
  List.filter_append ..

theorem stars_eq_nil (h : ∀ t ∈ ts, Flat t) : stars ts = [] :=
  List.filter_eq_nil_iff.2 fun t ht => by simpa using (h t ht).2

theorem stars_dropEnd (other : p "*" = false) : stars (dropEnd p ts) = stars ts := by
  obtain ⟨dropped, split, all⟩ := exists_eq_dropEnd_append p ts
  have none : stars dropped = [] := by
    refine List.filter_eq_nil_iff.2 fun t ht star => ?_
    rw [of_decide_eq_true star] at ht
    rw [all _ ht] at other
    cases other
  conv_rhs => rw [split, stars_append, none, List.append_nil]

theorem stars_cons (t : String) (ts : List String) :
    stars (t :: ts) = if t = "*" then t :: stars ts else stars ts := by
  rw [stars, List.filter_cons, stars]
  simp only [decide_eq_true_eq]

theorem stars_dropQualifiers : stars (dropQualifiers depth ts) = stars ts := by
  induction ts generalizing depth with
  | nil => rfl
  | cons t ts ih =>
    rw [dropQualifiers]
    split
    · rename_i dropped
      simp only [Bool.and_eq_true, decide_eq_true_eq] at dropped
      rw [ih, stars_cons, if_neg (flat_of_isQualifier dropped.2).2]
    · rw [stars_cons, ih, stars_cons]

theorem stars_collapseBuiltin : stars (collapseBuiltin ts) = stars ts := by
  rcases collapseBuiltin_cases ts with same | ⟨qualifiers, run, rest, word, c⟩
  · rw [same]
  · have builtin : stars run = [] := stars_eq_nil fun t ht => flat_of_mem_builtinWords (c.builtin t ht)
    have known : stars [word] = [] :=
      stars_eq_nil fun t ht => flat_of_mem_aliases (List.mem_singleton.1 ht ▸ (mem_aliases c.known).1)
    rw [c.collapsed, ← List.singleton_append, stars_append, stars_append, known, c.split, stars_append,
      stars_append, builtin]

theorem stars_normalizeTokens : stars (normalizeTokens ts) = stars ts := by
  rw [normalizeTokens, stars_collapseBuiltin]
  split
  · rw [stars_dropEnd (by decide), stars_dropEnd (by decide)]
  · rw [stars_dropQualifiers, stars_dropEnd (by decide), stars_dropEnd (by decide)]

theorem stars_singles : stars (singles ts) = stars ts := by
  induction ts with
  | nil => rfl
  | cons t ts ih =>
    by_cases double : t = "&&"
    · rw [double, singles_double, stars_cons, stars_cons, ih]
      rfl
    · rw [singles_cons double, stars_cons, ih, stars_cons]

/-- The pointers of a type are those of its normal spelling. -/
theorem stars_tokens_normalize (text : String) :
    stars (tokens (normalize text).toList) = stars (tokens text.toList) := by
  rw [normalize, ← stars_singles, singles_tokens_render (token_of_mem_normalizeTokens token_of_mem_tokens),
    stars_singles, stars_normalizeTokens]

/-! ## Main theorem -/

/-- A space between texts separates their tokens. -/
theorem tokens_append_space (a b : List Char) : tokens (a ++ ' ' :: b) = tokens a ++ tokens b := by
  have behind : Apart a (' ' :: b) := by
    intro x _ y hy
    cases hy
    exact ⟨fun words => Bool.false_ne_true words.2, fun both => by simp at both⟩
  have blank : isBlank ' ' := by decide
  rw [tokens_append behind, tokens_cons, if_pos blank]

theorem tokens_intercalate (texts : List String) :
    tokens (" ".intercalate texts).toList = texts.flatMap (tokens ·.toList) := by
  rw [String.toList_intercalate]
  induction texts with
  | nil => exact tokens_nil
  | cons text texts ih =>
    cases texts with
    | nil => simp
    | cons next texts =>
      have space : " ".toList = [' '] := rfl
      rw [space] at ih ⊢
      rw [List.map_cons, List.map_cons, List.intercalate_cons_cons, List.append_assoc, List.singleton_append,
        tokens_append_space, ← List.map_cons, ih]
      rfl

theorem length_renderChars_le (afterWord : Bool) (ts : List String) :
    (renderChars false ts).length ≤ (renderChars afterWord ts).length := by
  cases ts with
  | nil => exact Nat.le_refl _
  | cons t ts => simp [renderChars]

/-- Tokens in front make the text longer. -/
theorem length_render_lt (ne : qs ≠ []) (h : ∀ t ∈ qs, t ≠ "") (ts : List String) :
    (render ts).length < (render (qs ++ ts)).length := by
  have step (t : String) (ts : List String) : (render ts).length + t.length ≤ (render (t :: ts)).length := by
    have le := length_renderChars_le (isWord t) ts
    simp only [render, String.length_ofList, renderChars, Bool.and_false, Bool.false_eq_true, if_false,
      List.nil_append, List.length_append, String.length_toList]
    omega
  induction qs with
  | nil => exact absurd rfl ne
  | cons q qs ih =>
    obtain ⟨first, rest⟩ := List.forall_mem_cons.1 h
    have pos : 0 < q.length := Nat.pos_of_ne_zero fun zero => first (String.length_eq_zero_iff.1 zero)
    have longer := step q (qs ++ ts)
    rw [List.cons_append]
    by_cases none : qs = []
    · rw [none, List.nil_append] at longer ⊢
      omega
    · have := ih none rest
      omega

/-- A qualifier, and a reference, are tokens by themselves. -/
theorem tokens_of_qualifier {q : String} (h : q = "const" ∨ q = "volatile") :
    tokens q.toList = [q] ∧ isQualifier q := by
  rcases h with rfl | rfl
  · exact ⟨by decide +kernel, rfl⟩
  · exact ⟨by decide +kernel, rfl⟩

theorem tokens_of_reference {r : String} (h : r = "&" ∨ r = "&&") : tokens r.toList = [r] ∧ isReference r := by
  rcases h with rfl | rfl
  · exact ⟨by decide +kernel, rfl⟩
  · exact ⟨by decide +kernel, rfl⟩

theorem flatMap_tokens_eq_self (h : ∀ t ∈ ts, tokens t.toList = [t]) : ts.flatMap (tokens ·.toList) = ts := by
  induction ts with
  | nil => rfl
  | cons t ts ih =>
    obtain ⟨first, rest⟩ := List.forall_mem_cons.1 h
    rw [List.flatMap_cons, first, ih rest, List.singleton_append]

/-- Let a type be given as a text. Its pointers are all kept. If it does not end in a reference, then
qualifiers before and behind it, and references behind these, do not matter to its normal spelling, except
for qualifiers in front of a type with a pointer outside brackets. These give it another normal spelling. -/
theorem qualifiers_and_references_leave_no_trace (text : String) :
    let ts := tokens text.toList
    (tokens (normalize text).toList).filter (· = "*") = ts.filter (· = "*") ∧
    (ts.getLast? ≠ some "&" → ts.getLast? ≠ some "&&" →
      ∀ front behind references : List String, (∀ q ∈ front, q = "const" ∨ q = "volatile") →
        (∀ q ∈ behind, q = "const" ∨ q = "volatile") → (∀ r ∈ references, r = "&" ∨ r = "&&") →
        (¬ Points ts →
          normalize (" ".intercalate (front ++ [text] ++ (behind ++ references))) = normalize text) ∧
        (Points ts →
          normalize (" ".intercalate ([text] ++ (behind ++ references))) = normalize text ∧
          (front ≠ [] → normalize (" ".intercalate (front ++ [text])) ≠ normalize text))) := by
  intro ts
  refine ⟨stars_tokens_normalize text, fun single double front behind references hf hb hr => ?_⟩
  have last : ∀ t ∈ ts.getLast?, isReference t = false := by
    intro t ht
    rw [Option.mem_def] at ht
    rw [ht] at single double
    simp only [ne_eq, Option.some.injEq] at single double
    simp [isReference, single, double]
  have hf' := flatMap_tokens_eq_self fun q hq => (tokens_of_qualifier (hf q hq)).1
  have hb' := flatMap_tokens_eq_self fun q hq => (tokens_of_qualifier (hb q hq)).1
  have hr' := flatMap_tokens_eq_self fun r h => (tokens_of_reference (hr r h)).1
  have here : [text].flatMap (tokens ·.toList) = ts := List.flatMap_singleton ..
  constructor
  · intro none
    rw [← hasPointer_zero_iff, Bool.not_eq_true] at none
    rw [normalize, tokens_intercalate, List.flatMap_append, List.flatMap_append, List.flatMap_append, hf', hb',
      hr', here, normalizeTokens_around none last (fun q hq => (tokens_of_qualifier (hf q hq)).2)
        (fun q hq => (tokens_of_qualifier (hb q hq)).2) (fun r h => (tokens_of_reference (hr r h)).2), normalize]
  · intro points
    have pointer := hasPointer_zero_iff.2 points
    constructor
    · rw [normalize, tokens_intercalate, List.flatMap_append, List.flatMap_append, hb', hr', here,
        normalizeTokens_behind last (fun q hq => (tokens_of_qualifier (hb q hq)).2)
          (fun r h => (tokens_of_reference (hr r h)).2), normalize]
    · intro some same
      have longer := length_render_lt some (fun q hq => ?_) (normalizeTokens ts)
      · rw [normalize, tokens_intercalate, List.flatMap_append, hf', here,
          normalizeTokens_append_of_hasPointer pointer last fun q hq => (tokens_of_qualifier (hf q hq)).2] at same
        rw [same] at longer
        exact Nat.lt_irrefl _ longer
      · rcases hf q hq with rfl | rfl <;> decide

/-- A pointer in the argument of a template is not one of the type, and a closing bracket too many puts the
pointer behind it out of reach. -/
theorem spellings_of_one_type :
    normalize "const volatile Map<const char *, long int> const &&" = normalize "Map<const char *, long int>" ∧
      normalize "volatile unsigned int > * const &" = normalize "unsigned int > *" ∧
      normalize "unsigned int * const &" = normalize "unsigned int *" ∧
      normalize "volatile unsigned int *" ≠ normalize "unsigned int *" := by
  obtain ⟨-, template⟩ := qualifiers_and_references_leave_no_trace "Map<const char *, long int>"
  obtain ⟨-, beyond⟩ := qualifiers_and_references_leave_no_trace "unsigned int > *"
  obtain ⟨-, pointer⟩ := qualifiers_and_references_leave_no_trace "unsigned int *"
  obtain ⟨template, -⟩ := template (by decide +kernel) (by decide +kernel) ["const", "volatile"] ["const"] ["&&"]
    (by decide) (by decide) (by decide)
  obtain ⟨beyond, -⟩ := beyond (by decide +kernel) (by decide +kernel) ["volatile"] ["const"] ["&"]
    (by decide) (by decide) (by decide)
  obtain ⟨-, pointer⟩ := pointer (by decide +kernel) (by decide +kernel) ["volatile"] ["const"] ["&"]
    (by decide) (by decide) (by decide)
  obtain ⟨behind, front⟩ := pointer (hasPointer_zero_iff.1 (by decide +kernel))
  refine ⟨template ?_, beyond ?_, behind, front (List.cons_ne_nil _ _)⟩
  · rw [← hasPointer_zero_iff]
    decide +kernel
  · rw [← hasPointer_zero_iff]
    decide +kernel

end Reflection.TypeText

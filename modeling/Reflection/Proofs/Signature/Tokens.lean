import Mathlib.Data.List.Induction
import Mathlib.Data.List.TakeWhile
import Reflection.Signature.TypeText
/-!
# Tokens of spelled types

Two texts side by side have the tokens of the one and then those of the other, unless a word or a
double ampersand lies across the place where they meet (`tokens_append`). Blanks have no tokens, a
word is one.
-/

namespace Reflection.TypeText

open Reflection.Text

/-! ## Characters -/

/-- A character of a word is an underscore, a colon, a digit or a letter. -/
theorem isWordChar_cases {c : Char} (h : isWordChar c) :
    c = '_' ∨ c = ':' ∨ (48 ≤ c.toNat ∧ c.toNat ≤ 57) ∨ (65 ≤ c.toNat ∧ c.toNat ≤ 90)
      ∨ (97 ≤ c.toNat ∧ c.toNat ≤ 122) := by
  -- Whether a character is a letter or a digit is decided by comparing its code point.
  change (decide (c = '_') || ((decide (c.val ≥ 65 ∧ c.val ≤ 90) || (c.val ≥ 97 && c.val ≤ 122))
    || (c.val ≥ 48 && c.val ≤ 57)) || decide (c = ':')) = true at h
  simp only [Bool.or_eq_true, Bool.and_eq_true, decide_eq_true_eq, UInt32.le_iff_toNat_le,
    ge_iff_le] at h
  change (c = '_' ∨ ((65 ≤ c.toNat ∧ c.toNat ≤ 90) ∨ (97 ≤ c.toNat ∧ c.toNat ≤ 122))
    ∨ (48 ≤ c.toNat ∧ c.toNat ≤ 57)) ∨ c = ':' at h
  rcases h with (underscore | (upper | lower) | digit) | colon
  · exact .inl underscore
  · exact .inr (.inr (.inr (.inl upper)))
  · exact .inr (.inr (.inr (.inr lower)))
  · exact .inr (.inr (.inl digit))
  · exact .inr (.inl colon)

theorem not_isBlank_of_isWordChar {c : Char} (h : isWordChar c) : isBlank c = false := by
  rcases isWordChar_cases h with rfl | rfl | range | range | range
  · rfl
  · rfl
  all_goals
    simp only [isBlank, Bool.or_eq_false_iff, Bool.and_eq_false_iff, decide_eq_false_iff_not]
    omega

theorem not_isWordChar_of_isBlank {c : Char} (h : isBlank c) : isWordChar c = false := by
  cases word : isWordChar c
  · rfl
  · rw [not_isBlank_of_isWordChar word] at h
    cases h

theorem ne_nil_of_isIdentifier {text : List Char} (h : isIdentifier text) : text ≠ [] := by
  rintro rfl
  cases h

theorem isWordChar_of_isIdentifier {text : List Char} (h : isIdentifier text) :
    ∀ c ∈ text, isWordChar c := by
  cases text with
  | nil => cases h
  | cons first rest =>
    simp only [isIdentifier, Bool.and_eq_true, Bool.or_eq_true, List.all_eq_true,
      decide_eq_true_eq] at h
    intro c hc
    rcases List.mem_cons.1 hc with rfl | hc
    · rcases h.1 with underscore | letter
      · simp [isWordChar, underscore]
      · simp [isWordChar, Char.isAlphanum, letter]
    · rcases h.2 c hc with underscore | letter
      · simp [isWordChar, underscore]
      · simp [isWordChar, letter]

/-! ## One token after the other -/

theorem tokens_nil : tokens [] = [] := by
  rw [tokens.eq_def]

theorem tokens_cons (c : Char) (rest : List Char) :
    tokens (c :: rest) =
      if isBlank c then tokens rest
      else if isWordChar c then
        String.ofList (c :: rest.takeWhile isWordChar) :: tokens (rest.dropWhile isWordChar)
      else if c = '&' && rest.head? = some '&' then "&&" :: tokens rest.tail
      else String.ofList [c] :: tokens rest := by
  rw [tokens.eq_def]

/-! ## Texts side by side -/

/-- No word and no double ampersand lies across the place where the two texts meet. -/
def Apart (a b : List Char) : Prop :=
  ∀ x ∈ a.getLast?, ∀ y ∈ b.head?, ¬(isWordChar x ∧ isWordChar y) ∧ ¬(x = '&' ∧ y = '&')

theorem apart_nil_left (b : List Char) : Apart [] b := by
  intro x hx
  cases hx

theorem Apart.tail {x : Char} {a b : List Char} (h : Apart (x :: a) b) : Apart a b := by
  cases a with
  | nil => exact apart_nil_left b
  | cons y a => exact fun z hz => h z (by rwa [List.getLast?_cons_cons])

theorem Apart.dropWhile (p : Char → Bool) {a b : List Char} (h : Apart a b) :
    Apart (a.dropWhile p) b := by
  induction a with
  | nil => exact h
  | cons x a ih =>
    rw [List.dropWhile_cons]
    split
    · exact ih h.tail
    · exact h

/-- Where a text ends in a word, what stands apart from it does not make the word longer. -/
theorem Apart.word_ends {x : Char} {a b : List Char} (h : Apart (x :: a) b)
    (word : ∀ c ∈ x :: a, isWordChar c) : b.takeWhile isWordChar = [] ∧ b.dropWhile isWordChar = b := by
  cases b with
  | nil => exact ⟨rfl, rfl⟩
  | cons y b =>
    have last := (x :: a).getLast?_eq_some_getLast (List.cons_ne_nil x a)
    have ends : isWordChar y = false := by
      rw [← Bool.not_eq_true]
      exact fun hy => (h _ last y rfl).1 ⟨word _ (List.getLast_mem _), hy⟩
    exact ⟨List.takeWhile_cons_of_neg (by simp [ends]), List.dropWhile_cons_of_neg (by simp [ends])⟩

theorem takeWhile_append_of_apart {x : Char} {a b : List Char} (h : Apart (x :: a) b)
    (hx : isWordChar x) : (a ++ b).takeWhile isWordChar = a.takeWhile isWordChar
      ∧ (a ++ b).dropWhile isWordChar = a.dropWhile isWordChar ++ b := by
  induction a generalizing x with
  | nil =>
    exact h.word_ends fun c hc => List.mem_singleton.1 hc ▸ hx
  | cons y a ih =>
    rw [List.cons_append, List.takeWhile_cons, List.dropWhile_cons, List.takeWhile_cons,
      List.dropWhile_cons]
    split
    · rename_i hy
      obtain ⟨taken, left⟩ := ih h.tail hy
      exact ⟨by rw [taken], left⟩
    · exact ⟨rfl, rfl⟩

theorem tokens_append {a b : List Char} (h : Apart a b) : tokens (a ++ b) = tokens a ++ tokens b := by
  fun_induction tokens a with
  | case1 => rfl
  | case2 c rest blank ih =>
    rw [List.cons_append, tokens_cons, if_pos blank, ih h.tail]
  | case3 c rest blank word ih =>
    obtain ⟨taken, left⟩ := takeWhile_append_of_apart h word
    rw [List.cons_append, tokens_cons, if_neg blank, if_pos word, taken, left,
      ih (h.tail.dropWhile isWordChar), List.cons_append]
  | case4 c rest blank word double ih =>
    obtain ⟨rfl, head⟩ := by simpa using double
    obtain ⟨more, rfl⟩ := List.head?_eq_some_iff.1 head
    rw [List.tail_cons] at ih
    rw [List.cons_append, tokens_cons, if_neg blank, if_neg word, if_pos (by simp), List.cons_append,
      List.tail_cons, ih h.tail.tail, List.tail_cons, List.cons_append]
  | case5 c rest blank word double ih =>
    have single : ¬(c = '&' && (rest ++ b).head? = some '&') = true := by
      cases rest with
      | nil =>
        intro meets
        obtain ⟨rfl, head⟩ := by simpa using meets
        exact (h '&' rfl '&' head).2 ⟨rfl, rfl⟩
      | cons y rest => exact double
    rw [List.cons_append, tokens_cons, if_neg blank, if_neg word, if_neg single, ih h.tail,
      List.cons_append]

/-! ## Tokens of pieces -/

theorem tokens_of_blank {text : List Char} (h : ∀ c ∈ text, isBlank c) : tokens text = [] := by
  induction text with
  | nil => exact tokens_nil
  | cons c text ih =>
    rw [tokens_cons, if_pos (h c List.mem_cons_self), ih fun x hx => h x (List.mem_cons_of_mem c hx)]

theorem not_ampersand_of_isBlank {c : Char} (h : isBlank c) : c ≠ '&' := by
  rintro rfl
  cases h

/-- Blanks around a text have no tokens. -/
theorem tokens_surrounded {front text back : List Char} (hf : ∀ c ∈ front, isBlank c)
    (hb : ∀ c ∈ back, isBlank c) : tokens (front ++ (text ++ back)) = tokens text := by
  have before : Apart front (text ++ back) := by
    intro x hx y _
    have blank := hf x (List.mem_of_mem_getLast? hx)
    simp [not_isWordChar_of_isBlank blank, not_ampersand_of_isBlank blank]
  have behind : Apart text back := by
    intro x _ y hy
    have blank := hb y (List.mem_of_mem_head? hy)
    simp [not_isWordChar_of_isBlank blank, not_ampersand_of_isBlank blank]
  rw [tokens_append before, tokens_append behind, tokens_of_blank hf, tokens_of_blank hb, List.nil_append,
    List.append_nil]

theorem tokens_of_word {text : List Char} (ne : text ≠ []) (h : ∀ c ∈ text, isWordChar c) :
    tokens text = [String.ofList text] := by
  cases text with
  | nil => exact absurd rfl ne
  | cons c rest =>
    have later : ∀ x ∈ rest, isWordChar x := fun x hx => h x (List.mem_cons_of_mem c hx)
    have hc : isWordChar c := h c List.mem_cons_self
    rw [tokens_cons, if_neg (by simp [not_isBlank_of_isWordChar hc]), if_pos hc,
      List.takeWhile_eq_self_iff.2 later, List.dropWhile_eq_nil_iff.2 later, tokens_nil]

theorem tokens_ne_nil {text : List Char} {c : Char} (hc : c ∈ text) (h : isBlank c = false) : tokens text ≠ [] := by
  fun_induction tokens text with
  | case1 => cases hc
  | case2 x rest blank ih =>
    rcases List.mem_cons.1 hc with rfl | hc
    · rw [h] at blank
      cases blank
    · exact ih hc
  | case3 | case4 | case5 => exact List.cons_ne_nil _ _

/-- A text of a single token is this token between blanks. -/
theorem surrounded_of_tokens {text : List Char} {t : String} (h : tokens text = [t]) :
    ∃ front back, text = front ++ (t.toList ++ back) ∧ (∀ c ∈ front, isBlank c) ∧
      ∀ c ∈ back, isBlank c := by
  have blank : ∀ {rest : List Char}, tokens rest = [] → ∀ c ∈ rest, isBlank c := by
    intro rest none c hc
    rw [← Bool.not_eq_false]
    exact fun other => tokens_ne_nil hc other none
  fun_induction tokens text with
  | case1 => cases h
  | case2 c rest here ih =>
    obtain ⟨front, back, e, before, behind⟩ := ih h
    refine ⟨c :: front, back, by rw [e, List.cons_append], ?_, behind⟩
    exact List.forall_mem_cons.2 ⟨here, before⟩
  | case3 c rest here word ih =>
    obtain ⟨rfl, none⟩ := List.cons.inj h
    refine ⟨[], _, ?_, List.forall_mem_nil _, blank none⟩
    rw [String.toList_ofList, List.nil_append, List.cons_append, List.takeWhile_append_dropWhile]
  | case4 c rest here word double ih =>
    obtain ⟨rfl, none⟩ := List.cons.inj h
    obtain ⟨rfl, head⟩ := by simpa using double
    obtain ⟨more, rfl⟩ := List.head?_eq_some_iff.1 head
    exact ⟨[], more, rfl, List.forall_mem_nil _, blank none⟩
  | case5 c rest here word double ih =>
    obtain ⟨rfl, none⟩ := List.cons.inj h
    exact ⟨[], rest, by simp, List.forall_mem_nil _, blank none⟩

/-! ## The last token -/

theorem splitTokens_concat (ts : List String) (t : String) :
    splitTokens (ts ++ [t])
      = if canName t && ts.any endsType then (ts, some t) else (ts ++ [t], none) := by
  rw [splitTokens, List.getLast?_concat, List.dropLast_concat]

/-- The last token is taken off as a name, or nothing is. -/
theorem splitTokens_cases (ts : List String) :
    splitTokens ts = (ts, none) ∨
      ∃ front name, ts = front ++ [name] ∧ canName name ∧ splitTokens ts = (front, some name) := by
  induction ts using List.reverseRecOn with
  | nil => exact .inl rfl
  | append_singleton front name _ =>
    rw [splitTokens_concat]
    split
    · rename_i named
      rw [Bool.and_eq_true] at named
      exact .inr ⟨front, name, rfl, named.1, rfl⟩
    · exact .inl rfl

theorem splitTokens_sublist (ts : List String) : (splitTokens ts).1.Sublist ts := by
  rcases splitTokens_cases ts with whole | ⟨front, name, rfl, -, named⟩
  · simp [whole]
  · rw [named]
    exact List.sublist_append_left front [name]

end Reflection.TypeText

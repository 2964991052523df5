import Mathlib.Data.List.Chain
import Mathlib.Data.List.TakeWhile
import Reflection.Declaration.Bracket
import Reflection.Proofs.Checks
import Reflection.Proofs.Source.Tiling
import Reflection.Signature.TypeText
/-!
# Tokens next to each other

The tokens of a source are cut off it one by one (`Cut`), each as long as it can be. So a word or a
number is never followed by a character that could make it longer, and where two word-like tokens meet
without a blank between them, one of them has a quote or a dot there (`isChain_separate`).
-/

namespace Reflection.Source

open Reflection.TypeText (isWordChar isIdentifier)
open Reflection.Declaration (isWordLike)

/-! ## Where words and numbers end -/

theorem head_drop_numberTail (hex afterMark : Bool) (text : List Char) :
    ∀ c ∈ (text.drop (numberTail hex afterMark text).1).head?, isWordPart c = false := by
  fun_induction numberTail hex afterMark text with
  | case1 => simp
  | case2 | case3 | case4 | case5 =>
    rename_i ih
    exact ih
  | case6 afterMark c rest _ _ _ stops =>
    rintro x ⟨⟩
    rw [Bool.or_eq_true, not_or] at stops
    simpa using stops.1

theorem head_drop_numberLength (text : List Char) :
    ∀ c ∈ (text.drop (numberLength text).1).head?, isWordPart c = false := by
  unfold numberLength
  split
  · exact head_drop_numberTail true false _
  · exact head_drop_numberTail true false _
  · exact head_drop_numberTail false false text

theorem head_drop_wordLength (text : List Char) :
    ∀ c ∈ (text.drop (wordLength text)).head?, isWordPart c = false := by
  intro c hc
  have behind : (text.takeWhile isWordPart ++ text.dropWhile isWordPart).drop (wordLength text) =
    text.dropWhile isWordPart := List.drop_left
  rw [List.takeWhile_append_dropWhile] at behind
  rw [behind] at hc
  have := List.head?_dropWhile_not isWordPart text
  rw [Option.mem_def.1 hc] at this
  simpa using this

/-! ## Where literals end -/

variable {atLineStart : Bool} {text : List Char} {kind : Kind} {n : Nat}

theorem getLast?_take_quotedLength? {quote : Char} (h : quotedLength? quote text = some n) :
    (text.take n).getLast? = some quote := by
  have longer : ∀ {c : Char} {text : List Char} {m : Nat}, (text.take m).getLast? = some quote →
      ((c :: text).take (m + 1)).getLast? = some quote := by
    intro c text m last
    rw [List.take_succ_cons, List.getLast?_cons, last]
    rfl
  fun_induction quotedLength? quote text generalizing n with
  | case1 | case2 | case4 => cases h
  | case3 c rest ih =>
    obtain ⟨m, found, rfl⟩ := Option.map_eq_some_iff.1 h
    exact longer (longer (ih found))
  | case5 =>
    cases h
    simp
  | case6 c rest _ _ _ ih =>
    obtain ⟨m, found, rfl⟩ := Option.map_eq_some_iff.1 h
    exact longer (ih found)

theorem getLast?_take_rawLength (h : rawLength text = .ok n) : (text.take n).getLast? = some '"' := by
  unfold rawLength at h
  split at h
  · cases h
  · rename_i delimiter _
    dsimp only at h
    split at h
    · cases h
    · rename_i m found
      cases h
      rw [Nat.add_assoc, List.take_add, take_of_find? found]
      simp [List.getLast?_append, List.getLast?_cons]

/-- A quote ends it. -/
def EndsQuoted (lexeme : List Char) : Prop :=
  lexeme.getLast? = some '"' ∨ lexeme.getLast? = some '\''

/-- What is known of the lexeme at the front of a text, and of what follows it. -/
def Fits (kind : Kind) (lexeme rest : List Char) : Prop :=
  match kind with
  | .identifier => isIdentifier lexeme ∧ ∀ c ∈ rest.head?, isWordPart c = false
  | .integer | .float => ∀ c ∈ rest.head?, isWordPart c = false
  | .string | .character => EndsQuoted lexeme
  | .punctuation | .blank => True

theorem fits_of_quoted {before : Nat} {quote : Char} (hq : quote = '"' ∨ quote = '\'')
    (h : quoted before quote text = .ok (kind, n)) : Fits kind (text.take n) (text.drop n) := by
  unfold quoted at h
  split at h
  · rename_i m found
    cases h
    have last : (text.take (before + 1 + m)).getLast? = some quote := by
      rw [List.take_add, List.getLast?_append, getLast?_take_quotedLength? found]
      rfl
    rcases hq with rfl | rfl
    · exact .inl last
    · exact .inr last
  · cases h

theorem fits_of_rawQuoted {before : Nat} (h : rawQuoted before text = .ok (kind, n)) :
    Fits kind (text.take n) (text.drop n) := by
  unfold rawQuoted at h
  split at h
  · rename_i m found
    cases h
    left
    rw [List.take_add, List.getLast?_append, getLast?_take_rawLength found]
    rfl
  · cases h
  · cases h

theorem fits_word {c : Char} (start : isWordStart c) :
    Fits .identifier ((c :: text).take (wordLength (c :: text))) ((c :: text).drop (wordLength (c :: text))) := by
  refine ⟨?_, head_drop_wordLength _⟩
  have part : isWordPart c := by
    simp only [isWordStart, isWordPart, Char.isAlphanum, Bool.or_eq_true] at start ⊢
    exact start.imp id .inl
  have taken : text.take (text.takeWhile isWordPart).length = text.takeWhile isWordPart :=
    (List.prefix_iff_eq_take.1 (List.takeWhile_prefix isWordPart)).symm
  rw [wordLength, List.takeWhile_cons_of_pos part, List.length_cons, List.take_succ_cons, taken, isIdentifier,
    Bool.and_eq_true]
  have parts : ∀ x ∈ text.takeWhile isWordPart, isWordPart x := fun x hx => List.mem_takeWhile_imp hx
  exact ⟨start, List.all_eq_true.2 parts⟩

theorem fits_of_classifyWord {c : Char} (start : isWordStart c)
    (h : classifyWord (c :: text) = .ok (kind, n)) :
    Fits kind ((c :: text).take n) ((c :: text).drop n) := by
  dsimp only [classifyWord] at h
  split at h
  · split at h
    · exact fits_of_rawQuoted h
    · split at h
      · exact fits_of_quoted (.inl rfl) h
      · cases h
        exact fits_word start
  · split at h
    · exact fits_of_quoted (.inr rfl) h
    · cases h
      exact fits_word start
  · cases h
    exact fits_word start

theorem fits_of_classify (ne : text ≠ []) (h : classify atLineStart text = .ok (kind, n)) :
    Fits kind (text.take n) (text.drop n) := by
  generalize read : (Except.ok (kind, n) : Except LexFault (Kind × Nat)) = result at h
  cases frontToken_of_classify ne h with
  | space | lineComment | blockComment | directive | mark =>
    cases read
    trivial
  | openComment => cases read
  | word start => exact fits_of_classifyWord start read.symm
  | @number c rest =>
    cases read
    have ends := head_drop_numberLength (c :: rest)
    split
    · exact ends
    · exact ends
  | literal either => exact fits_of_quoted either read.symm

/-- Marks that are tokens of their own or begin one, and no other token. -/
def marks : List Char :=
  ['(', ')', '[', ']', '\x7b', '\x7d', '<', '>', ',', '=', ':']

theorem classify_mark {c : Char} (h : c ∈ marks) :
    classify atLineStart (c :: text) = .ok (.punctuation, punctuationLength (c :: text)) := by
  simp only [marks, List.mem_cons, List.not_mem_nil, or_false] at h
  rcases h with rfl | rfl | rfl | rfl | rfl | rfl | rfl | rfl | rfl | rfl | rfl <;> rfl

/-! ## Tokens of a source -/

/-- Has the line held blanks only, behind a token too? -/
def onlyBlanks (atLineStart : Bool) (kind : Kind) (lexeme : List Char) : Bool :=
  if kind = .blank then atLineStart || lexeme.contains '\n' else false

/-- The tokens are cut off the text one after the other. -/
inductive Cut : Bool → List Char → List Token → Prop
  | ended {atLineStart : Bool} : Cut atLineStart [] []
  | token {atLineStart : Bool} {text : List Char} {t : Token} {n : Nat} {ts : List Token} (ne : text ≠ [])
      (found : classify atLineStart text = .ok (t.kind, n)) (spelled : t.text.toList = text.take n)
      (later : Cut (onlyBlanks atLineStart t.kind (text.take n)) (text.drop n) ts) : Cut atLineStart text (t :: ts)

theorem Walk.cut {w : Walk} {ts : List Token} (h : w.items.mapM id = .ok ts) : Cut w.atLineStart w.rest ts := by
  induction length : w.rest.length using Nat.strongRecOn generalizing w ts with
  | ind n ih =>
    by_cases ended : w.rest = []
    · rw [Walk.items_of_next_none (by rw [Walk.next_of_rest_nil ended])] at h
      cases h
      rw [ended]
      exact .ended
    · have nonempty : ¬ w.rest.isEmpty := by simpa using ended
      cases found : classify w.atLineStart w.rest with
      | error fault =>
        have next : w.next = (some (.error ⟨fault, w.offset⟩), { w with rest := [] }) := by
          simp only [Walk.next, if_neg nonempty, found]
        rw [Walk.items_of_next_some (by rw [next]), List.mapM_cons] at h
        obtain ⟨t, none, -⟩ := bind_eq_ok_iff.1 h
        cases none
      | ok lexeme =>
        obtain ⟨kind, k⟩ := lexeme
        let t : Token := ⟨kind, String.ofList (w.rest.take k), w.offset, w.line⟩
        obtain ⟨after, next, left, line⟩ : ∃ after : Walk, w.next = (some (.ok t), after) ∧
            after.rest = w.rest.drop k ∧ after.atLineStart = onlyBlanks w.atLineStart kind (w.rest.take k) := by
          simp only [Walk.next, if_neg nonempty, found, t]
          exact ⟨_, rfl, rfl, rfl⟩
        rw [Walk.items_of_next_some (by rw [next]), List.mapM_cons] at h
        obtain ⟨t', e, h⟩ := bind_eq_ok_iff.1 h
        obtain ⟨ts', rest, e'⟩ := bind_eq_ok_iff.1 h
        cases e
        cases e'
        rw [next] at rest
        have later := ih _ (length ▸ Walk.length_lt_of_next next) rest rfl
        rw [left, line] at later
        exact .token ended found (String.toList_ofList) later

theorem cut_of_tokens {source : String} {ts : List Token} (h : tokens source = .ok ts) :
    Cut true source.toList ts := by
  rw [tokens_eq_walk] at h
  exact Walk.cut h

/-! ## Neighbours -/

/-- Does the token end in a character of a word? -/
def endsWord (t : Token) : Bool :=
  t.text.toList.getLast?.any isWordChar

/-- Does the token start with a character of a word? -/
def startsWord (t : Token) : Bool :=
  t.text.toList.head?.any isWordChar

/-- Word-like tokens do not make up one word where they meet. -/
def Separate (a b : Token) : Prop :=
  isWordLike a → isWordLike b → ¬ (endsWord a ∧ startsWord b)

theorem not_endsWord_of_endsQuoted {t : Token} (h : EndsQuoted t.text.toList) : endsWord t = false := by
  rcases h with last | last
  · rw [endsWord, last]
    rfl
  · rw [endsWord, last]
    rfl

/-- What a token of a source is by itself. -/
structure Lexeme (t : Token) : Prop where
  ne_nil : t.text.toList ≠ []
  identifier : t.kind = .identifier → isIdentifier t.text.toList
  mark : ∀ c ∈ t.text.toList.head?, c ∈ marks → t.kind = .punctuation

theorem Cut.ne_nil {t : Token} {ts : List Token} (h : Cut atLineStart text (t :: ts)) : text ≠ [] := by
  cases h with
  | token ne _ _ _ => exact ne

theorem Cut.head? {t : Token} {ts : List Token} (h : Cut atLineStart text (t :: ts)) :
    t.text.toList.head? = text.head? := by
  cases h with
  | token ne found spelled _ => rw [spelled, List.head?_take, if_neg (classify_pos ne found).ne']

theorem lexeme_of_cut {ts : List Token} (h : Cut atLineStart text ts) : ∀ t ∈ ts, Lexeme t := by
  induction h with
  | ended => simp
  | @token atLineStart text t n ts ne found spelled later ih =>
    refine List.forall_mem_cons.2 ⟨⟨?_, fun kind => ?_, fun c hc mark => ?_⟩, ih⟩
    · rw [spelled, Ne, List.take_eq_nil_iff, not_or]
      exact ⟨(classify_pos ne found).ne', ne⟩
    · have fits := fits_of_classify ne found
      rw [kind] at fits
      exact spelled ▸ fits.1
    · rw [(Cut.token ne found spelled later).head?] at hc
      obtain ⟨rest, rfl⟩ := List.head?_eq_some_iff.1 hc
      rw [classify_mark mark] at found
      exact (Prod.mk.inj (Except.ok.inj found)).1.symm

/-- A character of a word that can start a word-like token is a letter, a digit or an underscore. -/
theorem Lexeme.isWordPart_of_startsWord {t : Token} (h : Lexeme t) (word : isWordLike t)
    (starts : startsWord t) : ∃ c ∈ t.text.toList.head?, isWordPart c := by
  obtain ⟨c, hc, character⟩ := (Option.any_eq_true _ _).1 starts
  refine ⟨c, hc, ?_⟩
  simp only [isWordChar, Bool.or_eq_true, decide_eq_true_eq] at character
  rcases character with part | rfl
  · simpa [isWordPart] using part
  · have mark := h.mark ':' hc (by decide)
    simp [isWordLike, mark] at word

theorem isChain_separate {ts : List Token} (h : Cut atLineStart text ts) : List.IsChain Separate ts := by
  induction h with
  | ended => exact .nil
  | @token atLineStart text t n ts ne found spelled later ih =>
    refine List.isChain_cons.2 ⟨fun b hb => ?_, ih⟩
    rintro wordA wordB ⟨ends, starts⟩
    obtain ⟨ts, rfl⟩ := List.head?_eq_some_iff.1 hb
    obtain ⟨c, hc, part⟩ := (lexeme_of_cut later b List.mem_cons_self).isWordPart_of_startsWord wordB starts
    rw [later.head?] at hc
    have fits := fits_of_classify ne found
    cases kind : t.kind with
    | identifier =>
      rw [kind] at fits
      rw [fits.2 c hc] at part
      cases part
    | integer | float =>
      rw [kind] at fits
      rw [fits c hc] at part
      cases part
    | string | character =>
      rw [kind, ← spelled] at fits
      rw [not_endsWord_of_endsQuoted fits] at ends
      cases ends
    | punctuation | blank => simp [isWordLike, kind] at wordA

/-- Tokens in one piece are neighbours as they were. -/
theorem separate_of_piece {ts us : List Token} (h : List.IsChain Separate ts) (within : us <:+: ts) :
    List.IsChain Separate us := by
  obtain ⟨front, back, rfl⟩ := within
  exact h.left_of_append.right_of_append

end Reflection.Source

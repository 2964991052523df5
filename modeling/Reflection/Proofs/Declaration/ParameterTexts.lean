import Reflection.Declaration.Function
import Reflection.Proofs.Signature.Chopping
import Reflection.Proofs.Signature.Outline
import Reflection.Proofs.Source.Lexemes
/-!
# Parameter lists as texts

A parameter list is read from its tokens when a class is compiled, and from its text when a method is
looked up. The tokens are cut at the commas and the default values that are tokens; the text is cut at
characters. Both give the same types for the lists of which that is all one (`Plain`,
`parameterTypes_of_parameters`).
-/

namespace Reflection.Declaration

open Reflection.Source Reflection.Text Reflection.TypeText Reflection.Signature

/-! ## Texts of tokens -/

/-- The characters of a token in a text without comments. A comment or a directive is a space there. -/
def plainChars (t : Token) : List Char :=
  if t.kind = .blank && !t.text.toList.all isSpace then [' '] else t.text.toList

/-- The text of tokens without comments. -/
def withoutComments (ts : List Token) : List Char :=
  ts.flatMap plainChars

@[simp] theorem withoutComments_nil : withoutComments [] = [] :=
  rfl

@[simp] theorem withoutComments_cons (t : Token) (ts : List Token) :
    withoutComments (t :: ts) = plainChars t ++ withoutComments ts :=
  rfl

theorem withoutComments_append (ts us : List Token) :
    withoutComments (ts ++ us) = withoutComments ts ++ withoutComments us :=
  List.flatMap_append

theorem plainChars_of_isSignificant {t : Token} (h : t.isSignificant) : plainChars t = t.text.toList := by
  rw [plainChars, if_neg]
  simp only [Token.isSignificant, decide_eq_true_eq] at h
  simp [h]

theorem isBlank_of_isSpace {c : Char} (h : isSpace c) : isBlank c := by
  simp only [isSpace, Bool.or_eq_true, decide_eq_true_eq] at h
  rcases h with ((((rfl | rfl) | rfl) | rfl) | rfl) | rfl <;> rfl

/-- A token that means nothing is blank without comments. -/
theorem isBlank_plainChars {t : Token} (h : t.isSignificant = false) : ∀ c ∈ plainChars t, isBlank c := by
  have blank : t.kind = .blank := by simpa [Token.isSignificant] using h
  rw [plainChars]
  split
  · exact List.forall_mem_singleton.2 rfl
  · rename_i spaces
    simp only [blank, decide_true, Bool.true_and, Bool.not_eq_true', Bool.not_eq_false, List.all_eq_true]
      at spaces
    exact fun c hc => isBlank_of_isSpace (spaces c hc)

theorem plainChars_ne_nil {t : Token} (h : t.text.toList ≠ []) : plainChars t ≠ [] := by
  rw [plainChars]
  split
  · simp
  · exact h

theorem isMark_of_not_isSignificant {t : Token} (h : t.isSignificant = false) (mark : String) :
    t.isMark mark = false := by
  have blank : t.kind = .blank := by simpa [Token.isSignificant] using h
  simp [Token.isMark, blank]

/-! ## Blanks between tokens -/

/-- Would the two tokens be one word if they met? Then a blank keeps them apart unless both are
word-like, for then they are written with a space between them anyhow. -/
def fuses (a b : Token) : Bool :=
  endsWord a && startsWord b && !(isWordLike a && isWordLike b)

/-- Do blanks stand between tokens only where they make no difference? `gap` says whether blanks precede
the tokens, and `previous` is the last token before them that means something. -/
def isTight (previous : Option Token) (gap : Bool) : List Token → Bool
  | [] => true
  | t :: ts =>
    if t.isSignificant then !(gap && previous.any (fuses · t)) && isTight (some t) false ts
    else isTight previous true ts

/-- Where a word `word` is followed by a token, blanks between them make no difference if it has no
characters, or the token does not go on with it. -/
theorem chop_apart {t : Token} (ne : t.text.toList ≠ []) {word : List Char}
    (apart : word ≠ [] → startsWord t = false) (rest : List Char) :
    chop word (t.text.toList ++ rest) = flush word ++ chop [] (t.text.toList ++ rest) := by
  by_cases none : word = []
  · rw [none, flush_nil, List.nil_append]
  · refine chop_of_symbol word (by simp [ne]) ?_
    rw [List.head?_append_of_ne_nil _ ne]
    exact apart none

/-- The text and the rendering of tokens have the same words if blanks make no difference. -/
theorem chop_withoutComments {ts : List Token} {previous : Option Token} {gap : Bool} {word : List Char}
    (tight : isTight previous gap ts) (nonempty : ∀ t ∈ ts, t.text.toList ≠ [])
    (separate : List.IsChain Separate ts)
    (meets : gap = false → ∀ a ∈ previous, ∀ t ∈ ts.head?, Separate a t)
    (state : word ≠ [] → previous.any endsWord) :
    (if gap then flush word ++ chop [] (withoutComments ts) else chop word (withoutComments ts)) =
      chop word (renderTokens (previous.any isWordLike) (ts.filter Token.isSignificant)) := by
  induction ts generalizing previous gap word with
  | nil =>
    cases gap with
    | true => simp [renderTokens, chop]
    | false => simp [renderTokens]
  | cons t ts ih =>
    have ne := nonempty t List.mem_cons_self
    have nonempty := fun t' ht => nonempty t' (List.mem_cons_of_mem t ht)
    obtain ⟨neighbour, later⟩ := List.isChain_cons.1 separate
    rw [isTight] at tight
    cases significant : t.isSignificant with
    | false =>
      have apart (met : true = false) : ∀ a ∈ previous, ∀ t' ∈ ts.head?, Separate a t' := absurd met (by decide)
      rw [significant, if_neg Bool.false_ne_true] at tight
      rw [List.filter_cons_of_neg (by simp [significant]), ← ih tight nonempty later apart state,
        withoutComments_cons, chop_blanks _ (isBlank_plainChars significant) (plainChars_ne_nil ne)]
      cases gap with
      | true => simp
      | false => simp [chop_blanks _ (isBlank_plainChars significant) (plainChars_ne_nil ne)]
    | true =>
      rw [significant, if_pos rfl, Bool.and_eq_true] at tight
      rw [List.filter_cons_of_pos significant, withoutComments_cons, plainChars_of_isSignificant significant,
        renderTokens]
      -- Behind this token both texts go on alike, whatever word it ends in.
      have goesOn : ∀ word, chop word (t.text.toList ++ withoutComments ts) =
          chop word (t.text.toList ++ renderTokens (isWordLike t) (ts.filter Token.isSignificant)) := by
        intro word
        have ends : pending word t.text.toList ≠ [] → (some t).any endsWord :=
          fun pends => isWordChar_of_pending pends ne
        have meets : false = false → ∀ a ∈ some t, ∀ t' ∈ ts.head?, Separate a t' := by
          rintro - a ⟨⟩
          exact neighbour
        have same := ih tight.2 nonempty later meets ends
        rw [if_neg Bool.false_ne_true] at same
        exact chop_append_congr same
      -- In front of it one of them has a space that the other does not have only where two words do not meet.
      have parts : word ≠ [] → startsWord t → ∃ a, previous = some a ∧ endsWord a := by
        intro some _
        obtain ⟨a, known, ends⟩ := (Option.any_eq_true _ _).1 (state some)
        exact ⟨a, known, ends⟩
      by_cases space : (isWordLike t && previous.any isWordLike) = true
      · rw [if_pos space, List.singleton_append, chop_blank word rfl, ← goesOn]
        cases gap with
        | true => rfl
        | false =>
          refine chop_apart ne (fun some => ?_) _
          rw [← Bool.not_eq_true]
          intro starts
          obtain ⟨a, rfl, ends⟩ := parts some starts
          rw [Bool.and_eq_true] at space
          exact meets rfl a rfl t rfl space.2 space.1 ⟨ends, starts⟩
      · rw [if_neg space, List.nil_append, ← goesOn]
        cases gap with
        | false => rfl
        | true =>
          refine (chop_apart ne (fun some => ?_) _).symm
          rw [← Bool.not_eq_true]
          intro starts
          obtain ⟨a, rfl, ends⟩ := parts some starts
          have fused : fuses a t := by
            rw [Option.any_some, Bool.and_comm] at space
            simp [fuses, ends, starts, space]
          simp [fused] at tight

/-! ## Commas -/

theorem isWhole_of_blank {text : List Char} (h : ∀ c ∈ text, isBlank c) : isWhole ',' 0 text := by
  have none : outline ',' text = outline ',' [] := outline_of_blank separates_comma h
  rw [isWhole_congr none]
  rfl

/-- The text of a mark. -/
theorem text_of_isMark {t : Token} {mark : String} (h : t.isMark mark) :
    plainChars t = mark.toList := by
  simp only [Token.isMark, Bool.and_eq_true, decide_eq_true_eq] at h
  rw [plainChars_of_isSignificant (by simp [Token.isSignificant, h.1]), h.2]

/-- The number of brackets that are open behind a token. -/
def depthBehind (depth : Int) (t : Token) : Int :=
  if opensGroup t || t.isMark "<" then depth + 1
  else if t.isMark ")" || t.isMark "]" || t.isMark "\x7d" || t.isMark ">" then depth - 1
  else depth

/-- What a mark of a single character does where a list is cut. -/
theorem marks_of_singleton {t : Token} (kind : t.kind = .punctuation) {c : Char}
    (text : t.text.toList = [c]) :
    t.isMark "," = decide (c = ',') ∧ ∀ depth : Int, depthBehind depth t =
      if isOpening c then depth + 1 else if isClosing c then depth - 1 else depth := by
  have mark : ∀ (mark : String) (x : Char), mark.toList = [x] → t.isMark mark = decide (c = x) := by
    intro mark x single
    have same : t.text = mark ↔ c = x := by
      rw [← String.toList_inj, text, single]
      simp
    simp [Token.isMark, kind, same]
  have opens : (opensGroup t || t.isMark "<") = isOpening c := by
    rw [opensGroup, isOpening, mark "(" '(' (by decide), mark "[" '[' (by decide),
      mark "\x7b" '\x7b' (by decide), mark "<" '<' (by decide)]
    grind
  have shuts : (t.isMark ")" || t.isMark "]" || t.isMark "\x7d" || t.isMark ">") = isClosing c := by
    rw [isClosing, mark ")" ')' (by decide), mark "]" ']' (by decide), mark "\x7d" '\x7d' (by decide),
      mark ">" '>' (by decide)]
    grind
  refine ⟨mark "," ',' (by decide), fun depth => ?_⟩
  rw [depthBehind, opens, shuts]

theorem cutCommas_cons {t : Token} {depth : Int} (stays : t.isMark "," = false ∨ depth ≠ 0)
    (ts : List Token) :
    cutCommas depth (t :: ts) =
      (t :: (cutCommas (depthBehind depth t) ts).1, (cutCommas (depthBehind depth t) ts).2) := by
  rw [cutCommas, if_neg]
  · rfl
  · rcases stays with noComma | inside
    · simp [noComma]
    · simp [inside]

theorem cutCommas_comma {t : Token} (comma : t.isMark ",") (ts : List Token) :
    cutCommas 0 (t :: ts) = ([], (cutCommas 0 ts).1 :: (cutCommas 0 ts).2) := by
  rw [cutCommas, if_pos (by simp [comma])]

/-- Does a token leave a list in one piece, and as many brackets open as before it? A comma does if
`depth`, the number of brackets that are open, is not zero. -/
def isInert (depth : Int) (t : Token) : Bool :=
  closes 0 (plainChars t) && (depth ≠ 0 || isWhole ',' 0 (plainChars t))

/-- Are brackets, and commas outside brackets, tokens of their own, except for brackets that are closed
within the same token and commas between these? -/
def isSigned (depth : Int) : List Token → Bool
  | [] => true
  | t :: ts => (t.text.toList.length = 1 || isInert depth t) && isSigned (depthBehind depth t) ts

/-- An inert token is no bracket, and a comma only inside brackets. -/
theorem cutCommas_of_isInert {t : Token} {depth : Int} (h : isInert depth t) :
    depthBehind depth t = depth ∧ ∀ ts, cutCommas depth (t :: ts) =
      (t :: (cutCommas depth ts).1, (cutCommas depth ts).2) := by
  rw [isInert, Bool.and_eq_true] at h
  have noBracket : ∀ mark : String, closes 0 mark.toList = false → t.isMark mark = false := by
    intro mark opens
    rw [← Bool.not_eq_true]
    intro isMark
    rw [← text_of_isMark isMark, h.1] at opens
    cases opens
  have stays : t.isMark "," = false ∨ depth ≠ 0 := by
    rw [or_iff_not_imp_right, not_not]
    rintro rfl
    rw [← Bool.not_eq_true]
    intro comma
    rw [text_of_isMark comma] at h
    revert h
    decide
  have behind : depthBehind depth t = depth := by
    simp [depthBehind, opensGroup, noBracket "(" (by decide), noBracket "[" (by decide),
      noBracket "\x7b" (by decide), noBracket "<" (by decide), noBracket ")" (by decide),
      noBracket "]" (by decide), noBracket "\x7d" (by decide), noBracket ">" (by decide)]
  exact ⟨behind, fun ts => by rw [cutCommas_cons stays, behind]⟩

/-- A token that is not inert is a mark. -/
theorem mark_of_not_isInert {t : Token} (lexeme : Lexeme t) {depth : Int}
    (signed : t.text.toList.length = 1 || isInert depth t) (h : isInert depth t = false) :
    t.kind = .punctuation ∧ ∃ c, t.text.toList = [c] ∧ (isOpening c ∨ isClosing c ∨ c = ',' ∧ depth = 0) := by
  cases significant : t.isSignificant with
  | false =>
    have whole := isWhole_of_blank (isBlank_plainChars significant)
    simp [isInert, whole, closes_of_isWhole whole] at h
  | true =>
    rw [h, Bool.or_false, decide_eq_true_eq] at signed
    obtain ⟨c, text⟩ := List.length_eq_one_iff.1 signed
    have sign : isOpening c ∨ isClosing c ∨ c = ',' ∧ depth = 0 := by
      rw [isInert, plainChars_of_isSignificant significant, text] at h
      simp only [closes, isWhole] at h
      grind
    refine ⟨lexeme.mark c (by rw [text]; rfl) ?_, c, text, sign⟩
    simp only [isOpening, isClosing, Bool.or_eq_true, decide_eq_true_eq] at sign
    rcases sign with (((rfl | rfl) | rfl) | rfl) | (((rfl | rfl) | rfl) | rfl) | ⟨rfl, -⟩ <;> decide

/-- The text of tokens is cut at the commas at which the tokens are. -/
theorem splitParts_withoutComments {ts : List Token} (lexeme : ∀ t ∈ ts, Lexeme t) {depth : Nat}
    (signed : isSigned depth ts) (closed : (splitParts ',' depth (withoutComments ts)).isSome) :
    splitParts ',' depth (withoutComments ts) =
      some (withoutComments (cutCommas depth ts).1, (cutCommas depth ts).2.map withoutComments) := by
  induction ts generalizing depth with
  | nil =>
    have none : depth = 0 := by simpa [isSome_splitParts, closes] using closed
    rw [withoutComments_nil, splitParts, if_pos none]
    rfl
  | cons t ts ih =>
    rw [isSigned, Bool.and_eq_true] at signed
    rw [withoutComments_cons] at closed ⊢
    -- Behind the token, `d` brackets are open.
    have ih : ∀ {d : Nat}, depthBehind depth t = d → (splitParts ',' d (withoutComments ts)).isSome →
        splitParts ',' d (withoutComments ts) =
          some (withoutComments (cutCommas d ts).1, (cutCommas d ts).2.map withoutComments) :=
      fun behind closed => ih (fun t' h => lexeme t' (List.mem_cons_of_mem t h)) (behind ▸ signed.2) closed
    cases inert : isInert depth t with
    | true =>
      obtain ⟨behind, cut⟩ := cutCommas_of_isInert inert
      have uncut : Uncut ',' depth (plainChars t) := by
        simp only [isInert, Bool.and_eq_true, Bool.or_eq_true, decide_eq_true_eq] at inert
        rcases inert.2 with inside | whole
        · exact uncut_of_closes inert.1 (by omega)
        · exact uncut_of_isWhole whole
      rw [uncut, Option.isSome_map] at closed
      rw [uncut, ih behind closed, cut]
      rfl
    | false =>
      obtain ⟨kind, c, text, sign⟩ := mark_of_not_isInert (lexeme t List.mem_cons_self) signed.1 inert
      have chars : plainChars t = [c] := by
        rw [plainChars_of_isSignificant (by simp [Token.isSignificant, kind]), text]
      obtain ⟨comma, behind⟩ := marks_of_singleton kind text
      rw [chars, List.singleton_append, splitParts] at closed ⊢
      have bracket : isOpening c ∨ isClosing c → t.isMark "," = false := by
        intro bracket
        rw [comma, decide_eq_false_iff_not]
        rintro rfl
        revert bracket
        decide
      by_cases opening : isOpening c
      · rw [if_pos opening, Option.isSome_map] at closed
        have deeper : depthBehind depth t = (depth + 1 : Nat) := by simp [behind, opening]
        rw [if_pos opening, ih deeper closed, cutCommas_cons (.inl (bracket (.inl opening))), deeper]
        simp [chars]
      · rw [if_neg opening] at closed ⊢
        by_cases closing : isClosing c
        · rw [if_pos closing] at closed ⊢
          split at closed
          · cases closed
          · rename_i inside
            rw [Option.isSome_map] at closed
            have outer : depthBehind depth t = (depth - 1 : Nat) := by
              rw [behind, if_neg opening, if_pos closing]
              omega
            rw [if_neg inside, ih outer closed, cutCommas_cons (.inl (bracket (.inr closing))), outer]
            simp [chars]
        · rw [if_neg closing] at closed ⊢
          obtain ⟨rfl, zero⟩ : c = ',' ∧ (depth : Int) = 0 := by simpa [opening, closing] using sign
          obtain rfl : depth = 0 := by omega
          have same : depthBehind (0 : Nat) t = (0 : Nat) := by simp [behind, opening, closing]
          rw [if_pos (by decide), Option.isSome_map] at closed
          rw [if_pos (by decide), ih same closed, zero, cutCommas_comma (by simp [comma])]
          simp

/-- A list is cut at the same commas without the tokens that mean nothing. -/
theorem cutCommas_filter (depth : Int) (ts : List Token) :
    cutCommas depth (ts.filter Token.isSignificant) =
      ((cutCommas depth ts).1.filter Token.isSignificant,
        (cutCommas depth ts).2.map (·.filter Token.isSignificant)) := by
  induction ts generalizing depth with
  | nil => rfl
  | cons t ts ih =>
    cases significant : t.isSignificant with
    | false =>
      have noMark := isMark_of_not_isSignificant significant
      rw [List.filter_cons_of_neg (by simp [significant]), ih, cutCommas_cons (.inl (noMark ","))]
      simp [depthBehind, opensGroup, noMark, significant]
    | true =>
      rw [List.filter_cons_of_pos significant]
      by_cases stays : t.isMark "," = false ∨ depth ≠ 0
      · rw [cutCommas_cons stays, cutCommas_cons stays, ih]
        simp [significant]
      · rw [not_or, Bool.not_eq_false, not_not] at stays
        obtain ⟨comma, rfl⟩ := stays
        rw [cutCommas_comma comma, cutCommas_comma comma, ih]
        rfl

theorem commaParts_filter (ts : List Token) :
    commaParts (ts.filter Token.isSignificant) =
      (commaParts ts).map (·.filter Token.isSignificant) := by
  rw [commaParts, cutCommas_filter]
  rfl

theorem infix_of_cutCommas (depth : Int) (ts : List Token) :
    (cutCommas depth ts).1 <+: ts ∧ ∀ part ∈ (cutCommas depth ts).2, part <:+: ts := by
  induction ts generalizing depth with
  | nil => simp [cutCommas]
  | cons t ts ih =>
    by_cases stays : t.isMark "," = false ∨ depth ≠ 0
    · rw [cutCommas_cons stays]
      obtain ⟨first, later⟩ := ih (depthBehind depth t)
      exact ⟨List.cons_prefix_cons.2 ⟨rfl, first⟩,
        fun part hp => (later part hp).trans (List.suffix_cons t ts).isInfix⟩
    · rw [not_or, Bool.not_eq_false, not_not] at stays
      obtain ⟨comma, rfl⟩ := stays
      rw [cutCommas_comma comma]
      obtain ⟨first, later⟩ := ih 0
      refine ⟨List.nil_prefix, List.forall_mem_cons.2 ⟨?_, fun part hp => ?_⟩⟩
      · exact first.isInfix.trans (List.suffix_cons t ts).isInfix
      · exact (later part hp).trans (List.suffix_cons t ts).isInfix

/-- A part of a list stands in it in one piece. -/
theorem infix_of_mem_commaParts {ts part : List Token} (h : part ∈ commaParts ts) : part <:+: ts := by
  obtain ⟨first, later⟩ := infix_of_cutCommas 0 ts
  rcases List.mem_cons.1 h with rfl | h
  · exact first.isInfix
  · exact later part h

/-! ## Single parameters -/

/-- The tokens of a parameter in front of its default value. -/
def declaredPart (ts : List Token) : List Token :=
  ts.takeWhile fun t => !t.isMark "="

theorem declaredPart_filter (ts : List Token) :
    declaredPart (ts.filter Token.isSignificant) = (declaredPart ts).filter Token.isSignificant := by
  have same : (fun t : Token => !t.isSignificant || !t.isMark "=") = fun t => !t.isMark "=" := by
    funext t
    cases significant : t.isSignificant with
    | true => simp
    | false => simp [isMark_of_not_isSignificant significant]
  rw [declaredPart, List.takeWhile_filter, same, declaredPart]

/-- The type of a parameter as it is declared. -/
theorem type_of_parameter {line : Nat} {ts : List Token} {p : Parameter} (h : parameter line ts = .ok p) :
    p.type = (splitParameter (render (declaredPart ts))).1 ∧ p.type ≠ "" := by
  unfold parameter at h
  split at h
  · cases h
  · dsimp only at h
    split at h
    · cases h
    · rename_i some
      cases h
      exact ⟨rfl, some⟩

/-- The text of a parameter is cut where its default value begins. -/
theorem splitParts_declaredPart {part : List Token} (closed : closes 0 (withoutComments part))
    (declared : isWhole '=' 0 (withoutComments (declaredPart part))) :
    ∃ later, splitParts '=' 0 (withoutComments part) =
      some (withoutComments (declaredPart part), later) := by
  let rest := part.dropWhile fun t => !t.isMark "="
  have whole : part = declaredPart part ++ rest := List.takeWhile_append_dropWhile.symm
  have cut : splitParts '=' 0 (withoutComments (declaredPart part) ++ withoutComments rest) = _ :=
    uncut_of_isWhole declared (withoutComments rest)
  rw [← withoutComments_append, ← whole] at cut
  have some : (splitParts '=' 0 (withoutComments rest)).isSome := by
    rw [← isSome_splitParts, cut, Option.isSome_map] at closed
    exact closed
  have none : ∀ parts ∈ splitParts '=' 0 (withoutComments rest), parts.1 = [] := by
    intro parts found
    cases e : rest with
    | nil =>
      rw [e] at found
      cases found
      rfl
    | cons t more =>
      have equals : t.isMark "=" := by
        have := List.head?_dropWhile_not (fun t : Token => !t.isMark "=") part
        rw [show part.dropWhile _ = rest from rfl, e] at this
        simpa using this
      have chars : "=".toList = ['='] := by decide
      rw [e, withoutComments_cons, text_of_isMark equals, chars, List.singleton_append, splitParts,
        if_neg (by decide), if_neg (by decide), if_pos (by decide)] at found
      obtain ⟨_, -, rfl⟩ := Option.map_eq_some_iff.1 found
      rfl
  obtain ⟨⟨first, later⟩, found⟩ := Option.isSome_iff_exists.1 some
  refine ⟨later, ?_⟩
  have : first = [] := none _ found
  rw [cut, found, this]
  simp

/-- Up to ampersands, the text and the rendering of tokens have the same tokens. -/
theorem singles_tokens_withoutComments {ts : List Token} (lexeme : ∀ t ∈ ts, Lexeme t)
    (separate : List.IsChain Separate ts) (tight : isTight none false ts) :
    singles (TypeText.tokens (withoutComments ts)) =
      singles (TypeText.tokens (render (ts.filter Token.isSignificant)).toList) := by
  rw [singles_tokens, singles_tokens, render, String.toList_ofList]
  exact chop_withoutComments tight (fun t ht => (lexeme t ht).ne_nil) separate (by simp) (by simp)

theorem singles_ne_nil {ts : List String} (h : ts ≠ []) : singles ts ≠ [] := by
  obtain ⟨t, ts, rfl⟩ := List.exists_cons_of_ne_nil h
  by_cases e : t = "&&"
  · simp [e]
  · rw [singles_cons e]
    exact List.cons_ne_nil _ _

/-- A word is not one ampersand of two. -/
theorem eq_of_singles {ts : List String} {word : String} (other : word ≠ "&")
    (h : singles ts = [word]) : ts = [word] := by
  cases ts with
  | nil => cases h
  | cons t ts =>
    by_cases e : t = "&&"
    · rw [e, singles_double] at h
      exact absurd (List.cons.inj h).1.symm other
    · rw [singles_cons e] at h
      obtain ⟨rfl, rest⟩ := List.cons.inj h
      have none : ts = [] := by_contra fun ne => singles_ne_nil ne rest
      rw [none]

/-- A parameter has the same type by its tokens and by its text. -/
theorem parameterType_of_parameter {line : Nat} {part : List Token} {p : Parameter}
    (lexeme : ∀ t ∈ part, Lexeme t) (separate : List.IsChain Separate part)
    (closed : closes 0 (withoutComments part))
    (declared : isWhole '=' 0 (withoutComments (declaredPart part)))
    (tight : isTight none false (declaredPart part))
    (notVoid : trim (withoutComments part) ≠ "void".toList)
    (h : parameter line (part.filter Token.isSignificant) = .ok p) :
    parameterType (withoutComments part) = .ok (some (TypeText.normalize p.type)) := by
  obtain ⟨type, nonempty⟩ := type_of_parameter h
  rw [declaredPart_filter] at type
  obtain ⟨later, cut⟩ := splitParts_declaredPart closed declared
  obtain ⟨first, later', trimmed, same⟩ := splitParts_trim separates_equals cut
  have inside : declaredPart part <+: part := List.takeWhile_prefix _
  have words : singles (TypeText.tokens first) =
      singles (TypeText.tokens (render ((declaredPart part).filter Token.isSignificant)).toList) := by
    rw [same]
    exact singles_tokens_withoutComments (fun t ht => lexeme t (inside.subset ht))
      (separate_of_piece separate inside.isInfix) tight
  have some : trim (withoutComments part) ≠ [] := by
    intro none
    rw [none] at trimmed
    cases trimmed
    rw [tokens_nil] at words
    have empty : TypeText.tokens (render ((declaredPart part).filter Token.isSignificant)).toList = [] := by
      by_contra ne
      exact singles_ne_nil ne words.symm
    rw [splitParameter, empty] at type
    exact nonempty type
  have known : ((trim (withoutComments part)).isEmpty ||
      decide (trim (withoutComments part) = ['v', 'o', 'i', 'd'])) = false := by
    have chars : "void".toList = ['v', 'o', 'i', 'd'] := by decide
    rw [chars] at notVoid
    simp [some, notVoid]
  rw [parameterType, known]
  simp only [trimmed, type]
  rw [← String.toList_ofList (l := first)] at words
  rw [if_neg Bool.false_ne_true, normalize_splitParameter_congr words]

/-! ## Parameter lists -/

/-- A parameter list that is read alike from its tokens and from its text. -/
structure Plain (list : List Token) : Prop where
  /-- Brackets, and commas outside brackets, are tokens of their own, except for brackets that are closed
  within the same token and commas between these. -/
  signed : isSigned 0 list
  /-- Brackets are closed, whatever their shape. -/
  closed : closes 0 (withoutComments list)
  /-- In front of a default value, brackets are closed and there is no equals sign outside them. -/
  declared : ∀ part ∈ commaParts list, isWhole '=' 0 (withoutComments (declaredPart part))
  /-- In front of a default value, blanks do not cut words at a colon. -/
  tight : ∀ part ∈ commaParts list, isTight none false (declaredPart part)
  /-- A parameter that is `void` and nothing else is the only one. -/
  alone : ∀ part ∈ commaParts list, trim (withoutComments part) = "void".toList →
    ∃ v, list.filter Token.isSignificant = [v] ∧ v.text = "void"

theorem isBlank_withoutComments {ts : List Token} (h : ts.filter Token.isSignificant = []) :
    ∀ c ∈ withoutComments ts, isBlank c := by
  intro c hc
  obtain ⟨t, ht, hc⟩ := List.mem_flatMap.1 hc
  exact isBlank_plainChars (by simpa using List.filter_eq_nil_iff.1 h t ht) c hc

theorem subset_renderTokens {ts : List Token} {t : Token} (h : t ∈ ts) (afterWord : Bool) :
    t.text.toList ⊆ renderTokens afterWord ts := by
  induction ts generalizing afterWord with
  | nil => cases h
  | cons u ts ih =>
    rw [renderTokens]
    intro c hc
    rcases List.mem_cons.1 h with rfl | h
    · exact List.mem_append_right _ (List.mem_append_left _ hc)
    · exact List.mem_append_right _ (List.mem_append_right _ (ih h _ hc))

/-- A parameter that is rendered as `void` has this text. -/
theorem trim_of_render_void {part : List Token} (lexeme : ∀ t ∈ part, Lexeme t)
    (separate : List.IsChain Separate part) (tight : isTight none false (declaredPart part))
    (void : render (part.filter Token.isSignificant) = "void") :
    trim (withoutComments part) = "void".toList := by
  have noEquals : declaredPart part = part := by
    refine List.takeWhile_eq_self_iff.2 fun t ht => ?_
    cases significant : t.isSignificant with
    | false => simp [isMark_of_not_isSignificant significant]
    | true =>
      rw [Bool.not_eq_true', ← Bool.not_eq_true]
      intro equals
      have mem := subset_renderTokens (List.mem_filter.2 ⟨ht, significant⟩) false
      rw [← plainChars_of_isSignificant significant, text_of_isMark equals] at mem
      have inside : '=' ∈ "void".toList := by
        rw [← void, render, String.toList_ofList]
        exact mem (by decide)
      revert inside
      decide
  rw [noEquals] at tight
  have same := singles_tokens_withoutComments lexeme separate tight
  have letters : ∀ c ∈ "void".toList, isWordChar c := List.all_eq_true.1 (by decide)
  have word : singles (TypeText.tokens "void".toList) = ["void"] := by
    rw [tokens_of_word (by decide) letters, String.ofList_toList, singles_cons (by decide), singles_nil]
  rw [void, word] at same
  obtain ⟨front, back, e, before, behind⟩ := surrounded_of_tokens (eq_of_singles (by decide) same)
  have visible : ∀ c ∈ "void".toList, isBlank c = false :=
    fun c hc => not_isBlank_of_isWordChar (letters c hc)
  rw [e, trim_surrounded before behind (by decide) (fun c hc => visible c (List.mem_of_mem_head? hc))
    fun c hc => visible c (List.mem_of_mem_getLast? hc)]

/-- A list is read as no parameters, or parameter by parameter. -/
theorem parameters_cases {line : Nat} {ts : List Token} {params : List Parameter}
    (h : parameters line ts = .ok params) :
    (∃ only, commaParts ts = [only] ∧ (only = [] ∨ render only = "void") ∧ params = []) ∨
      (∀ only, commaParts ts = [only] → render only ≠ "void") ∧
        (commaParts ts).mapM (parameter line) = .ok params := by
  unfold parameters at h
  split at h
  · rename_i only single
    split at h
    · rename_i empty
      rw [Bool.or_eq_true, List.isEmpty_iff, decide_eq_true_eq] at empty
      exact .inl ⟨only, single, empty, (Except.ok.inj h).symm⟩
    · rename_i some
      rw [Bool.or_eq_true, List.isEmpty_iff, decide_eq_true_eq, not_or] at some
      refine .inr ⟨fun other e => ?_, by rwa [single]⟩
      rw [single] at e
      rw [← (List.cons.inj e).1]
      exact some.2
  · rename_i several
    exact .inr ⟨fun only e => absurd e (several only), h⟩

variable {list : List Token} (lexeme : ∀ t ∈ list, Lexeme t) (separate : List.IsChain Separate list)
  (plain : Plain list)

include lexeme plain in
theorem splitParts_of_plain : splitParts ',' 0 (withoutComments list) =
    some (withoutComments (cutCommas 0 list).1, (cutCommas 0 list).2.map withoutComments) := by
  have some : (splitParts ',' 0 (withoutComments list)).isSome = _ := isSome_splitParts
  exact splitParts_withoutComments lexeme plain.signed (some.trans plain.closed)

include lexeme plain in
theorem closes_of_mem_commaParts {part : List Token} (h : part ∈ commaParts list) :
    closes 0 (withoutComments part) := by
  obtain ⟨first, later, -⟩ := whole_of_splitParts (splitParts_of_plain lexeme plain)
  rcases List.mem_cons.1 h with rfl | h
  · exact closes_of_isWhole first
  · exact closes_of_isWhole (later _ (List.mem_map_of_mem h))

include lexeme plain in
theorem parameterTypes_withoutComments : parameterTypes (withoutComments list) =
    ((commaParts list).mapM fun part => parameterType (withoutComments part)).map (·.filterMap id) := by
  rw [parameterTypes, splitParts_of_plain lexeme plain]
  simp only [← List.map_cons, List.mapM_map]
  rfl

include lexeme separate plain in
/-- A list of a single part that is empty or `void` declares no types. -/
theorem parameterTypes_of_void {part : List Token} (only : commaParts list = [part])
    (void : part.filter Token.isSignificant = [] ∨ render (part.filter Token.isSignificant) = "void") :
    parameterTypes (withoutComments list) = .ok [] := by
  have mem : part ∈ commaParts list := by simp [only]
  have piece := infix_of_mem_commaParts mem
  have noType : parameterType (withoutComments part) = .ok Option.none := by
    rcases void with nothing | void
    · rw [parameterType, trim_of_blank (isBlank_withoutComments nothing)]
      rfl
    · rw [parameterType, trim_of_render_void (fun t ht => lexeme t (piece.subset ht))
        (separate_of_piece separate piece) (plain.tight part mem) void]
      rfl
  rw [parameterTypes_withoutComments lexeme plain, only, List.mapM_cons, noType]
  rfl

include lexeme separate plain in
/-- The types of a parameter list are the same by its tokens and by its text. -/
theorem parameterTypes_of_parameters {line : Nat} {params : List Parameter}
    (h : parameters line (list.filter Token.isSignificant) = .ok params) :
    parameterTypes (withoutComments list) = .ok (params.map fun p => TypeText.normalize p.type) := by
  have parts := commaParts_filter list
  rcases parameters_cases h with ⟨only, single, void, rfl⟩ | ⟨some, read⟩
  · rw [parts, List.map_eq_singleton_iff] at single
    obtain ⟨part, only, rfl⟩ := single
    exact parameterTypes_of_void lexeme separate plain only void
  · have notVoid : ∀ part ∈ commaParts list, trim (withoutComments part) ≠ "void".toList := by
      intro part mem void
      obtain ⟨v, only, text⟩ := plain.alone part mem void
      have noComma : v.isMark "," = false := by simp [Token.isMark, text]
      refine some [v] ?_ ?_
      · rw [only, commaParts, cutCommas_cons (.inl noComma)]
        rfl
      · rw [render, renderTokens, renderTokens, text, Bool.and_false, if_neg Bool.false_ne_true,
          List.nil_append, List.append_nil, String.ofList_toList]
    have each : ∀ part ∈ commaParts list, ∀ p, parameter line (part.filter Token.isSignificant) = .ok p →
        parameterType (withoutComments part) = .ok (Option.some (TypeText.normalize p.type)) := by
      intro part mem p read
      have piece := infix_of_mem_commaParts mem
      exact parameterType_of_parameter (fun t ht => lexeme t (piece.subset ht))
        (separate_of_piece separate piece) (closes_of_mem_commaParts lexeme plain mem)
        (plain.declared part mem) (plain.tight part mem) (notVoid part mem) read
    have types : (commaParts list).mapM (fun part => parameterType (withoutComments part)) =
        .ok (params.map fun p => Option.some (TypeText.normalize p.type)) := by
      rw [parts, mapM_eq_ok_iff, List.forall₂_map_left_iff] at read
      have read := (List.forall₂_and_left _ _).2 ⟨fun part (mem : part ∈ commaParts list) => mem, read⟩
      rw [mapM_eq_ok_iff, List.forall₂_map_right_iff]
      exact read.imp fun part p h => each part h.1 p h.2
    have all : (params.map fun p => Option.some (TypeText.normalize p.type)).filterMap id =
        params.map fun p => TypeText.normalize p.type := by
      rw [List.filterMap_map]
      exact congrFun List.filterMap_eq_map params
    rw [parameterTypes_withoutComments lexeme plain, types]
    exact congrArg Except.ok all

end Reflection.Declaration

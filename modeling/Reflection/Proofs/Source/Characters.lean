import Reflection.Source.Token
/-!
# Tokens, character by character

The lexer computes places in bytes. Here the same pieces are measured in characters, which is how they
are reasoned about: a lexeme is `take` of a list of characters and what follows it is `drop` of the same
list, and nothing can be cut in two. That both ways of measuring agree is shown in
`Reflection.Proofs.Source.Bytes`.
-/

namespace Reflection.Source

/-! ## Sizes -/

/-- The number of bytes of the UTF-8 encoding of `text`. -/
def byteLength (text : List Char) : Nat :=
  text.foldr (fun c n => c.utf8Size + n) 0

/-- The number of line feeds in `text`. -/
def lineFeeds (text : List Char) : Nat :=
  text.count '\n'

@[simp] theorem byteLength_append (a b : List Char) :
    byteLength (a ++ b) = byteLength a + byteLength b := by
  induction a with
  | nil => exact (Nat.zero_add _).symm
  | cons c a ih =>
    show c.utf8Size + byteLength (a ++ b) = c.utf8Size + byteLength a + byteLength b
    rw [ih, Nat.add_assoc]

@[simp] theorem lineFeeds_append (a b : List Char) :
    lineFeeds (a ++ b) = lineFeeds a + lineFeeds b :=
  List.count_append

/-- Where a pattern is found, there it stands. -/
theorem take_of_find? {pattern text : List Char} {n : Nat} (h : find? pattern text = some n) :
    text.take (n + pattern.length) = text.take n ++ pattern := by
  induction text generalizing n with
  | nil =>
    rw [find?] at h
    split at h
    · cases h
      rename_i none
      rw [List.isEmpty_iff.1 none]
      rfl
    · cases h
  | cons c text ih =>
    rw [find?] at h
    split at h
    · cases h
      rename_i front
      rw [Nat.zero_add]
      obtain ⟨rest, e⟩ := List.isPrefixOf_iff_prefix.1 front
      rw [← e]
      simp
    · obtain ⟨m, found, rfl⟩ := Option.map_eq_some_iff.1 h
      rw [Nat.add_right_comm, List.take_succ_cons, ih found, List.take_succ_cons, List.cons_append]

/-! ## Blanks -/

/-- A run of blank characters. -/
def spaceLength (text : List Char) : Nat :=
  (text.takeWhile isSpace).length

/-- All of the text up to the end of the line, which is left out. -/
def lineLength (text : List Char) : Nat :=
  (text.takeWhile (· ≠ '\n')).length

/-- A block comment, whose two opening characters are at the front. `none` if it is not closed. -/
def blockCommentLength? (text : List Char) : Option Nat :=
  (find? ['*', '/'] (text.drop 2)).map (· + 4)

/-- A directive up to the end of its line. A backslash joins the next line to it, and a block
comment inside it may span lines; one that is not closed takes all that is left. -/
def directiveLength (text : List Char) : Nat :=
  match text with
  | [] => 0
  | '\\' :: '\n' :: rest => directiveLength rest + 2
  | '\\' :: '\r' :: '\n' :: rest => directiveLength rest + 3
  | '\n' :: _ => 0
  | '/' :: '*' :: rest =>
    match find? ['*', '/'] rest with
    | some n => directiveLength (rest.drop (n + 2)) + (n + 4)
    | none => text.length
  | _ :: rest => directiveLength rest + 1
termination_by text.length
decreasing_by all_goals grind

/-! ## Literals -/

/-- What follows an opening quote, up to and including the closing one. A backslash takes the
character after it along, a line feed on its own leaves the literal unclosed. -/
def quotedLength? (quote : Char) : List Char → Option Nat
  | [] => none
  | '\\' :: rest =>
    match rest with
    | [] => none
    | _ :: rest => (quotedLength? quote rest).map (· + 2)
  | c :: rest =>
    if c = '\n' then none
    else if c = quote then some 1
    else (quotedLength? quote rest).map (· + 1)

/-- Why a raw string has no end. -/
inductive RawFault where
  /-- No opening bracket within reach, or a forbidden character before it. -/
  | delimiter
  /-- The closing bracket, delimiter and quote never come. -/
  | unclosed
deriving DecidableEq, Repr

/-- The delimiter of a raw string: what stands between its quote and its bracket. -/
def rawDelimiter? (text : List Char) : Option (List Char) :=
  match find? ['('] text with
  | none => none
  | some n =>
    let delimiter := text.take n
    if byteLength delimiter ≤ maxDelimiter
        && delimiter.all (fun c => !isSpace c && c ≠ '\\' && c ≠ ')') then
      some delimiter
    else none

/-- What follows the opening quote of a raw string, up to and including its closing quote. -/
def rawLength (text : List Char) : Except RawFault Nat :=
  match rawDelimiter? text with
  | none => .error .delimiter
  | some delimiter =>
    let closing := ')' :: (delimiter ++ ['"'])
    match find? closing (text.drop delimiter.length) with
    | none => .error .unclosed
    | some n => .ok (delimiter.length + n + closing.length)

/-- The tail of a number after its first characters, with whether it makes the number a floating
one. A digit separator counts when a hexadecimal digit follows it, and a sign counts only right
after an exponent mark. -/
def numberTail (hex afterMark : Bool) : List Char → Nat × Bool
  | [] => (0, false)
  | c :: rest =>
    if afterMark && (c = '+' || c = '-') then
      let tail := numberTail hex false rest
      (tail.1 + 1, tail.2)
    else if isExponentMark hex c then ((numberTail hex true rest).1 + 1, true)
    else if c = '.' then ((numberTail hex false rest).1 + 1, true)
    else if isWordPart c || (c = '\'' && rest.head?.any isHexDigit) then
      let tail := numberTail hex false rest
      (tail.1 + 1, tail.2)
    else (0, false)

/-- A number, with whether it is a floating one. -/
def numberLength (text : List Char) : Nat × Bool :=
  match text with
  | '0' :: 'x' :: rest | '0' :: 'X' :: rest =>
    let tail := numberTail true false rest
    (tail.1 + 2, tail.2)
  | _ => numberTail false false text

theorem numberLength_of_decimal {text : List Char} (lower : ¬ ['0', 'x'] <+: text)
    (upper : ¬ ['0', 'X'] <+: text) : numberLength text = numberTail false false text := by
  unfold numberLength
  split
  · exact absurd ⟨_, rfl⟩ lower
  · exact absurd ⟨_, rfl⟩ upper
  · rfl

/-! ## Words and punctuation -/

/-- An identifier. -/
def wordLength (text : List Char) : Nat :=
  (text.takeWhile isWordPart).length

/-- The longest punctuator at the front, or else one character. -/
def punctuationLength (text : List Char) : Nat :=
  match punctuators.find? (·.isPrefixOf text) with
  | some p => p.length
  | none => 1

/-! ## Classification -/

/-- A quoted literal whose opening quote stands after `before` characters. -/
def quoted (before : Nat) (quote : Char) (text : List Char) : Except LexFault (Kind × Nat) :=
  match quotedLength? quote (text.drop (before + 1)) with
  | some n => .ok (if quote = '"' then .string else .character, before + 1 + n)
  | none => .error (if quote = '"' then .unterminatedString else .unterminatedCharacter)

/-- A raw string whose quote stands after `before` characters. -/
def rawQuoted (before : Nat) (text : List Char) : Except LexFault (Kind × Nat) :=
  match rawLength (text.drop (before + 1)) with
  | .ok n => .ok (.string, before + 1 + n)
  | .error .delimiter => .error .invalidRawString
  | .error .unclosed => .error .unterminatedString

/-- The token at the front of a text that starts with a word: the word, or the literal that it
introduces. -/
def classifyWord (text : List Char) : Except LexFault (Kind × Nat) :=
  let n := wordLength text
  let word := text.take n
  match text.drop n with
  | '"' :: _ =>
    if rawMarks.contains word then rawQuoted n text
    else if encodingMarks.contains word then quoted n '"' text
    else .ok (.identifier, n)
  | '\'' :: _ =>
    if encodingMarks.contains word then quoted n '\'' text else .ok (.identifier, n)
  | _ => .ok (.identifier, n)

/-- Kind and length of the token at the front of a text that is not empty. A directive is one only
where nothing but blanks precedes it on its line. -/
def classify (atLineStart : Bool) (text : List Char) : Except LexFault (Kind × Nat) :=
  match text with
  | [] => .ok (.blank, 0)
  | c :: rest =>
    if isSpace c then .ok (.blank, spaceLength text)
    else if c = '/' && rest.head? = some '/' then .ok (.blank, lineLength text)
    else if c = '/' && rest.head? = some '*' then
      match blockCommentLength? text with
      | some n => .ok (.blank, n)
      | none => .error .unterminatedComment
    else if c = '#' && atLineStart then .ok (.blank, directiveLength text)
    else if isWordStart c then classifyWord text
    else if isDigit c || (c = '.' && rest.head?.any isDigit) then
      let (n, isFloat) := numberLength text
      .ok (if isFloat then .float else .integer, n)
    else if c = '"' then quoted 0 '"' text
    else if c = '\'' then quoted 0 '\'' text
    else .ok (.punctuation, punctuationLength text)

/-! ## A piece has at least one character -/

theorem spaceLength_pos {c : Char} {rest : List Char} (h : isSpace c = true) :
    0 < spaceLength (c :: rest) := by
  simp [spaceLength, h]

theorem lineLength_pos {c : Char} {rest : List Char} (h : c ≠ '\n') : 0 < lineLength (c :: rest) := by
  simp [lineLength, h]

theorem directiveLength_pos (rest : List Char) : 0 < directiveLength ('#' :: rest) := by
  rw [directiveLength]
  · exact Nat.succ_pos _
  all_goals simp

theorem blockCommentLength?_pos {text : List Char} {n : Nat} (h : blockCommentLength? text = some n) :
    0 < n := by
  obtain ⟨m, _, rfl⟩ := Option.map_eq_some_iff.1 h
  exact Nat.succ_pos _

theorem wordLength_pos {c : Char} {rest : List Char} (h : isWordStart c = true) :
    0 < wordLength (c :: rest) := by
  have : isWordPart c = true := by
    unfold isWordStart at h
    unfold isWordPart Char.isAlphanum
    rcases Bool.or_eq_true_iff.1 h with h | h <;> simp [h]
  simp [wordLength, this]

theorem numberTail_pos {c : Char} {rest : List Char} (h : isDigit c = true ∨ c = '.') :
    0 < (numberTail false false (c :: rest)).1 := by
  rw [numberTail, if_neg (by simp)]
  split
  · exact Nat.succ_pos _
  · split
    · exact Nat.succ_pos _
    · rename_i dot
      have digit : c.isDigit = true := h.resolve_right dot
      rw [if_pos (by simp [isWordPart, Char.isAlphanum, digit])]
      exact Nat.succ_pos _

theorem numberLength_pos {c : Char} {rest : List Char} (h : isDigit c = true ∨ c = '.') :
    0 < (numberLength (c :: rest)).1 := by
  unfold numberLength
  split
  · exact Nat.succ_pos _
  · exact Nat.succ_pos _
  · exact numberTail_pos h

theorem punctuationLength_pos (text : List Char) : 0 < punctuationLength text := by
  unfold punctuationLength
  split
  · rename_i p h
    have all : ∀ p ∈ punctuators, 0 < p.length := by decide
    exact all p (List.mem_of_find?_eq_some h)
  · exact Nat.one_pos

/-! ## The token at the front -/

theorem quoted_pos {before : Nat} {quote : Char} {text : List Char} {kind : Kind} {n : Nat}
    (h : quoted before quote text = .ok (kind, n)) : 0 < n := by
  unfold quoted at h
  split at h
  · cases h
    omega
  · cases h

theorem classifyWord_pos {c : Char} {rest : List Char} {kind : Kind} {n : Nat}
    (hc : isWordStart c = true) (h : classifyWord (c :: rest) = .ok (kind, n)) : 0 < n := by
  have pos : 0 < wordLength (c :: rest) := wordLength_pos hc
  dsimp only [classifyWord] at h
  split at h
  · split at h
    · unfold rawQuoted at h
      split at h
      · cases h
        omega
      · cases h
      · cases h
    · split at h
      · exact quoted_pos h
      · cases h
        exact pos
  · split at h
    · exact quoted_pos h
    · cases h
      exact pos
  · cases h
    exact pos

/-- The token or fault at the front of a text that is not empty, and what it is classified as. -/
inductive FrontToken (atLineStart : Bool) : List Char → Except LexFault (Kind × Nat) → Prop
  | space {c : Char} {rest : List Char} (space : isSpace c) :
      FrontToken atLineStart (c :: rest) (.ok (.blank, spaceLength (c :: rest)))
  | lineComment {rest : List Char} :
      FrontToken atLineStart ('/' :: '/' :: rest) (.ok (.blank, lineLength ('/' :: '/' :: rest)))
  | blockComment {rest : List Char} {n : Nat} (closed : blockCommentLength? ('/' :: '*' :: rest) = some n) :
      FrontToken atLineStart ('/' :: '*' :: rest) (.ok (.blank, n))
  | openComment {rest : List Char} :
      FrontToken atLineStart ('/' :: '*' :: rest) (.error .unterminatedComment)
  | directive {rest : List Char} (first : atLineStart) :
      FrontToken atLineStart ('#' :: rest) (.ok (.blank, directiveLength ('#' :: rest)))
  | word {c : Char} {rest : List Char} (start : isWordStart c) :
      FrontToken atLineStart (c :: rest) (classifyWord (c :: rest))
  | number {c : Char} {rest : List Char} (start : isDigit c ∨ c = '.' ∧ rest.head?.any isDigit) :
      FrontToken atLineStart (c :: rest)
        (.ok (if (numberLength (c :: rest)).2 then .float else .integer, (numberLength (c :: rest)).1))
  | literal {quote : Char} {rest : List Char} (either : quote = '"' ∨ quote = '\'') :
      FrontToken atLineStart (quote :: rest) (quoted 0 quote (quote :: rest))
  | mark {c : Char} {rest : List Char} :
      FrontToken atLineStart (c :: rest) (.ok (.punctuation, punctuationLength (c :: rest)))

/-- One case for each branch of `classify`. -/
theorem frontToken_of_classify {atLineStart : Bool} {text : List Char} {result : Except LexFault (Kind × Nat)}
    (ne : text ≠ []) (h : classify atLineStart text = result) : FrontToken atLineStart text result := by
  subst h
  -- A comment begins with two characters, the second of them at the head of the rest.
  have second {c d e : Char} {rest : List Char} (opens : c = d && rest.head? = some e) :
      ∃ more, c :: rest = d :: e :: more := by
    simp only [Bool.and_eq_true, decide_eq_true_eq] at opens
    obtain ⟨more, rfl⟩ := List.head?_eq_some_iff.1 opens.2
    exact ⟨more, by rw [opens.1]⟩
  fun_cases classify atLineStart text with
  | case1 => exact absurd rfl ne
  | case2 c rest space => exact .space space
  | case3 c rest _ opens =>
    obtain ⟨more, e⟩ := second opens
    rw [e]
    exact .lineComment
  | case4 c rest _ _ opens n closed =>
    obtain ⟨more, e⟩ := second opens
    rw [e] at closed ⊢
    rw [closed]
    exact .blockComment closed
  | case5 c rest _ _ opens unclosed =>
    obtain ⟨more, e⟩ := second opens
    rw [e] at unclosed ⊢
    rw [unclosed]
    exact .openComment
  | case6 c rest _ _ _ opens =>
    simp only [Bool.and_eq_true, decide_eq_true_eq] at opens
    obtain ⟨rfl, first⟩ := opens
    exact .directive first
  | case7 c rest _ _ _ _ start => exact .word start
  | case8 c rest _ _ _ _ _ start =>
    simp only [Bool.or_eq_true, Bool.and_eq_true, decide_eq_true_eq] at start
    exact .number start
  | case9 => exact .literal (.inl rfl)
  | case10 => exact .literal (.inr rfl)
  | case11 => exact .mark

/-- A token has at least one character. -/
theorem classify_pos {atLineStart : Bool} {text : List Char} {kind : Kind} {n : Nat}
    (ne : text ≠ []) (h : classify atLineStart text = .ok (kind, n)) : 0 < n := by
  generalize read : (Except.ok (kind, n) : Except LexFault (Kind × Nat)) = result at h
  cases frontToken_of_classify ne h with
  | space space =>
    cases read
    exact spaceLength_pos space
  | lineComment =>
    cases read
    exact lineLength_pos (by simp)
  | blockComment closed =>
    cases read
    exact blockCommentLength?_pos closed
  | openComment => cases read
  | @directive rest =>
    cases read
    exact directiveLength_pos rest
  | word start => exact classifyWord_pos start read.symm
  | number start =>
    cases read
    exact numberLength_pos (start.imp_right And.left)
  | literal => exact quoted_pos read.symm
  | mark =>
    cases read
    exact punctuationLength_pos _

/-! ## The walk -/

/-- A place in a source text. -/
structure Walk where
  /-- What is still to be read. -/
  rest : List Char
  /-- Bytes before it. -/
  offset : Nat
  /-- One more than the line feeds before it. -/
  line : Nat
  /-- Has the current line held blanks only? -/
  atLineStart : Bool
deriving Repr

/-- The start of a text. -/
def Walk.start (source : String) : Walk :=
  ⟨source.toList, 0, 1, true⟩

/-- The next token or error, and the place after it. After an error nothing follows. -/
def Walk.next (w : Walk) : Option (Except LexError Token) × Walk :=
  if w.rest.isEmpty then (none, w)
  else
    match classify w.atLineStart w.rest with
    | .error fault => (some (.error ⟨fault, w.offset⟩), { w with rest := [] })
    | .ok (kind, n) =>
      let lexeme := w.rest.take n
      let after : Walk :=
        { rest := w.rest.drop n
          offset := w.offset + byteLength lexeme
          line := w.line + lineFeeds lexeme
          atLineStart := if kind = .blank then w.atLineStart || lexeme.contains '\n' else false }
      (some (.ok ⟨kind, String.ofList lexeme, w.offset, w.line⟩), after)

/-- Whatever is yielded, less is left to be read. -/
theorem Walk.length_lt_of_next {w after : Walk} {item : Except LexError Token}
    (h : w.next = (some item, after)) : after.rest.length < w.rest.length := by
  unfold Walk.next at h
  split at h
  · cases h
  · rename_i ne
    have ne : w.rest ≠ [] := fun e => ne (by rw [e]; rfl)
    have pos : 0 < w.rest.length := List.length_pos_iff.2 ne
    split at h
    · cases h
      exact pos
    · rename_i kind n hc
      cases h
      have := classify_pos ne hc
      simp only [List.length_drop]
      omega

/-- All that is still yielded, tokens first and an error, if any, last. -/
def Walk.items (w : Walk) : List (Except LexError Token) :=
  match _h : w.next with
  | (none, _) => []
  | (some item, after) => item :: after.items
termination_by w.rest.length
decreasing_by exact Walk.length_lt_of_next _h

theorem Walk.items_of_next_none {w : Walk} (h : w.next.1 = none) : w.items = [] := by
  rw [Walk.items]
  split
  · rfl
  · rename_i e
    rw [e] at h
    cases h

theorem Walk.items_of_next_some {w : Walk} {item : Except LexError Token}
    (h : w.next.1 = some item) : w.items = item :: w.next.2.items := by
  rw [Walk.items]
  split
  · rename_i e
    rw [e] at h
    cases h
  · rename_i e
    rw [e] at h ⊢
    cases h
    rfl

theorem Walk.next_of_rest_nil {w : Walk} (h : w.rest = []) : w.next = (none, w) := by
  simp [Walk.next, h]

end Reflection.Source

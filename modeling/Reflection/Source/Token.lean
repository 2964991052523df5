import Reflection.Source.Scan
/-!
# Tokens of a source text

A `Lexer` walks over the bytes of a source text and yields its tokens one at a time. Comments and
directives are blank tokens, so the tokens of a text, put together, are the text itself. A text that
cannot be cut into tokens ends in one error, placed where the offending token starts.

Where a token ends is computed in bytes, and a step that would cut inside a character has no result
(`classify?`, `Lexer.step?`). That no step does so has to be proved, and is: `tokens_tile_source`.
-/

namespace Reflection.Source

/-- What a token is. -/
inductive Kind where
  | identifier
  | integer
  | float
  | string
  | character
  | punctuation
  /-- Blank space, a comment or a directive. -/
  | blank
deriving DecidableEq, Repr, Inhabited

/-- A classified piece of a source text. -/
structure Token where
  kind : Kind
  text : String
  /-- The place of its first character, in bytes. -/
  offset : Nat
  /-- The line of its first character, counted from one. -/
  line : Nat
deriving DecidableEq, Repr, Inhabited

namespace Token

/-- Is it the identifier `word`? -/
def isWord (t : Token) (word : String) : Bool :=
  t.kind = .identifier && t.text = word

/-- Is it the punctuation `mark`? -/
def isMark (t : Token) (mark : String) : Bool :=
  t.kind = .punctuation && t.text = mark

/-- Does it mean anything to a reader of declarations? -/
def isSignificant (t : Token) : Bool :=
  t.kind ≠ .blank

end Token

/-! ## Errors -/

/-- A piece of text that is not a token, with the byte at which it starts. -/
structure LexError where
  fault : LexFault
  offset : Nat
deriving DecidableEq, Repr

/-- The wording of a lexical error. -/
def LexError.message (e : LexError) : String :=
  match e.fault with
  | .unterminatedString => s!"unterminated string literal starting at byte {e.offset}"
  | .unterminatedCharacter => s!"unterminated character literal starting at byte {e.offset}"
  | .unterminatedComment => s!"unterminated block comment starting at byte {e.offset}"
  | .invalidRawString => s!"invalid raw string delimiter at byte {e.offset}"

/-! ## Classification -/

namespace Bytes

/-- A quoted literal whose opening quote stands after `before` bytes. -/
def quoted (before : Nat) (quote : Char) (text : Bytes) : Except LexFault (Kind × Nat) :=
  match quotedLength? quote (text.drop (before + 1)) with
  | some n => .ok (if quote = '"' then .string else .character, before + 1 + n)
  | none => .error (if quote = '"' then .unterminatedString else .unterminatedCharacter)

/-- A raw string whose quote stands after `before` bytes. -/
def rawQuoted (before : Nat) (text : Bytes) : Option (Except LexFault (Kind × Nat)) :=
  ((from? (before + 1) text).bind rawString).map fun measured =>
    measured.map fun n => (.string, before + 1 + n)

/-- The token at the front of a text that starts with a word: the word, or the literal that it
introduces. -/
def classifyWord (text : Bytes) : Option (Except LexFault (Kind × Nat)) :=
  let n := wordLength text
  (upTo? n text).bind fun word =>
    let next := (text.drop n).head?.map Char.ofUInt8
    if (rawMarks.map ascii).contains word && next = some '"' then rawQuoted n text
    else if (encodingMarks.map ascii).contains word && next = some '"' then some (quoted n '"' text)
    else if (encodingMarks.map ascii).contains word && next = some '\'' then some (quoted n '\'' text)
    else some (.ok (.identifier, n))

/-- Kind and length of the token at the front of a text that is not empty. A directive is one only
where nothing but blanks precedes it on its line. -/
def classify? (atLineStart : Bool) (text : Bytes) : Option (Except LexFault (Kind × Nat)) :=
  match text with
  | [] => some (.ok (.blank, 0))
  | b :: rest =>
    let c := Char.ofUInt8 b
    let next := rest.head?.map Char.ofUInt8
    if isSpace c then some (.ok (.blank, spaceLength text))
    else if c = '/' && next = some '/' then some (.ok (.blank, lineLength text))
    else if c = '/' && next = some '*' then
      (blockComment text).map fun measured => measured.map fun n => (.blank, n)
    else if c = '#' && atLineStart then (directiveLength? text).map fun n => .ok (.blank, n)
    else if isWordStart c then classifyWord text
    else if isDigit c || (c = '.' && next.any isDigit) then
      let (n, isFloat) := numberLength text
      some (.ok (if isFloat then .float else .integer, n))
    else if c = '"' then some (quoted 0 '"' text)
    else if c = '\'' then some (quoted 0 '\'' text)
    else (from? 0 text).map fun text => .ok (.punctuation, punctuationLength text)

/-! ## Progress -/

variable {atLineStart : Bool} {text : Bytes} {kind : Kind} {n : Nat}

theorem quoted_pos {before : Nat} {quote : Char} (h : quoted before quote text = .ok (kind, n)) : 0 < n := by
  unfold quoted at h
  split at h
  · cases h
    omega
  · cases h

theorem rawQuoted_pos {before : Nat} (h : rawQuoted before text = some (.ok (kind, n))) : 0 < n := by
  obtain ⟨measured, -, found⟩ := Option.map_eq_some_iff.1 h
  cases measured with
  | error => cases found
  | ok =>
    cases found
    omega

theorem classifyWord_pos {b : UInt8} {rest : Bytes} (start : isWordStart (Char.ofUInt8 b))
    (h : classifyWord (b :: rest) = some (.ok (kind, n))) : 0 < n := by
  obtain ⟨word, -, h⟩ := Option.bind_eq_some_iff.1 h
  dsimp only at h
  split at h
  · exact rawQuoted_pos h
  · split at h
    · exact quoted_pos (Option.some.inj h)
    · split at h
      · exact quoted_pos (Option.some.inj h)
      · cases h
        exact wordLength_pos start

/-- A token has at least one byte. -/
theorem classify?_pos (ne : text ≠ []) (h : classify? atLineStart text = some (.ok (kind, n))) : 0 < n := by
  obtain ⟨b, rest, rfl⟩ := List.exists_cons_of_ne_nil ne
  dsimp only [classify?] at h
  split at h
  · rename_i space
    cases h
    exact spaceLength_pos space
  split at h
  · rename_i slashes
    cases h
    rw [Bool.and_eq_true, decide_eq_true_eq] at slashes
    exact lineLength_pos (by simp [slashes.1])
  split at h
  · obtain ⟨measured, closed, found⟩ := Option.map_eq_some_iff.1 h
    cases measured with
    | error => cases found
    | ok =>
      cases found
      exact blockComment_pos closed
  split at h
  · rename_i hash
    obtain ⟨m, measured, found⟩ := Option.map_eq_some_iff.1 h
    cases found
    rw [Bool.and_eq_true, decide_eq_true_eq] at hash
    exact directiveLength?_pos hash.1 measured
  split at h
  · rename_i start
    exact classifyWord_pos start h
  split at h
  · rename_i start
    cases h
    rw [Bool.or_eq_true, Bool.and_eq_true, decide_eq_true_eq] at start
    exact numberLength_pos (start.imp_right And.left)
  split at h
  · exact quoted_pos (Option.some.inj h)
  split at h
  · exact quoted_pos (Option.some.inj h)
  · obtain ⟨front, -, found⟩ := Option.map_eq_some_iff.1 h
    cases found
    exact punctuationLength_pos front

end Bytes

/-! ## The walk -/

/-- A place in a source text. -/
structure Lexer where
  /-- What is still to be read. -/
  rest : Bytes
  /-- Bytes before it. -/
  offset : Nat
  /-- One more than the line feeds before it. -/
  line : Nat
  /-- Has the current line held blanks only? -/
  atLineStart : Bool
  /-- Has the walk ended? -/
  done : Bool
deriving Repr

/-- The start of a text. -/
def Lexer.start (source : String) : Lexer :=
  ⟨bytesOf source, 0, 1, true, false⟩

/-- The place behind a token of `n` bytes. -/
def Lexer.behind (l : Lexer) (kind : Kind) (n : Nat) : Lexer :=
  let lexeme := l.rest.take n
  { rest := l.rest.drop n
    offset := l.offset + n
    line := l.line + lexeme.count '\n'.toUInt8
    atLineStart := if kind = .blank then l.atLineStart || lexeme.contains '\n'.toUInt8 else false
    done := l.done }

/-- The next token or error, and the place after it. After an error nothing follows. -/
def Lexer.step? (l : Lexer) : Option (Option (Except LexError Token) × Lexer) :=
  if l.done || l.rest.isEmpty then some (none, { l with done := true })
  else
    match Bytes.classify? l.atLineStart l.rest with
    | none => none
    | some (.error fault) => some (some (.error ⟨fault, l.offset⟩), { l with done := true })
    | some (.ok (kind, length)) =>
      let n := min length l.rest.length
      (Bytes.cut? n l.rest).map fun text => (some (.ok ⟨kind, text, l.offset, l.line⟩), l.behind kind n)

/-- The next token or error, and the place after it. Every step has a result, so the end that stands
here in place of one is never met. -/
def Lexer.next (l : Lexer) : Option (Except LexError Token) × Lexer :=
  l.step?.getD (none, { l with done := true })

/-- What is left to be done. -/
def Lexer.left (l : Lexer) : Nat :=
  if l.done then 0 else l.rest.length + 1

/-- Whatever the lexer yields, less is left to be done. -/
theorem Lexer.left_lt_of_next {l after : Lexer} {item : Except LexError Token}
    (h : l.next = (some item, after)) : after.left < l.left := by
  unfold Lexer.next Lexer.step? at h
  split at h
  · cases h
  rename_i more
  rw [Bool.not_eq_true, Bool.or_eq_false_iff] at more
  have ne : l.rest ≠ [] := fun e => by simp [e] at more
  have running : l.left = l.rest.length + 1 := by rw [Lexer.left, more.1]; rfl
  split at h
  · cases h
  · cases h
    rw [running]
    exact Nat.succ_pos _
  · rename_i kind length found
    have pos := Bytes.classify?_pos ne found
    have length_pos := List.length_pos_iff.2 ne
    cases cut : Bytes.cut? (min length l.rest.length) l.rest with
    | none =>
      simp only [cut, Option.map_none, Option.getD_none] at h
      cases h
    | some text =>
      simp only [cut, Option.map_some, Option.getD_some] at h
      cases h
      have still : (l.behind kind (min length l.rest.length)).done = false := more.1
      rw [running, Lexer.left, still, if_neg Bool.false_ne_true, Lexer.behind, List.length_drop]
      omega

/-- All that the lexer still yields, tokens first and an error, if any, last. -/
def Lexer.items (l : Lexer) : List (Except LexError Token) :=
  match _h : l.next with
  | (none, _) => []
  | (some item, after) => item :: after.items
termination_by l.left
decreasing_by exact Lexer.left_lt_of_next _h

/-- Every item of a text. -/
def items (source : String) : List (Except LexError Token) :=
  (Lexer.start source).items

/-- The tokens of a text, or why it has none. -/
def tokens (source : String) : Except LexError (List Token) :=
  (items source).mapM id

/-- The tokens of a text that are not blank. -/
def significantTokens (source : String) : Except LexError (List Token) :=
  (tokens source).map (·.filter Token.isSignificant)

end Reflection.Source

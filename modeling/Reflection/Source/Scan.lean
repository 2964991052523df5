/-!
# Measuring lexemes

Each function here answers one question: how many bytes of the text in front of it belong to a piece
of a given shape. A text is in UTF-8, and places in it are computed byte by byte. Only then is something
cut out of the text, and that fails if the place is inside a character (`upTo?`, `from?`).

All character classes are ASCII: a letter outside ASCII is punctuation of its own. A byte is in a class
if it is the only byte of a character in the class.
-/

namespace Reflection.Source

/-! ## Character classes -/

/-- Space, tab, line feed, carriage return, vertical tab and form feed. -/
def isSpace (c : Char) : Bool :=
  c = ' ' || c = '\t' || c = '\n' || c = '\r' || c = '\x0b' || c = '\x0c'

/-- A character that may start an identifier. -/
def isWordStart (c : Char) : Bool :=
  c = '_' || c.isAlpha

/-- A character that may continue an identifier. -/
def isWordPart (c : Char) : Bool :=
  c = '_' || c.isAlphanum

/-- A decimal digit. -/
def isDigit (c : Char) : Bool :=
  c.isDigit

/-- A hexadecimal digit of either case. -/
def isHexDigit (c : Char) : Bool :=
  c.isDigit || ('a' ≤ c && c ≤ 'f') || ('A' ≤ c && c ≤ 'F')

/-- A character that starts the exponent of a number. -/
def isExponentMark (hex : Bool) (c : Char) : Bool :=
  if hex then c = 'p' || c = 'P' else c = 'e' || c = 'E'

/-! ## Marks -/

/-- The words that may stand right before a quote and belong to the literal. -/
def encodingMarks : List (List Char) :=
  [['L'], ['u'], ['U'], ['u', '8']]

/-- The words that may stand right before the quote of a raw string. -/
def rawMarks : List (List Char) :=
  [['R'], ['L', 'R'], ['u', 'R'], ['U', 'R'], ['u', '8', 'R']]

/-- The longest delimiter of a raw string, in bytes. -/
def maxDelimiter : Nat := 16

/-- Punctuation of more than one character, longest first. Two closing angle brackets are not
among it, so that nested argument lists close one bracket at a time. -/
def punctuators : List (List Char) :=
  [['.', '.', '.'], ['<', '<', '='], [':', ':'], ['-', '>'], ['&', '&'], ['|', '|'], ['=', '='],
   ['!', '='], ['<', '='], ['>', '='], ['<', '<'], ['+', '+'], ['-', '-'], ['+', '='], ['-', '='],
   ['*', '='], ['/', '='], ['%', '='], ['&', '='], ['|', '='], ['^', '='], ['#', '#']]

/-! ## Searching -/

/-- The number of items before the first place where `pattern` starts, if there is one. -/
def find? {α : Type} [BEq α] (pattern : List α) : List α → Option Nat
  | [] => if pattern.isEmpty then some 0 else none
  | a :: rest =>
    if pattern.isPrefixOf (a :: rest) then some 0 else (find? pattern rest).map (· + 1)

/-! ## Bytes -/

/-- A text in UTF-8. -/
abbrev Bytes := List UInt8

/-- The bytes of a text. -/
def bytesOf (text : String) : Bytes :=
  text.toUTF8.data.toList

/-- The bytes of characters that have one byte each. -/
def ascii (text : List Char) : Bytes :=
  text.map Char.toUInt8

namespace Bytes

/-- A byte that goes on with a character. -/
def isContinuation (b : UInt8) : Bool :=
  0x80 ≤ b && b < 0xc0

/-- Does a character begin here, or the text end? -/
def atCharacter : Bytes → Bool
  | [] => true
  | b :: _ => !isContinuation b

/-- The bytes up to a place, which must not be inside a character or behind the end. -/
def upTo? (n : Nat) (text : Bytes) : Option Bytes :=
  if n ≤ text.length && atCharacter (text.drop n) then some (text.take n) else none

/-- The bytes from a place on, which must not be inside a character or behind the end. -/
def from? (n : Nat) (text : Bytes) : Option Bytes :=
  if n ≤ text.length && atCharacter (text.drop n) then some (text.drop n) else none

/-- The bytes between here and a place as a text. Neither may be inside a character. -/
def cut? (n : Nat) (text : Bytes) : Option String :=
  if atCharacter text then (upTo? n text).bind fun bytes => String.fromUTF8? bytes.toByteArray else none

/-- The number of bytes of the character that begins here. -/
def characterSize : Bytes → Nat
  | [] => 1
  | b :: _ => if b < 0x80 then 1 else if b < 0xe0 then 2 else if b < 0xf0 then 3 else 4

end Bytes

/-! ## Errors -/

/-- Why a piece of text is not a token. -/
inductive LexFault where
  | unterminatedString
  | unterminatedCharacter
  | unterminatedComment
  | invalidRawString
deriving DecidableEq, Repr

namespace Bytes

/-! ## Blanks -/

/-- A run of blank characters. -/
def spaceLength (text : Bytes) : Nat :=
  (text.takeWhile fun b => isSpace (Char.ofUInt8 b)).length

/-- All of the text up to the end of the line, which is left out. -/
def lineLength (text : Bytes) : Nat :=
  (text.takeWhile fun b => Char.ofUInt8 b ≠ '\n').length

/-- The end of a block comment. -/
def commentEnd : Bytes :=
  ascii ['*', '/']

/-- A block comment, whose two opening characters are at the front. -/
def blockComment (text : Bytes) : Option (Except LexFault Nat) :=
  (from? 2 text).map fun body =>
    match find? commentEnd body with
    | some n => .ok (n + 4)
    | none => .error .unterminatedComment

/-- A directive up to the end of its line. A backslash joins the next line to it, and a block
comment inside it may span lines; one that is not closed takes all that is left. -/
def directiveLength? (text : Bytes) : Option Nat :=
  match text with
  | [] => some 0
  | b :: rest =>
    let c := Char.ofUInt8 b
    let next := rest.head?.map Char.ofUInt8
    if c = '\\' && next = some '\n' then (directiveLength? (rest.drop 1)).map (· + 2)
    else if c = '\\' && next = some '\r' && (rest.drop 1).head?.map Char.ofUInt8 = some '\n' then
      (directiveLength? (rest.drop 2)).map (· + 3)
    else if c = '\n' then some 0
    else if c = '/' && next = some '*' then
      match from? 1 rest with
      | none => none
      | some body =>
        match find? commentEnd body with
        | some n => (directiveLength? (rest.drop (n + 3))).map (· + (n + 4))
        | none => some text.length
    else (directiveLength? rest).map (· + 1)
termination_by text.length
decreasing_by all_goals simp only [List.length_drop, List.length_cons]; omega

/-! ## Literals -/

/-- What follows an opening quote, up to and including the closing one. A backslash takes the
byte after it along, a line feed on its own leaves the literal unclosed. -/
def quotedLength? (quote : Char) : Bytes → Option Nat
  | [] => none
  | b :: rest =>
    if Char.ofUInt8 b = '\\' then
      match rest with
      | [] => none
      | _ :: rest => (quotedLength? quote rest).map (· + 2)
    else if Char.ofUInt8 b = '\n' then none
    else if Char.ofUInt8 b = quote then some 1
    else (quotedLength? quote rest).map (· + 1)

/-- A byte that a delimiter of a raw string must not have. -/
def isForbidden (b : UInt8) : Bool :=
  let c := Char.ofUInt8 b
  isSpace c || c = '\\' || c = ')'

/-- What follows the opening quote of a raw string, up to and including its closing quote. The
delimiter, which stands in front of the opening bracket, stands behind the closing one too. -/
def rawString (text : Bytes) : Option (Except LexFault Nat) :=
  match find? (ascii ['(']) text with
  | none => some (.error .invalidRawString)
  | some opening =>
    if maxDelimiter < opening then some (.error .invalidRawString)
    else
      match upTo? opening text with
      | none => none
      | some delimiter =>
        if delimiter.any isForbidden then some (.error .invalidRawString)
        else
          let closing := ascii [')'] ++ delimiter ++ ascii ['"']
          (from? opening text).map fun inside =>
            match find? closing inside with
            | none => .error .unterminatedString
            | some n => .ok (opening + n + closing.length)

/-- The tail of a number after its first characters, with whether it makes the number a floating
one. A digit separator counts when a hexadecimal digit follows it, and a sign counts only right
after an exponent mark. -/
def numberTail (hex afterMark : Bool) : Bytes → Nat × Bool
  | [] => (0, false)
  | b :: rest =>
    let c := Char.ofUInt8 b
    if afterMark && (c = '+' || c = '-') then
      let tail := numberTail hex false rest
      (tail.1 + 1, tail.2)
    else if isExponentMark hex c then ((numberTail hex true rest).1 + 1, true)
    else if c = '.' then ((numberTail hex false rest).1 + 1, true)
    else if isWordPart c || (c = '\'' && (rest.head?.map Char.ofUInt8).any isHexDigit) then
      let tail := numberTail hex false rest
      (tail.1 + 1, tail.2)
    else (0, false)

/-- A number, with whether it is a floating one. -/
def numberLength (text : Bytes) : Nat × Bool :=
  match text with
  | a :: b :: rest =>
    if Char.ofUInt8 a = '0' && (Char.ofUInt8 b = 'x' || Char.ofUInt8 b = 'X') then
      let tail := numberTail true false rest
      (tail.1 + 2, tail.2)
    else numberTail false false text
  | _ => numberTail false false text

/-! ## Words and punctuation -/

/-- An identifier. -/
def wordLength (text : Bytes) : Nat :=
  (text.takeWhile fun b => isWordPart (Char.ofUInt8 b)).length

/-- The longest punctuator at the front, or else one character. -/
def punctuationLength (text : Bytes) : Nat :=
  match punctuators.find? fun p => (ascii p).isPrefixOf text with
  | some p => p.length
  | none => characterSize text

/-! ## A piece has at least one byte -/

variable {b : UInt8} {rest text : Bytes} {n : Nat}

theorem spaceLength_pos (h : isSpace (Char.ofUInt8 b)) : 0 < spaceLength (b :: rest) := by
  simp [spaceLength, h]

theorem lineLength_pos (h : Char.ofUInt8 b ≠ '\n') : 0 < lineLength (b :: rest) := by
  simp [lineLength, h]

theorem directiveLength?_pos (h : Char.ofUInt8 b = '#') (measured : directiveLength? (b :: rest) = some n) :
    0 < n := by
  rw [directiveLength?] at measured
  simp only [h, Char.reduceEq, decide_false, Bool.false_and, Bool.false_eq_true, if_false,
    Option.map_eq_some_iff] at measured
  obtain ⟨m, -, rfl⟩ := measured
  exact Nat.succ_pos m

theorem blockComment_pos (h : blockComment text = some (.ok n)) : 0 < n := by
  obtain ⟨body, -, found⟩ := Option.map_eq_some_iff.1 h
  split at found
  · cases found
    exact Nat.succ_pos _
  · cases found

theorem wordLength_pos (h : isWordStart (Char.ofUInt8 b)) : 0 < wordLength (b :: rest) := by
  have part : isWordPart (Char.ofUInt8 b) := by
    unfold isWordStart at h
    unfold isWordPart Char.isAlphanum
    rcases Bool.or_eq_true_iff.1 h with h | h <;> simp [h]
  simp [wordLength, part]

theorem numberTail_pos (h : isDigit (Char.ofUInt8 b) ∨ Char.ofUInt8 b = '.') :
    0 < (numberTail false false (b :: rest)).1 := by
  rw [numberTail, if_neg (by simp)]
  split
  · exact Nat.succ_pos _
  · split
    · exact Nat.succ_pos _
    · rename_i dot
      have digit : (Char.ofUInt8 b).isDigit := h.resolve_right dot
      rw [if_pos (by simp [isWordPart, Char.isAlphanum, digit])]
      exact Nat.succ_pos _

theorem numberLength_pos (h : isDigit (Char.ofUInt8 b) ∨ Char.ofUInt8 b = '.') : 0 < (numberLength (b :: rest)).1 := by
  unfold numberLength
  split
  · rename_i e
    cases e
    split
    · exact Nat.succ_pos _
    · exact numberTail_pos h
  · exact numberTail_pos h

theorem characterSize_pos (text : Bytes) : 0 < characterSize text := by
  fun_cases characterSize text <;> decide

theorem punctuationLength_pos (text : Bytes) : 0 < punctuationLength text := by
  unfold punctuationLength
  split
  · rename_i p h
    have all : ∀ p ∈ punctuators, 0 < p.length := by decide
    exact all p (List.mem_of_find?_eq_some h)
  · exact characterSize_pos text

end Bytes
end Reflection.Source

import Reflection.Json
import Reflection.Text.Digits
/-!
# Reading JSON

Reads a JSON text strictly by its grammar: no comments, no trailing commas, no leading zeros, no
control characters in strings. Surrogates in escapes are joined to characters; one without its
partner is allowed, but its string is then no text.
-/

namespace Reflection.Json

/-- A reader of something at the front of a text. -/
abbrev Reader (α : Type) := List Char → Option (α × List Char)

/-- The text without the blank space at its front. -/
def skipSpace (text : List Char) : List Char :=
  text.dropWhile isSpace

/-! ## Strings -/

/-- The character that a simple escape stands for. -/
def simpleEscape? : Char → Option Char
  | '"' => some '"'
  | '\\' => some '\\'
  | '/' => some '/'
  | 'b' => some '\x08'
  | 'f' => some '\x0c'
  | 'n' => some '\n'
  | 'r' => some '\r'
  | 't' => some '\t'
  | _ => none

/-- The number that four hexadecimal digits spell. -/
def hexUnit? (a b c d : Char) : Option Nat :=
  Text.digitsValue? 16 0 [a, b, c, d]

/-- Is the number the first half of a pair of surrogates? -/
def isHighSurrogate (n : Nat) : Bool :=
  0xd800 ≤ n && n ≤ 0xdbff

/-- Is the number the second half of a pair of surrogates? -/
def isLowSurrogate (n : Nat) : Bool :=
  0xdc00 ≤ n && n ≤ 0xdfff

/-- The character that two surrogates stand for. -/
def joinSurrogates (high low : Nat) : Char :=
  .ofNat (0x10000 + (high - 0xd800) * 0x400 + (low - 0xdc00))

/-- A piece of a written string: a character, or a number of 16 bits in an escape. -/
inductive Piece where
  | char (c : Char)
  | unit (n : Nat)
deriving Repr

/-- The pieces of a string after its opening quote, and what follows its closing one. -/
def readPieces : List Char → Option (List Piece × List Char)
  | [] => none
  | '"' :: rest => some ([], rest)
  | '\\' :: 'u' :: a :: b :: c :: d :: rest =>
    match hexUnit? a b c d with
    | some n => (readPieces rest).map fun (pieces, rest) => (.unit n :: pieces, rest)
    | none => none
  | '\\' :: c :: rest =>
    match simpleEscape? c with
    | some c => (readPieces rest).map fun (pieces, rest) => (.char c :: pieces, rest)
    | none => none
  | c :: rest =>
    if c.toNat < 0x20 || c = '\\' then none
    else (readPieces rest).map fun (pieces, rest) => (.char c :: pieces, rest)

/-- The text of a list of pieces, unless a surrogate has no partner. -/
def joinPieces : List Piece → Option (List Char)
  | [] => some []
  | .char c :: rest => (joinPieces rest).map (c :: ·)
  | .unit n :: rest =>
    if isHighSurrogate n then
      match rest with
      | .unit m :: rest =>
        if isLowSurrogate m then (joinPieces rest).map (joinSurrogates n m :: ·) else none
      | _ => none
    else if isLowSurrogate n then none
    else (joinPieces rest).map (.ofNat n :: ·)

/-- Reads a string after its opening quote. -/
def readString (text : List Char) : Option (Option String × List Char) :=
  (readPieces text).map fun (pieces, rest) => ((joinPieces pieces).map String.ofList, rest)

/-! ## Numbers -/

/-- Reads a fraction or an exponent after its mark: at least one digit. -/
def skipDigits (text : List Char) : Option (List Char) :=
  if text.head?.any Char.isDigit then some (text.dropWhile Char.isDigit) else none

/-- What follows the fraction at the front, if there is one, with whether there is. -/
def skipFraction (text : List Char) : Option (Bool × List Char) :=
  match text with
  | '.' :: rest => (skipDigits rest).map (true, ·)
  | _ => some (false, text)

/-- What follows the exponent at the front, if there is one, with whether there is. -/
def skipExponent (text : List Char) : Option (Bool × List Char) :=
  match text with
  | c :: rest =>
    if c = 'e' || c = 'E' then
      match rest with
      | sign :: digits =>
        (skipDigits (if sign = '+' || sign = '-' then digits else rest)).map (true, ·)
      | [] => none
    else some (false, text)
  | [] => some (false, [])

/-- Reads a number after its sign. -/
def readNumber (negative : Bool) (text : List Char) : Option (Json × List Char) :=
  let digits := text.takeWhile Char.isDigit
  match digits with
  | [] => none
  | d :: more =>
    if d = '0' && !more.isEmpty then none
    else
      match skipFraction (text.dropWhile Char.isDigit) with
      | none => none
      | some (hasFraction, rest) =>
        match skipExponent rest with
        | none => none
        | some (hasExponent, rest) =>
          match Text.digitsValue? 10 0 digits with
          | none => none
          | some n =>
            if hasFraction || hasExponent || (negative && n = 0) then some (.real, rest)
            else some (.integer (if negative then -n else n), rest)

/-! ## Values -/

/-- Reads the items of an array up to its closing bracket, the first one being required. The number
bounds how many. -/
def readItems (value : Reader Json) : Nat → Reader (List Json)
  | 0, _ => none
  | n + 1, text =>
    match value text with
    | none => none
    | some (item, rest) =>
      match skipSpace rest with
      | ',' :: rest => (readItems value n rest).map fun (items, rest) => (item :: items, rest)
      | ']' :: rest => some ([item], rest)
      | _ => none

/-- Reads a name and the colon after it. -/
def readName (text : List Char) : Option (Option String × List Char) :=
  match skipSpace text with
  | '"' :: rest =>
    match readString rest with
    | none => none
    | some (name, rest) =>
      match skipSpace rest with
      | ':' :: rest => some (name, rest)
      | _ => none
  | _ => none

/-- Reads the members of an object up to its closing bracket, the first one being required. The
number bounds how many. -/
def readMembers (value : Reader Json) : Nat → Reader (List (Option String × Json))
  | 0, _ => none
  | n + 1, text =>
    match readName text with
    | none => none
    | some (name, rest) =>
      match value rest with
      | none => none
      | some (member, rest) =>
        match skipSpace rest with
        | ',' :: rest =>
          (readMembers value n rest).map fun (members, rest) => ((name, member) :: members, rest)
        | '\x7d' :: rest => some ([(name, member)], rest)
        | _ => none

/-- Reads a value whose text starts at once. What is nested in it is read by the reader given. -/
def readStart (value : Reader Json) : Reader Json
  | 'n' :: 'u' :: 'l' :: 'l' :: rest => some (.null, rest)
  | 't' :: 'r' :: 'u' :: 'e' :: rest => some (.bool true, rest)
  | 'f' :: 'a' :: 'l' :: 's' :: 'e' :: rest => some (.bool false, rest)
  | '"' :: rest => (readString rest).map fun (s, rest) => (.string s, rest)
  | '-' :: rest => readNumber true rest
  | '[' :: rest =>
    match skipSpace rest with
    | ']' :: rest => some (.array [], rest)
    | _ => (readItems value (rest.length + 1) rest).map fun (items, rest) => (.array items, rest)
  | '\x7b' :: rest =>
    match skipSpace rest with
    | '\x7d' :: rest => some (.object [], rest)
    | _ =>
      (readMembers value (rest.length + 1) rest).map fun (members, rest) => (.object members, rest)
  | rest => readNumber false rest

/-- Reads a value. The number bounds the nesting. -/
def readValue : Nat → Reader Json
  | 0, _ => none
  | n + 1, text => readStart (readValue n) (skipSpace text)

/-- The value that a text denotes as a whole. -/
def parse? (text : String) : Option Json :=
  match readValue (text.length + 1) text.toList with
  | some (j, rest) => if (skipSpace rest).isEmpty then some j else none
  | none => none

end Reflection.Json

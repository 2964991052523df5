import Reflection.Source.Token
import Reflection.Text.Digits
/-!
# Constant expressions

The expressions that give enumerators their values: integer and character literals, names of
enumerators, round brackets, the unary operators `- + ~ !` and the binary operators
`* / % + - << >> & ^ |`. `Expression.parse?` reads one with the usual precedence, all binary
operators being left associative, and `Expression.value?` computes it in 64-bit two's complement
arithmetic.
-/

namespace Reflection.Declaration

open Reflection.Source

/-! ## Expressions -/

/-- An operator with one operand. -/
inductive UnaryOperator where
  | negate
  | plus
  | complement
  | not
deriving DecidableEq, Repr

/-- An operator with two operands. -/
inductive BinaryOperator where
  | or
  | xor
  | and
  | shiftLeft
  | shiftRight
  | add
  | subtract
  | multiply
  | divide
  | remainder
deriving DecidableEq, Repr

/-- A constant expression. Literals are kept as they are spelled. -/
inductive Expression where
  | integer (spelling : String)
  | character (spelling : String)
  | name (name : String)
  | unary (operator : UnaryOperator) (operand : Expression)
  | binary (operator : BinaryOperator) (left right : Expression)
deriving DecidableEq, Repr

/-! ## Literals -/

/-- The base and the digits of an integer literal without separators and suffix. -/
def integerDigits : List Char → Nat × List Char
  | '0' :: 'x' :: rest | '0' :: 'X' :: rest => (16, rest)
  | '0' :: 'b' :: rest | '0' :: 'B' :: rest => (2, rest)
  | '0' :: c :: rest => (8, c :: rest)
  | digits => (10, digits)

/-- Is the character part of a suffix of integer literals? -/
def isIntegerSuffix (c : Char) : Bool :=
  c = 'u' || c = 'U' || c = 'l' || c = 'L'

/-- The value of an integer literal, if it has digits and fits 64 bits. A value above the signed
range wraps. -/
def integerValue? (spelling : String) : Option Int64 :=
  let digits := spelling.toList.filter (· ≠ '\'')
  let digits := (digits.reverse.dropWhile isIntegerSuffix).reverse
  match integerDigits digits with
  | (_, []) => none
  | (base, digits) =>
    match Text.digitsValue? base 0 digits with
    | some n => if n < UInt64.size then some (.ofNat n) else none
    | none => none

/-- The value of an ASCII character. -/
def asciiValue? (c : Char) : Option Int64 :=
  if c.toNat < 128 then some (.ofNat c.toNat) else none

/-- The value of a character behind a backslash. -/
def escapeValue? (c : Char) : Option Int64 :=
  if c = 'n' then some 10 else if c = 't' then some 9 else if c = '0' then some 0 else asciiValue? c

/-- The value of a character literal that holds one ASCII character or a simple escape. -/
def characterValue? (spelling : String) : Option Int64 :=
  match ((spelling.toList.dropWhile (· ≠ '\'')).drop 1).dropLast with
  | [c] => asciiValue? c
  | [mark, c] => if mark = '\\' then escapeValue? c else none
  | _ => none

/-! ## Values -/

namespace UnaryOperator

/-- What the operator computes. -/
def apply : UnaryOperator → Int64 → Int64
  | .negate, v => -v
  | .plus, v => v
  | .complement, v => ~~~v
  | .not, v => if v = 0 then 1 else 0

end UnaryOperator

namespace BinaryOperator

/-- What the operator computes, if it is defined: no division by zero and none that overflows, no
shift outside `0 … 63`. -/
def compute? : BinaryOperator → Int64 → Int64 → Option Int64
  | .or, a, b => some (a ||| b)
  | .xor, a, b => some (a ^^^ b)
  | .and, a, b => some (a &&& b)
  | .shiftLeft, a, b => if 0 ≤ b && b < 64 then some (a <<< b) else none
  | .shiftRight, a, b => if 0 ≤ b && b < 64 then some (a >>> b) else none
  | .add, a, b => some (a + b)
  | .subtract, a, b => some (a - b)
  | .multiply, a, b => some (a * b)
  | .divide, a, b => if b = 0 || (a = Int64.minValue && b = -1) then none else some (a / b)
  | .remainder, a, b => if b = 0 || (a = Int64.minValue && b = -1) then none else some (a % b)

end BinaryOperator

/-- The value that an enumerator name has in a list of known ones: that of its last entry. -/
def lookupKey (known : List (String × Int64)) (key : String) : Option Int64 :=
  (known.reverse.find? (·.1 = key)).map (·.2)

/-- The value of an expression, if it is defined. -/
def Expression.value? (known : List (String × Int64)) : Expression → Option Int64
  | .integer spelling => integerValue? spelling
  | .character spelling => characterValue? spelling
  | .name key => lookupKey known key
  | .unary op operand => (operand.value? known).map op.apply
  | .binary op left right =>
    match left.value? known, right.value? known with
    | some a, some b => op.compute? a b
    | _, _ => none

/-! ## Parsing -/

/-- The binary operators by precedence, the loosest first. -/
def precedence : List (List BinaryOperator) :=
  [[.or], [.xor], [.and], [.shiftLeft, .shiftRight], [.add, .subtract],
   [.multiply, .divide, .remainder]]

/-- The operator that one mark writes. -/
def BinaryOperator.ofMark? : String → Option BinaryOperator
  | "|" => some .or
  | "^" => some .xor
  | "&" => some .and
  | "<<" => some .shiftLeft
  | "+" => some .add
  | "-" => some .subtract
  | "*" => some .multiply
  | "/" => some .divide
  | "%" => some .remainder
  | _ => none

/-- The binary operator at the front, with what follows it. The right shift is written as two
closing angle brackets next to each other. -/
def binaryOperator? : List Token → Option (BinaryOperator × List Token)
  | [] => none
  | t :: rest =>
    if t.kind ≠ .punctuation then none
    else if t.text = ">" then
      match rest with
      | next :: rest => if next.isMark ">" && next.offset = t.offset + 1 then some (.shiftRight, rest) else none
      | [] => none
    else (BinaryOperator.ofMark? t.text).map (·, rest)

/-- The unary operator that a mark writes. -/
def UnaryOperator.ofMark? : String → Option UnaryOperator
  | "-" => some .negate
  | "+" => some .plus
  | "~" => some .complement
  | "!" => some .not
  | _ => none

/-- The last component of a qualified name that starts with `key`, with what follows it. -/
def lastComponent? (key : String) : List Token → Option (String × List Token)
  | [] => some (key, [])
  | t :: rest =>
    if t.isMark "::" then
      match rest with
      | [] => none
      | next :: rest => lastComponent? next.text rest
    else some (key, t :: rest)

/-- A reader of something at the front of a token list. -/
abbrev Reader (α : Type) := List Token → Option (α × List Token)

/-- Applies operators of one level to `left` and what `operand` reads, as long as they follow. The
first argument bounds how many; a token list has at most as many as tokens. -/
def operatorChain (ops : List BinaryOperator) (operand : Reader Expression) :
    Nat → Expression → Reader Expression
  | 0, left, ts => some (left, ts)
  | n + 1, left, ts =>
    match binaryOperator? ts with
    | some (op, rest) =>
      if ops.contains op then
        match operand rest with
        | some (right, rest) => operatorChain ops operand n (.binary op left right) rest
        | none => none
      else some (left, ts)
    | none => some (left, ts)

/-- Reads an expression of the given levels of operators, the loosest first, over what `operand`
reads. -/
def operatorLevels (operand : Reader Expression) : List (List BinaryOperator) → Reader Expression
  | [], ts => operand ts
  | ops :: tighter, ts =>
    match operatorLevels operand tighter ts with
    | some (left, rest) => operatorChain ops (operatorLevels operand tighter) rest.length left rest
    | none => none

/-- Reads a literal, a name, an expression in round brackets, or one of these after unary
operators. The first argument bounds the nesting. -/
def operand : Nat → Reader Expression
  | 0, _ => none
  | _ + 1, [] => none
  | n + 1, t :: rest =>
    match t.kind with
    | .punctuation =>
      match UnaryOperator.ofMark? t.text with
      | some op => (operand n rest).map fun (e, rest) => (.unary op e, rest)
      | none =>
        if t.text = "(" then
          match operatorLevels (operand n) precedence rest with
          | some (e, close :: rest) => if close.isMark ")" then some (e, rest) else none
          | _ => none
        else none
    | .integer => some (.integer t.text, rest)
    | .character => some (.character t.text, rest)
    | .identifier => (lastComponent? t.text rest).map fun (key, rest) => (.name key, rest)
    | _ => none

/-- Reads a token list that is an expression as a whole. -/
def Expression.parse? (ts : List Token) : Option Expression :=
  match operatorLevels (operand ts.length) precedence ts with
  | some (e, []) => some e
  | _ => none

/-- The value of the expression that a token list writes, if it is one and has a value. -/
def evaluate? (known : List (String × Int64)) (ts : List Token) : Option Int64 :=
  (Expression.parse? ts).bind (·.value? known)

end Reflection.Declaration

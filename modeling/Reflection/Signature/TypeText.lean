import Reflection.Text.Blank
/-!
# Spelled types

A type is compared by what it means for a call and not by how it is spelled. This module cuts the
spelling of a type or of a parameter into words and symbols, separates a parameter's name from its
type, and brings a type to its normal spelling:

- blanks stand only between two words;
- a reference is dropped together with the qualifiers of what it refers to;
- without a pointer at nesting depth zero the qualifiers there are dropped, with one they stay;
- a leading run of builtin words becomes one word.
-/

namespace Reflection.TypeText

open Reflection.Text

/-! ## Words and symbols -/

/-- A character of a word: a name, possibly qualified, or a number. -/
def isWordChar (c : Char) : Bool :=
  c = '_' || c.isAlphanum || c = ':'

/-- The words and symbols of a spelled type. A double ampersand is one symbol, any other character
outside words is one by itself, and blanks only separate. -/
def tokens (text : List Char) : List String :=
  match text with
  | [] => []
  | c :: rest =>
    if isBlank c then tokens rest
    else if isWordChar c then
      String.ofList (c :: rest.takeWhile isWordChar) :: tokens (rest.dropWhile isWordChar)
    else if c = '&' && rest.head? = some '&' then "&&" :: tokens rest.tail
    else String.ofList [c] :: tokens rest
termination_by text.length
decreasing_by
  all_goals simp only [List.length_cons]
  · omega
  · have := (rest.dropWhile_sublist isWordChar).length_le
    omega
  · have := rest.length_tail
    omega
  · omega

/-- Does the token start with a character of a word? -/
def isWord (token : String) : Bool :=
  token.toList.head?.any isWordChar

/-- The characters of a token list, one space between two words that meet. -/
def renderChars (afterWord : Bool) : List String → List Char
  | [] => []
  | t :: ts =>
    let word := isWord t
    (if word && afterWord then [' '] else []) ++ (t.toList ++ renderChars word ts)

/-- A token list as text. -/
def render (ts : List String) : String :=
  String.ofList (renderChars false ts)

/-! ## Names of parameters -/

/-- A letter or underscore followed by letters, digits and underscores, all ASCII. -/
def isIdentifier (text : List Char) : Bool :=
  match text with
  | [] => false
  | c :: rest => (c = '_' || c.isAlpha) && rest.all fun c => c = '_' || c.isAlphanum

/-- The words that make up the builtin types. -/
def builtinWords : List String :=
  ["void", "bool", "char", "short", "int", "long", "float", "double", "signed", "unsigned",
   "wchar_t", "char16_t", "char32_t", "auto"]

/-- The words that qualify a type and are none by themselves. -/
def qualifierWords : List String :=
  ["const", "volatile", "struct", "class", "enum", "typename"]

/-- Is `token` something that ends or makes up a type, so that a word after it is a name? -/
def endsType (token : String) : Bool :=
  token = "*" || token = "&" || token = "&&" || token = ">"
    || (isIdentifier token.toList && !qualifierWords.contains token)

/-- Can `token` name a parameter? -/
def canName (token : String) : Bool :=
  isIdentifier token.toList && !builtinWords.contains token && !qualifierWords.contains token

/-- Separates the tokens of a parameter into those of its type and its name. The last token is the
name if it can be one and something before it makes up a type. -/
def splitTokens (ts : List String) : List String × Option String :=
  match ts.getLast? with
  | none => ([], none)
  | some last =>
    if canName last && ts.dropLast.any endsType then (ts.dropLast, some last) else (ts, none)

/-- The type and the name, if any, of a declared parameter. -/
def splitParameter (text : String) : String × Option String :=
  let (ts, name) := splitTokens (tokens text.toList)
  (render ts, name)

/-! ## Normal spelling -/

/-- Does the token only qualify the type it stands by? -/
def isQualifier (token : String) : Bool :=
  token = "const" || token = "volatile"

/-- Does the token make the type a reference? -/
def isReference (token : String) : Bool :=
  token = "&" || token = "&&"

/-- The nesting depth after a token. Closing brackets without an opening one count below zero. -/
def depthAfter (depth : Int) (token : String) : Int :=
  if token = "<" || token = "(" || token = "[" then depth + 1
  else if token = ">" || token = ")" || token = "]" then depth - 1
  else depth

/-- Is there a pointer at nesting depth zero, when `depth` brackets are open in front? -/
def hasPointer (depth : Int) : List String → Bool
  | [] => false
  | t :: ts => (depth = 0 && t = "*") || hasPointer (depthAfter depth t) ts

/-- The tokens without the qualifiers at nesting depth zero. -/
def dropQualifiers (depth : Int) : List String → List String
  | [] => []
  | t :: ts =>
    if depth = 0 && isQualifier t then dropQualifiers depth ts
    else t :: dropQualifiers (depthAfter depth t) ts

/-- The one word for a run of builtin words, if the run has a shorter spelling. -/
def builtinAlias? : List String → Option String
  | ["unsigned"] | ["unsigned", "int"] => some "uint"
  | ["unsigned", "short"] | ["unsigned", "short", "int"] => some "ushort"
  | ["unsigned", "char"] => some "uchar"
  | ["unsigned", "long"] | ["unsigned", "long", "int"] => some "ulong"
  | ["unsigned", "long", "long"] | ["unsigned", "long", "long", "int"] => some "uint64"
  | ["long", "long"] | ["long", "long", "int"] | ["signed", "long", "long"] => some "int64"
  | ["signed"] | ["signed", "int"] => some "int"
  | ["short", "int"] | ["signed", "short"] => some "short"
  | ["long", "int"] | ["signed", "long"] => some "long"
  | _ => none

/-- Gives the first run of builtin words, after leading qualifiers, its shorter spelling. -/
def collapseBuiltin (ts : List String) : List String :=
  let qualifiers := ts.takeWhile isQualifier
  let rest := ts.dropWhile isQualifier
  match builtinAlias? (rest.takeWhile builtinWords.contains) with
  | some word => qualifiers ++ word :: rest.dropWhile builtinWords.contains
  | none => ts

/-- The tokens of the normal spelling. -/
def normalizeTokens (ts : List String) : List String :=
  let bare := dropEnd isQualifier (dropEnd isReference ts)
  collapseBuiltin (if hasPointer 0 bare then bare else dropQualifiers 0 bare)

/-- The normal spelling of a type. -/
def normalize (text : String) : String :=
  render (normalizeTokens (tokens text.toList))

end Reflection.TypeText

/-!
# String literals

The text of a string literal, in which only quotes and backslashes are escaped.
-/

namespace Reflection.Declaration

/-- Drops the backslash before each escaped quote. -/
def unescapeQuotes : List Char → List Char
  | '\\' :: '"' :: rest => '"' :: unescapeQuotes rest
  | c :: rest => c :: unescapeQuotes rest
  | [] => []

/-- Makes one backslash of each two. -/
def unescapeBackslashes : List Char → List Char
  | '\\' :: '\\' :: rest => '\\' :: unescapeBackslashes rest
  | c :: rest => c :: unescapeBackslashes rest
  | [] => []

/-- What stands between the first and the last quote of a literal. -/
def betweenQuotes (literal : List Char) : List Char :=
  match literal.dropWhile (· ≠ '"') with
  | [] => literal
  | _ :: inner =>
    match inner.reverse.dropWhile (· ≠ '"') with
    | [] => inner
    | _ :: before => before.reverse

/-- The text of a string literal, without what precedes its quotes. -/
def unquote (literal : String) : String :=
  String.ofList (unescapeBackslashes (unescapeQuotes (betweenQuotes literal.toList)))

end Reflection.Declaration

/-!
# Raw string literals

A raw string literal holds its text as it is, between quotes that are marked with as many hash
signs as it takes to tell the closing quote from those in the text.
-/

namespace Reflection.Text.RawString

/-- The number of hash signs at the front. -/
def leadingHashes (text : List Char) : Nat :=
  (text.takeWhile (· = '#')).length

/-- For each quote in a text the number of hash signs after it. -/
def hashesAfterQuotes : List Char → List Nat
  | [] => []
  | c :: rest => if c = '"' then leadingHashes rest :: hashesAfterQuotes rest else hashesAfterQuotes rest

/-- The number of hash signs that mark the quotes around a text: more than follow any quote in it,
and at least one. -/
def hashes (text : List Char) : Nat :=
  (hashesAfterQuotes text).foldr max 0 + 1

/-- The literal for a text. -/
def write (text : List Char) : List Char :=
  let marks := List.replicate (hashes text) '#'
  'r' :: marks ++ '"' :: text ++ '"' :: marks

/-- The text before the first quote that is followed by `n` hash signs, and what follows those. -/
def readBody? (n : Nat) : List Char → Option (List Char × List Char)
  | [] => none
  | c :: rest =>
    if c = '"' && n ≤ leadingHashes rest then some ([], rest.drop n)
    else (readBody? n rest).map fun (text, after) => (c :: text, after)

/-- The text of the literal at the front, and what follows it. -/
def read? : List Char → Option (List Char × List Char)
  | 'r' :: rest =>
    match rest.dropWhile (· = '#') with
    | '"' :: body => readBody? (leadingHashes rest) body
    | _ => none
  | _ => none

end Reflection.Text.RawString

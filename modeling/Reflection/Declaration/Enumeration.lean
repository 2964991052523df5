import Reflection.Declaration.Bracket
import Reflection.Declaration.Constant
/-!
# Enumerations

Reads an enumeration of a class body. One without a name or without a body is skipped.
-/

namespace Reflection.Declaration

open Reflection.Source

/-- Reads the enumerators of `enumName` from the parts between its commas. `earlier` holds the
enumerators of the enumerations before it, `keys` those of this one so far, and `next` is the value
of one without an initializer. -/
def enumerators (enumName : String) (earlier : List (String × Int64)) :
    List (String × Int64) → Int64 → List (List Token) → Except LocatedFault (List (String × Int64))
  | keys, _, [] => .ok keys
  | keys, next, [] :: parts => enumerators enumName earlier keys next parts
  | keys, next, (key :: initializer) :: parts => do
    if key.kind ≠ .identifier then throw ⟨key.line, .malformedEnumerators enumName⟩
    let value ←
      match initializer with
      | [] => pure next
      | mark :: expression =>
        if mark.isMark "=" then
          match evaluate? (earlier ++ keys) expression with
          | some value => pure value
          | none => throw ⟨key.line, .enumeratorValue key.text⟩
        else throw ⟨key.line, .malformedEnumerator key.text⟩
    enumerators enumName earlier (keys ++ [(key.text, value)]) (value + 1) parts

/-- Is the token one of the words that start a class? -/
def isClassWord (t : Token) : Bool :=
  t.isWord "class" || t.isWord "struct"

/-- What stands before the body of an enumeration or after its head. -/
structure EnumHead where
  isScoped : Bool
  name : String
  after : List Token
deriving Repr

/-- Reads the head of an enumeration from what follows its keyword: a word for a scoped one, a name,
and an underlying type, each of which may be missing. -/
def enumHead (ts : List Token) : EnumHead :=
  let isScoped := ts.head?.any isClassWord
  let ts := if isScoped then ts.drop 1 else ts
  let hasName := ts.head?.any (·.kind = .identifier)
  let name := if hasName then (ts.head?.map (·.text)).getD "" else ""
  let ts := if hasName then ts.drop 1 else ts
  let after :=
    if ts.head?.any (·.isMark ":") then
      (ts.drop 1).dropWhile fun t => !(t.isMark "\x7b" || t.isMark ";" || t.isMark "\x7d")
    else ts
  ⟨isScoped, name, after⟩

/-- Reads an enumeration from what follows its keyword on line `line`, with what follows it. -/
def enumeration? (line : Nat) (earlier : List EnumDeclaration) (ts : List Token) :
    Except LocatedFault (Option EnumDeclaration × List Token) := do
  let head := enumHead ts
  match head.after with
  | [] => return (none, [])
  | opening :: rest =>
    if !opening.isMark "\x7b" then return (none, ← skipStatement (opening :: rest))
    let body ← group opening rest
    let after ← skipStatement body.after
    let keys ← enumerators head.name (earlier.flatMap (·.keys)) [] 0 (commaParts body.inside)
    if head.name = "" then return (none, after)
    return (some ⟨head.name, head.isScoped, keys, line⟩, after)

end Reflection.Declaration

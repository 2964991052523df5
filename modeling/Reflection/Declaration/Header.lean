import Reflection.Declaration.ClassBody
/-!
# Headers

Reads the annotated classes of a source text, with the namespaces that they stand in.
-/

namespace Reflection.Declaration

open Reflection.Source

/-- The name of the innermost scope, given the names of the open ones, the innermost first. Scopes
without a name leave no trace. -/
def scopeName (scopes : List String) : String :=
  "::".intercalate (scopes.reverse.filter (· ≠ ""))

/-- The name after the keyword of a namespace, and what follows it. -/
def namespaceName (ts : List Token) : String × List Token :=
  let isPart (t : Token) : Bool := t.kind = .identifier || t.isMark "::"
  let parts := (ts.takeWhile isPart).filter (·.text ≠ "inline")
  (String.join (parts.map (·.text)), ts.dropWhile isPart)

/-- Reads the classes of a file. `scopes` are the open scopes, the innermost first. The first
argument bounds the number of items; a token list has at most as many as tokens. -/
def fileItems (endLine : Nat) : Nat → List String → List Token →
    Except LocatedFault (List ClassDeclaration)
  | 0, _, _ => .ok []
  | _ + 1, _, [] => .ok []
  | n + 1, scopes, t :: rest => do
    if t.isWord "namespace" then
      let (name, after) := namespaceName rest
      if after.head?.any (·.isMark "\x7b") then
        fileItems endLine n (name :: scopes) (after.drop 1)
      else fileItems endLine n scopes (← skipStatement after)
    else
      match ← itemStart endLine t rest with
      | .ofClass start =>
        let (head, inside) ← classHead start.keyword start.after
        match head with
        | none => fileItems endLine n scopes inside
        | some head =>
          let (body, after) ← classBody endLine n (.start (scopeName scopes) head) inside
          let classes ← body.classes start.isTemplate
          return classes ++ (← fileItems endLine n scopes after)
      | .ofTemplate ts => fileItems endLine n scopes ts
      | .other =>
        if t.isWord "enum" then fileItems endLine n scopes (← skipStatement rest)
        else if t.isMark "\x7b" then fileItems endLine n ("" :: scopes) rest
        else if t.isMark "\x7d" then fileItems endLine n (scopes.drop 1) rest
        else fileItems endLine n scopes rest

/-- The annotated classes in a list of significant tokens. -/
def classesOfTokens (ts : List Token) : Except LocatedFault (List ClassDeclaration) :=
  fileItems ((ts.getLast?.map (·.line)).getD 1) (ts.length + 1) [] ts

/-- The annotated classes of the source text of a file, in the order of their heads. -/
def parse (file source : String) : Except CompileError (List ClassDeclaration) :=
  match significantTokens source with
  | .error e =>
    let before := lineAt e.offset source.toList
    .error ⟨file, before, .lexical e⟩
  | .ok ts => (classesOfTokens ts).mapError (·.inFile file)
where
  /-- The line of the byte at `offset`. -/
  lineAt (offset : Nat) : List Char → Nat
    | [] => 1
    | c :: rest =>
      if offset = 0 then 1
      else lineAt (offset - c.utf8Size) rest + (if c = '\n' then 1 else 0)

end Reflection.Declaration

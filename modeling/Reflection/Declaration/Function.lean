import Reflection.Declaration.Bracket
import Reflection.Signature
/-!
# Member functions

Reads a function's declaration from the tokens of a member: what stands before its parameter list,
the parameters, and whether `const` follows them. A member that is not a function with a return
type is no error, it is only not recorded.
-/

namespace Reflection.Declaration

open Reflection.Source

/-! ## Parts of a member -/

/-- The tokens before the parameter list and those after its opening bracket. A member whose
initializer or label comes first has none. -/
def cutAtParameters (angles : Int) : List Token → Option (List Token × List Token)
  | [] => none
  | t :: rest =>
    if angles = 0 && t.isMark "(" then some ([], rest)
    else if angles = 0 && (t.isMark "=" || t.isMark ":") then none
    else
      let angles := if t.isMark "<" then angles + 1 else if t.isMark ">" then angles - 1 else angles
      (cutAtParameters angles rest).map fun (before, after) => (t :: before, after)

/-- The tokens outside square brackets, of which `depth` are open in front. -/
def dropAttributes (depth : Int) : List Token → List Token
  | [] => []
  | t :: rest =>
    if t.isMark "[" then dropAttributes (depth + 1) rest
    else if t.isMark "]" then dropAttributes (depth - 1) rest
    else if depth = 0 then t :: dropAttributes depth rest
    else dropAttributes depth rest

/-- The words that precede a return type and do not belong to it. -/
def specifiers : List String :=
  ["virtual", "static", "inline", "explicit", "constexpr", "consteval", "extern", "mutable"]

/-- The return type that the tokens before a function's name spell, empty for a constructor. -/
def returnType (ts : List Token) : String :=
  render ((dropAttributes 0 ts).filter fun t =>
    !(t.kind = .identifier && specifiers.contains t.text))

/-! ## Parameters -/

/-- Reads one parameter. -/
def parameter (line : Nat) (ts : List Token) : Except LocatedFault Parameter :=
  if ts.any (·.isMark "...") then .error ⟨line, .variadicParameters⟩
  else
    let declared := ts.takeWhile fun t => !t.isMark "="
    let defaultArgument :=
      match ts.dropWhile fun t => !t.isMark "=" with
      | [] => none
      | _ :: value => some (render value)
    let (type, name) := TypeText.splitParameter (render declared)
    if type = "" then .error ⟨line, .malformedParameter⟩ else .ok ⟨type, name, defaultArgument⟩

/-- Reads the parameters between the brackets of a parameter list. -/
def parameters (line : Nat) (ts : List Token) : Except LocatedFault (List Parameter) :=
  match commaParts ts with
  | [only] => if only.isEmpty || render only = "void" then .ok [] else [only].mapM (parameter line)
  | parts => parts.mapM (parameter line)

/-! ## Functions -/

/-- Reads a member function from the tokens of its member. -/
def function? (kind : MethodKind) (access : Access) (ts : List Token) :
    Except LocatedFault (Option FunctionDeclaration) :=
  if ts.any (·.isWord "operator") then .ok none
  else
    match cutAtParameters 0 ts with
    | none => .ok none
    | some (before, after) =>
      match before.getLast? with
      | none => .ok none
      | some name =>
        let before := before.dropLast
        if name.kind ≠ .identifier || before.getLast?.any (·.isMark "~") then .ok none
        else
          match closeGroup? "(" ")" 0 after with
          | none => .error ⟨name.line, .unbalancedParameters name.text⟩
          | some list =>
            let type := returnType before
            if type = "" then .ok none
            else do
              let params ← parameters name.line list.inside
              if kind = .signal && TypeText.normalize type ≠ "void" then
                throw ⟨name.line, .signalReturns name.text type⟩
              return some
                { name := name.text
                  returnType := type
                  parameters := params
                  kind := kind
                  access := access
                  isConst := list.after.head?.any (·.isWord "const")
                  line := name.line }

/-- The tokens of a member and what follows it. A member ends with a semicolon, with a body, or
before the bracket that closes its class. The brackets after a name in an initializer list are not
its body; `previous` is the last token taken and `inits` whether such a list has started. -/
def memberTokens (previous : Option Token) (inits : Bool) (ts : List Token) :
    Except LocatedFault (List Token × List Token) :=
  match ts with
  | [] => .ok ([], [])
  | t :: rest =>
    if t.isMark ";" then .ok ([], rest)
    else if t.isMark "\x7d" then .ok ([], t :: rest)
    else if t.isMark "\x7b" then
      match _h : group t rest with
      | .error e => .error e
      | .ok g =>
        if inits && previous.any (fun p => p.kind = .identifier || p.isMark ">") then
          memberTokens previous inits g.after
        else
          match g.after with
          | next :: after => .ok ([], if next.isMark ";" then after else next :: after)
          | [] => .ok ([], [])
    else if t.isMark "(" || t.isMark "[" then
      match _h : group t rest with
      | .error e => .error e
      | .ok g =>
        (memberTokens (some g.close) inits g.after).map fun (taken, after) =>
          (t :: g.inside ++ g.close :: taken, after)
    else
      let inits := inits || (t.isMark ":" && previous.any (·.isMark ")"))
      (memberTokens (some t) inits rest).map fun (taken, after) => (t :: taken, after)
termination_by ts.length
decreasing_by
  · have := after_length_lt_of_group _h
    simp only [List.length_cons]; omega
  · have := after_length_lt_of_group _h
    simp only [List.length_cons]; omega
  · simp

end Reflection.Declaration

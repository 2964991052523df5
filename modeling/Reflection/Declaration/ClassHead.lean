import Reflection.Declaration.Enumeration
/-!
# Class heads

Reads what stands between the keyword of a class and its body: name, and bases. A head that does
not lead to a body declares nothing here.
-/

namespace Reflection.Declaration

open Reflection.Source

/-- The head of a class definition. -/
structure ClassHead where
  name : String
  line : Nat
  bases : List String
  isStruct : Bool
deriving DecidableEq, Repr

/-- Where a name has been read to. -/
structure HeadName where
  name : String
  line : Nat
  /-- Does the next word extend the name instead of replacing it? -/
  qualified : Bool
deriving Repr

/-- Reads the name in a class head up to the colon or curly bracket after it. `none` if something
else comes first; the tokens are then those from there on. Attributes and `final` are skipped. -/
def headName (n : HeadName) (ts : List Token) :
    Except LocatedFault (Option HeadName × List Token) :=
  match ts with
  | [] => .ok (none, [])
  | t :: rest =>
    if t.kind = .identifier then
      if t.text = "final" then headName n rest
      else
        let name := if n.qualified then n.name ++ t.text else t.text
        headName ⟨name, t.line, false⟩ rest
    else if t.isMark "::" then headName { n with name := n.name ++ "::", qualified := true } rest
    else if t.isMark "(" || t.isMark "[" then
      match _h : group t rest with
      | .ok g => headName n g.after
      | .error e => .error e
    else if t.isMark ":" || t.isMark "\x7b" then .ok (some n, t :: rest)
    else .ok (none, t :: rest)
termination_by ts.length
decreasing_by
  all_goals first
    | (have shorter := after_length_lt_of_group _h; simp only [List.length_cons]; omega)
    | simp

/-- The parts of a base list between its commas, with `angles` angle brackets open in front, and
what follows the list. Round groups are left out. -/
def baseParts (unterminated : LocatedFault) (angles : Int) (ts : List Token) :
    Except LocatedFault (List Token × List (List Token) × List Token) :=
  match ts with
  | [] => .error unterminated
  | t :: rest =>
    if angles = 0 && (t.isMark "\x7b" || t.isMark ";") then .ok ([], [], t :: rest)
    else if angles = 0 && t.isMark "," then
      (baseParts unterminated angles rest).map fun (first, later, after) => ([], first :: later, after)
    else if t.isMark "(" then
      match _h : group t rest with
      | .ok g => baseParts unterminated angles g.after
      | .error e => .error e
    else
      let angles := if t.isMark "<" then angles + 1 else if t.isMark ">" then angles - 1 else angles
      (baseParts unterminated angles rest).map fun (first, later, after) => (t :: first, later, after)
termination_by ts.length
decreasing_by
  all_goals first
    | (have shorter := after_length_lt_of_group _h; simp only [List.length_cons]; omega)
    | simp

/-- The words in a base list that say how a class derives from a base. -/
def inheritanceWords : List String :=
  ["public", "protected", "private", "virtual"]

/-- A base as written, without the words that say how the class derives from it. -/
def baseText (ts : List Token) : String :=
  render (ts.filter fun t => !(t.kind = .identifier && inheritanceWords.contains t.text))

/-- Reads a class head from its keyword and what follows it. With a head, the tokens are those
inside the body and after it; without one, those from where it turned out to be none. -/
def classHead (keyword : Token) (ts : List Token) :
    Except LocatedFault (Option ClassHead × List Token) := do
  let (name, ts) ← headName ⟨"", keyword.line, false⟩ ts
  match name with
  | none => return (none, ts)
  | some n =>
    let (bases, ts) ←
      match ts with
      | [] => pure ([], [])
      | t :: rest =>
        if t.isMark ":" then do
          let (first, later, after) ← baseParts ⟨n.line, .unterminatedBases n.name⟩ 0 rest
          pure (((first :: later).map baseText).filter (· ≠ ""), after)
        else pure ([], t :: rest)
    match ts with
    | [] => return (none, [])
    | t :: rest =>
      if !t.isMark "\x7b" then return (none, t :: rest)
      if n.name = "" then
        let g ← group t rest
        return (none, g.after)
      return (some ⟨n.name, n.line, bases, keyword.text = "struct"⟩, rest)

end Reflection.Declaration

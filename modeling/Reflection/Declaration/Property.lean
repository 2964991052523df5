import Reflection.Declaration.Bracket
/-!
# Properties

Reads the arguments of a property marker: a type, a name, and attributes.
-/

namespace Reflection.Declaration

open Reflection.Source

/-- The words that start an attribute of a property. -/
def propertyWords : List String :=
  ["READ", "WRITE", "MEMBER", "RESET", "NOTIFY", "DESIGNABLE", "STORED", "CONSTANT", "FINAL"]

/-- Is the token an attribute of a property that is known? -/
def isPropertyWord (t : Token) : Bool :=
  t.kind = .identifier && propertyWords.contains t.text

/-- Does the token look like an attribute, known or not: capital letters and underscores, more
than one of them? -/
def isCapitalWord (t : Token) : Bool :=
  t.kind = .identifier && 1 < t.text.length && t.text.toList.all fun c => c.isUpper || c = '_'

/-- Type and name, cut from the attributes. The first attribute is the first known word after the
first two tokens or, without one, the first word there that looks like an attribute. -/
def cutPropertyHead (ts : List Token) : List Token × List Token :=
  let head := ts.take 2
  let rest := ts.drop 2
  let isStart := if rest.any isPropertyWord then isPropertyWord else isCapitalWord
  (head ++ rest.takeWhile (!isStart ·), rest.dropWhile (!isStart ·))

/-- Reads the value of an attribute that is on or off. -/
def truthValue (line : Nat) (t : Token) : Except LocatedFault Bool :=
  if t.text = "true" then .ok true
  else if t.text = "false" then .ok false
  else .error ⟨line, .truthValueExpected t.text⟩

/-- Puts an attribute that has a value into a property. -/
def setPropertyWord (line : Nat) (p : PropertyDeclaration) (word value : Token) :
    Except LocatedFault PropertyDeclaration :=
  match word.text with
  | "READ" => .ok { p with read := some value.text }
  | "WRITE" => .ok { p with write := some value.text }
  | "MEMBER" => .ok { p with member := some value.text }
  | "RESET" => .ok { p with reset := some value.text }
  | "NOTIFY" => .ok { p with notify := some value.text }
  | "DESIGNABLE" => (truthValue line value).map fun b => { p with designable := b }
  | _ => (truthValue line value).map fun b => { p with stored := b }

/-- Reads attributes into a property. -/
def propertyAttributes (line : Nat) (p : PropertyDeclaration) :
    List Token → Except LocatedFault PropertyDeclaration
  | [] => .ok p
  | word :: rest =>
    if word.text = "CONSTANT" then propertyAttributes line { p with constant := true } rest
    else if word.text = "FINAL" then propertyAttributes line { p with isFinal := true } rest
    else if propertyWords.contains word.text then
      match rest with
      | value :: rest =>
        if value.kind = .identifier then do
          propertyAttributes line (← setPropertyWord line p word value) rest
        else .error ⟨line, .attributeValue word.text p.name⟩
      | [] => .error ⟨line, .attributeValue word.text p.name⟩
    else .error ⟨line, .unknownAttribute word.text p.name⟩

/-- Reads a property from the arguments of its marker. It must be readable, and a constant one has
neither a writer nor a notifier. -/
def property (line : Nat) (ts : List Token) : Except LocatedFault PropertyDeclaration := do
  let (head, attributes) := cutPropertyHead ts
  let type := head.dropLast
  match head.getLast? with
  | none => throw ⟨line, .propertyHead⟩
  | some name =>
    if name.kind ≠ .identifier || type.isEmpty then throw ⟨line, .propertyHead⟩
    let start : PropertyDeclaration := { name := name.text, type := render type, line := line }
    let p ← propertyAttributes line start attributes
    if p.read.isNone && p.member.isNone then throw ⟨line, .unreadableProperty p.name⟩
    if p.constant && (p.write.isSome || p.notify.isSome) then throw ⟨line, .constantConflict p.name⟩
    return p

end Reflection.Declaration

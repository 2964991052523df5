import Reflection.Declaration
/-!
# Brackets in token lists

Groups between matching brackets, and the ways to skip and cut a token list that respect them. A
group ends at the bracket that closes its own shape; brackets of other shapes inside it are not
looked at.
-/

namespace Reflection.Declaration

open Reflection.Source

/-! ## Groups -/

/-- What follows an opening bracket. -/
structure Group where
  /-- The tokens between the brackets. -/
  inside : List Token
  /-- The closing bracket. -/
  close : Token
  /-- The tokens after it. -/
  after : List Token
deriving Repr

/-- Adds a token in front of what stands inside a group. -/
def Group.push (t : Token) (g : Group) : Group :=
  { g with inside := t :: g.inside }

/-- Finds the end of a group when `depth` brackets of the same shape are open inside it. -/
def closeGroup? (opening closing : String) (depth : Nat) : List Token → Option Group
  | [] => none
  | t :: rest =>
    if t.isMark opening then (closeGroup? opening closing (depth + 1) rest).map (·.push t)
    else if t.isMark closing then
      if depth = 0 then some ⟨[], t, rest⟩
      else (closeGroup? opening closing (depth - 1) rest).map (·.push t)
    else (closeGroup? opening closing depth rest).map (·.push t)

theorem eq_of_closeGroup? {opening closing : String} {depth : Nat} {ts : List Token} {g : Group}
    (h : closeGroup? opening closing depth ts = some g) : ts = g.inside ++ g.close :: g.after := by
  induction ts generalizing depth g with
  | nil => simp [closeGroup?] at h
  | cons t rest ih =>
    unfold closeGroup? at h
    have pushed {d : Nat} (h : (closeGroup? opening closing d rest).map (·.push t) = some g) :
        t :: rest = g.inside ++ g.close :: g.after := by
      obtain ⟨g', hg', rfl⟩ := Option.map_eq_some_iff.1 h
      simp [Group.push, ← ih hg']
    split at h
    · exact pushed h
    · split at h
      · split at h
        · cases h; rfl
        · exact pushed h
      · exact pushed h

/-- The bracket that closes `opening`. -/
def closerOf (opening : String) : String :=
  if opening = "(" then ")" else if opening = "[" then "]" else "\x7d"

/-- The group that the bracket `opening` starts. -/
def group (opening : Token) (ts : List Token) : Except LocatedFault Group :=
  match closeGroup? opening.text (closerOf opening.text) 0 ts with
  | some g => .ok g
  | none => .error ⟨opening.line, .unbalanced opening.text⟩

theorem after_length_lt_of_group {opening : Token} {ts : List Token} {g : Group}
    (h : group opening ts = .ok g) : g.after.length < ts.length := by
  unfold group at h
  split at h
  · cases h
    rename_i h
    have := congrArg List.length (eq_of_closeGroup? h)
    simp at this
    omega
  · cases h

/-- Does the token open a round, square or curly group? -/
def opensGroup (t : Token) : Bool :=
  t.isMark "(" || t.isMark "[" || t.isMark "\x7b"

/-! ## Skipping -/

/-- What follows the current statement: after its semicolon, or before the curly bracket that
closes what encloses it. -/
def skipStatement (ts : List Token) : Except LocatedFault (List Token) :=
  match ts with
  | [] => .ok []
  | t :: rest =>
    if t.isMark ";" then .ok rest
    else if t.isMark "\x7d" then .ok (t :: rest)
    else if opensGroup t then
      match _h : group t rest with
      | .ok g => skipStatement g.after
      | .error e => .error e
    else skipStatement rest
termination_by ts.length
decreasing_by
  · have := after_length_lt_of_group _h
    simp only [List.length_cons]; omega
  · simp

/-- What follows an argument list in angle brackets of which `depth` are open. `endLine` is the
line of the last token of the file. -/
def skipAngles (endLine depth : Nat) (ts : List Token) : Except LocatedFault (List Token) :=
  match ts with
  | [] => .error ⟨endLine, .unterminatedTemplate⟩
  | t :: rest =>
    if t.isMark "<" then skipAngles endLine (depth + 1) rest
    else if t.isMark ">" then
      if depth ≤ 1 then .ok rest else skipAngles endLine (depth - 1) rest
    else if opensGroup t then
      match _h : group t rest with
      | .ok g => skipAngles endLine depth g.after
      | .error e => .error e
    else skipAngles endLine depth rest
termination_by ts.length
decreasing_by
  · simp
  · simp
  · have := after_length_lt_of_group _h
    simp only [List.length_cons]; omega
  · simp

/-! ## Cutting -/

/-- The first part and the later parts of a token list cut at the commas outside brackets of any
shape, angle brackets included, with `depth` of them open in front. -/
def cutCommas (depth : Int) : List Token → List Token × List (List Token)
  | [] => ([], [])
  | t :: rest =>
    if t.isMark "," && depth = 0 then
      let (first, later) := cutCommas depth rest
      ([], first :: later)
    else
      let depth :=
        if opensGroup t || t.isMark "<" then depth + 1
        else if t.isMark ")" || t.isMark "]" || t.isMark "\x7d" || t.isMark ">" then depth - 1
        else depth
      let (first, later) := cutCommas depth rest
      (t :: first, later)

/-- The parts of a token list between its commas. -/
def commaParts (ts : List Token) : List (List Token) :=
  let (first, later) := cutCommas 0 ts
  first :: later

/-! ## Writing tokens -/

/-- Is the token a word or a literal, so that two of them need a space between them? -/
def isWordLike (t : Token) : Bool :=
  t.kind ≠ .punctuation && t.kind ≠ .blank

/-- The characters of a token list, one space between two word-like tokens that meet. -/
def renderTokens (afterWord : Bool) : List Token → List Char
  | [] => []
  | t :: ts =>
    let word := isWordLike t
    (if word && afterWord then [' '] else []) ++ (t.text.toList ++ renderTokens word ts)

/-- A token list as text. -/
def render (ts : List Token) : String :=
  String.ofList (renderTokens false ts)

end Reflection.Declaration

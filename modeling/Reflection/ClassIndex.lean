import Reflection.Declaration
/-!
# The classes of a batch

A class index lists the annotated classes of several files, in the order of the files, and looks
them up by name. A base is looked up the way names are in the language of the headers: from the
innermost scope that encloses the class outward.
-/

namespace Reflection

/-- A class with the place of its file in the batch. -/
structure IndexedClass where
  file : Nat
  declaration : ClassDeclaration
deriving DecidableEq, Repr, Inhabited

/-- The classes of a batch. -/
structure ClassIndex where
  entries : List IndexedClass
deriving DecidableEq, Repr, Inhabited

namespace ClassIndex

/-! ## Contents -/

/-- The classes of the files from number `first` on. -/
def entriesOf (first : Nat) : List (List ClassDeclaration) → List IndexedClass
  | [] => []
  | classes :: files => classes.map (⟨first, ·⟩) ++ entriesOf (first + 1) files

/-- The index of the classes of a list of files. -/
def ofFiles (files : List (List ClassDeclaration)) : ClassIndex :=
  ⟨entriesOf 0 files⟩

/-- The number of classes. -/
def size (x : ClassIndex) : Nat :=
  x.entries.length

/-- The class with a number. -/
def get? (x : ClassIndex) (i : Nat) : Option ClassDeclaration :=
  x.entries[i]?.map (·.declaration)

/-- The name of the class with a number. -/
def nameOf (x : ClassIndex) (i : Nat) : String :=
  ((x.get? i).map (·.name)).getD ""

/-- The number of the first class with a name. -/
def find? (x : ClassIndex) (name : String) : Option Nat :=
  x.entries.findIdx? (·.declaration.name = name)

/-! ## Bases -/

/-- What precedes the last double colon of a name. -/
def outerScope? : List Char → Option (List Char)
  | [] => none
  | c :: rest =>
    match outerScope? rest with
    | some outer => some (c :: outer)
    | none => if c = ':' && rest.head? = some ':' then some [] else none

theorem length_lt_of_outerScope? {scope outer : List Char} (h : outerScope? scope = some outer) :
    outer.length < scope.length := by
  induction scope generalizing outer with
  | nil => simp [outerScope?] at h
  | cons c rest ih =>
    unfold outerScope? at h
    split at h
    · cases h
      rename_i _ hr
      have := ih hr
      simp only [List.length_cons]
      omega
    · split at h
      · cases h
        simp
      · cases h

/-- A scope and the scopes around it, the innermost first and without the global one. -/
def scopesFrom (scope : List Char) : List (List Char) :=
  if scope = [] then []
  else
    match _h : outerScope? scope with
    | some outer => scope :: scopesFrom outer
    | none => [scope]
termination_by scope.length
decreasing_by exact length_lt_of_outerScope? _h

/-- The names that a base written in `scope` may stand for, in the order they are tried. A leading
double colon leaves the global scope only. -/
def candidates (scope base : String) : List String :=
  match base.toList with
  | ':' :: ':' :: name => [String.ofList name]
  | _ => (scopesFrom scope.toList).map (fun s => String.ofList s ++ "::" ++ base) ++ [base]

/-- The class that a base written in a class stands for. -/
def resolve? (x : ClassIndex) (d : ClassDeclaration) (base : String) : Option Nat :=
  (candidates d.scope base).findSome? x.find?

/-- A name without the double colons in front of it. -/
def dropGlobal : List Char → List Char
  | ':' :: ':' :: rest => dropGlobal rest
  | name => name

/-- The name of the class that a class derives from: its first base, with all its scopes if it is
in the batch. -/
def superName? (x : ClassIndex) (d : ClassDeclaration) : Option String :=
  d.bases.head?.map fun base =>
    match x.resolve? d base with
    | some i => x.nameOf i
    | none => String.ofList (dropGlobal base.toList)

/-- The class in the batch that the first base of a class stands for. -/
def firstBase? (x : ClassIndex) (d : ClassDeclaration) : Option Nat :=
  d.bases.head?.bind (x.resolve? d)

/-- The classes reached along first bases, the nearest first, up to one seen before. The number
bounds how many. -/
def ancestorsFrom (x : ClassIndex) : Nat → List Nat → ClassDeclaration → List Nat
  | 0, _, _ => []
  | n + 1, seen, d =>
    match x.firstBase? d with
    | none => []
    | some i =>
      if seen.contains i then []
      else
        match x.get? i with
        | none => []
        | some base => i :: ancestorsFrom x n (i :: seen) base

/-- The classes in the batch that a class derives from along first bases, the nearest first. -/
def ancestors (x : ClassIndex) (d : ClassDeclaration) : List Nat :=
  x.ancestorsFrom x.size [] d

end ClassIndex
end Reflection

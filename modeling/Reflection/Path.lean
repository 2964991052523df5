/-!
# Paths

Paths are texts with slashes. Empty components and single dots mean nothing, two dots lead to the
folder above.
-/

namespace Reflection.Path

/-- A component of a path: a name, the folder itself, or the step to the folder above. -/
inductive Component where
  | name (text : String)
  | here
  | up
deriving DecidableEq, Repr

/-- The text before the first slash, and the texts between the later ones. -/
def splitSlashes : List Char → List Char × List (List Char)
  | [] => ([], [])
  | c :: rest =>
    let (first, later) := splitSlashes rest
    if c = '/' then ([], first :: later) else (c :: first, later)

/-- The component that a text between slashes is. -/
def component (text : List Char) : Component :=
  if text = ['.'] then .here else if text = ['.', '.'] then .up else .name (String.ofList text)

/-- The steps of a path, single dots included. -/
def steps (path : String) : List Component :=
  let (first, later) := splitSlashes path.toList
  ((first :: later).filter (· ≠ [])).map component

/-- The components of a path that lead anywhere. -/
def components (path : String) : List Component :=
  (steps path).filter (· ≠ .here)

/-- Does the path start at the root? -/
def isAbsolute (path : String) : Bool :=
  path.toList.head? = some '/'

/-- Does the path end with a slash? -/
def endsWithSlash (path : String) : Bool :=
  path.toList.getLast? = some '/'

/-- The last component, if it is a name. -/
def fileName? (path : String) : Option String :=
  match (components path).getLast? with
  | some (.name text) => some text
  | _ => none

/-- What precedes the last dot of a file's name. A dot at the front is not looked at. -/
def stem? (path : String) : Option String :=
  (fileName? path).map fun name =>
    match (name.toList.reverse.dropWhile (· ≠ '.')) with
    | [] => name
    | [_] => name
    | _ :: before => String.ofList before.reverse

/-- A path below another one. -/
def join (path name : String) : String :=
  if isAbsolute name then name
  else if path = "" || endsWithSlash path then path ++ name
  else path ++ "/" ++ name

/-- The path without slashes and single dots at its end that mean nothing. -/
def trimEnd (path : List Char) : List Char :=
  let reversed := path.reverse
  (go reversed).reverse
where
  /-- Works on the path from back to front. -/
  go : List Char → List Char
    | '/' :: rest => if rest = [] then ['/'] else go rest
    | '.' :: '/' :: rest => go ('/' :: rest)
    | path => path
  termination_by path => path.length

/-- The path of what a path lies in; none for the empty path and the root. -/
def parent? (path : String) : Option String :=
  let trimmed := trimEnd path.toList
  if trimmed = [] || trimmed = ['/'] then none
  else some (String.ofList (trimEnd (trimmed.reverse.dropWhile (· ≠ '/')).reverse))

end Reflection.Path
